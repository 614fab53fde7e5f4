import NesMachine.Proofs.AddressSpace.Calls

/-!
# Stored blocks

Storing a block goes byte by byte, and each byte lands behind its address whatever is wired there; a
later byte hides an earlier one where two addresses of the block share an owner.

* `AddressSpace.peek_store`: behind an address is the last byte of the block that has landed there, or
  the byte that was there before;
* `AddressSpace.peek_store_of_outside`, `AddressSpace.peek_store_at`: the two cases by themselves;
* `AddressSpace.OwnsBlock`: the blocks whose bytes do not collide.
-/

namespace NesMachine

namespace AddressSpace

variable {δ : Type} {a b : UInt16} {bytes : List UInt8}

theorem add_ofNat_succ (a : UInt16) (i : Nat) :
    a + UInt16.ofNat (i + 1) = a + 1 + UInt16.ofNat i := by
  rw [UInt16.ofNat_add, UInt16.add_comm (UInt16.ofNat i), UInt16.add_assoc]
  rfl

theorem toNat_add_ofNat {i : Nat} (hi : a.toNat + i < 0x10000) :
    (a + UInt16.ofNat i).toNat = a.toNat + i := by
  rw [UInt16.toNat_add, UInt16.toNat_ofNat']
  omega

theorem owner_store (space : AddressSpace δ) (a b : UInt16) (bytes : List UInt8) :
    (space.store a bytes).owner b = space.owner b := by
  rw [owner, routes_store]
  rfl

/-- **The last byte counts.**  A block leaves behind an address the last of its bytes whose address has
the same owner, and what was there before if there is no such byte. -/
theorem peek_store (space : AddressSpace δ) (a b : UInt16) (bytes : List UInt8) :
    (∃ i byte, bytes[i]? = some byte ∧ space.owner (a + UInt16.ofNat i) = space.owner b ∧
      (∀ j < bytes.length, i < j → space.owner (a + UInt16.ofNat j) ≠ space.owner b) ∧
      (space.store a bytes).peek b = byte) ∨
    ((∀ i < bytes.length, space.owner (a + UInt16.ofNat i) ≠ space.owner b) ∧
      (space.store a bytes).peek b = space.peek b) := by
  induction bytes generalizing space a with
  | nil => exact .inr ⟨fun i hi => absurd hi (Nat.not_lt_zero i), rfl⟩
  | cons byte bytes ih =>
    have hzero : a + UInt16.ofNat 0 = a := UInt16.add_zero a
    -- the bytes behind the first one, whose addresses are counted from `a + 1`
    obtain ⟨i, later, hlater, howner, hlast, hpeek⟩ | ⟨hnone, hpeek⟩ := ih (space.poke a byte) (a + 1)
    · simp only [owner_poke, ← add_ofNat_succ] at howner hlast
      refine .inl ⟨i + 1, later, hlater, howner, ?_, hpeek⟩
      intro j hj hij
      cases j with
      | zero => omega
      | succ j => exact hlast j (Nat.lt_of_succ_lt_succ hj) (Nat.lt_of_succ_lt_succ hij)
    · simp only [owner_poke, ← add_ofNat_succ] at hnone
      rw [peek_poke] at hpeek
      by_cases hfirst : space.owner a = space.owner b
      · rw [if_pos hfirst] at hpeek
        refine .inl ⟨0, byte, rfl, by rw [hzero, hfirst], ?_, hpeek⟩
        intro j hj hij
        cases j with
        | zero => omega
        | succ j => exact hnone j (Nat.lt_of_succ_lt_succ hj)
      · rw [if_neg hfirst] at hpeek
        refine .inr ⟨?_, hpeek⟩
        intro i hi
        cases i with
        | zero =>
          rw [hzero]
          exact hfirst
        | succ i => exact hnone i (Nat.lt_of_succ_lt_succ hi)

/-- A block leaves the bytes alone that share an owner with none of its addresses. -/
theorem peek_store_of_outside (space : AddressSpace δ)
    (hne : ∀ i < bytes.length, space.owner (a + UInt16.ofNat i) ≠ space.owner b) :
    (space.store a bytes).peek b = space.peek b := by
  obtain ⟨i, byte, hbyte, howner, -⟩ | ⟨-, hpeek⟩ := space.peek_store a b bytes
  · exact absurd howner (hne i (List.getElem?_eq_some_iff.mp hbyte).1)
  · exact hpeek

/-- A byte of the block is behind its address if no later one lands there too. -/
theorem peek_store_at (space : AddressSpace δ) {i : Nat} (hi : i < bytes.length)
    (hne : ∀ j < bytes.length, i < j →
      space.owner (a + UInt16.ofNat j) ≠ space.owner (a + UInt16.ofNat i)) :
    (space.store a bytes).peek (a + UInt16.ofNat i) = bytes[i] := by
  obtain ⟨k, byte, hbyte, howner, hlast, hpeek⟩ | ⟨hnone, -⟩ :=
    space.peek_store a (a + UInt16.ofNat i) bytes
  · obtain ⟨hk, hbyte⟩ := List.getElem?_eq_some_iff.mp hbyte
    -- neither of the two bytes is behind the other
    obtain hlt | rfl | hgt := Nat.lt_trichotomy i k
    · exact absurd howner (hne k hk hlt)
    · rw [hpeek, hbyte]
    · exact absurd rfl (hlast i hi hgt)
  · exact absurd rfl (hnone i hi)

/-- The addresses of a block are their own owners, and they do not wrap around. -/
structure OwnsBlock (space : AddressSpace δ) (a : UInt16) (size : Nat) : Prop where
  fits : a.toNat + size ≤ 0x10000
  owner : ∀ i < size, space.owner (a + UInt16.ofNat i) = a + UInt16.ofNat i

theorem OwnsBlock.store {space : AddressSpace δ} {size : Nat} (h : space.OwnsBlock a size)
    (b : UInt16) (bytes : List UInt8) : (space.store b bytes).OwnsBlock a size := by
  refine ⟨h.fits, ?_⟩
  intro i hi
  rw [owner_store]
  exact h.owner i hi

theorem OwnsBlock.toNat_add {space : AddressSpace δ} {size i : Nat} (h : space.OwnsBlock a size)
    (hi : i < size) : (a + UInt16.ofNat i).toNat = a.toNat + i := by
  have hfits := h.fits
  exact toNat_add_ofNat (by omega)

/-- No two bytes of such a block collide. -/
theorem OwnsBlock.peek_store {space : AddressSpace δ} {size i : Nat}
    (h : space.OwnsBlock a size) (block : Vector UInt8 size) (hi : i < size) :
    (space.store a block.toList).peek (a + UInt16.ofNat i) = block[i] := by
  rw [peek_store_at space (by simpa using hi)]
  · exact Vector.getElem_toList (by simpa using hi)
  · intro j hj hij heq
    rw [Vector.length_toList] at hj
    rw [h.owner j hj, h.owner i hi, ← UInt16.toNat_inj, h.toNat_add hj, h.toNat_add hi] at heq
    omega

/-- Nor is a byte hidden whose owner lies below or behind such a block. -/
theorem OwnsBlock.peek_store_of_outside {space : AddressSpace δ} {size : Nat}
    (h : space.OwnsBlock a size)
    (hb : (space.owner b).toNat < a.toNat ∨ a.toNat + size ≤ (space.owner b).toNat)
    (block : Vector UInt8 size) : (space.store a block.toList).peek b = space.peek b := by
  refine AddressSpace.peek_store_of_outside space ?_
  intro j hj heq
  rw [Vector.length_toList] at hj
  rw [h.owner j hj, ← UInt16.toNat_inj, h.toNat_add hj] at heq
  omega

end AddressSpace

end NesMachine
