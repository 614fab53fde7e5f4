import NesMachine.Proofs.AddressSpace.Groups

/-!
# Owners in closed form

`Groups` tells which addresses share a byte.  For the wiring of a machine one wants to know more:
the owner of each address, as a formula in the number of the address.

* `OwnedBy space f`: the number of every owner is `f` of the number of the address;
* `OwnedBy.linkAll`: links from addresses that were alone redirect those addresses and nothing
  else, so that the formula afterwards is the old one after a redirection;
* `OwnedBy.linkBlock`, `OwnedBy.linkRepeating`: the redirections of the two kinds of wiring;
* `peek_pokeAll`: behind an address is what was last written to an address with its owner.
-/

namespace NesMachine

namespace AddressSpace

variable {δ : Type} {space : AddressSpace δ} {f g : Nat → Nat}

/-! ### Owners after many links -/

/-- A group whose owner is not linked keeps it. -/
theorem owner_linkAll_of_ne (pairs : List (UInt16 × UInt16)) :
    ∀ {space : AddressSpace δ}, Grounded space.routes → Fresh space.routes pairs →
      ∀ {x : UInt16}, (∀ p ∈ pairs, p.1 ≠ space.owner x) →
        (space.linkAll pairs).owner x = space.owner x := by
  induction pairs with
  | nil => intro space _ _ x _; rfl
  | cons pair pairs ih =>
    intro space h hfresh x hx
    have hfirst : (space.link pair.1 pair.2).owner x = space.owner x := by
      rw [owner_link h (hfresh.ends pair List.mem_cons_self),
        if_neg (Ne.symm (hx pair List.mem_cons_self))]
    rw [← hfirst] at hx ⊢
    exact ih (h.link pair.1 pair.2) hfresh.tail fun p hp => hx p (List.mem_cons_of_mem pair hp)

/-- A linked address gets the owner of its target, if that is not linked too. -/
theorem owner_linkAll_of_mem (pairs : List (UInt16 × UInt16)) :
    ∀ {space : AddressSpace δ}, Grounded space.routes → Fresh space.routes pairs →
      ∀ {a target : UInt16}, (a, target) ∈ pairs → (∀ p ∈ pairs, p.1 ≠ space.owner target) →
        (space.linkAll pairs).owner a = space.owner target := by
  induction pairs with
  | nil => intro space _ _ a target hmem; cases hmem
  | cons pair pairs ih =>
    intro space h hfresh a target hmem htarget
    have hgrounded := h.link pair.1 pair.2
    have hrest : ∀ p ∈ pairs, p.1 ≠ space.owner target :=
      fun p hp => htarget p (List.mem_cons_of_mem pair hp)
    have hends := hfresh.ends pair List.mem_cons_self
    rcases List.mem_cons.mp hmem with rfl | hmem
    · have hfirst : (space.link a target).owner a = space.owner target := by
        rw [owner_link h hends, owner_of_not_isLink hends, if_pos rfl]
      rw [← hfirst] at hrest ⊢
      exact owner_linkAll_of_ne pairs hgrounded hfresh.tail hrest
    · have hkept : (space.link pair.1 pair.2).owner target = space.owner target := by
        rw [owner_link h hends, if_neg (Ne.symm (htarget pair List.mem_cons_self))]
      rw [← hkept] at hrest ⊢
      exact ih hgrounded hfresh.tail hmem hrest

/-! ### Owners by their numbers -/

/-- The owner of every address has the number that the formula gives. -/
structure OwnedBy (space : AddressSpace δ) (f : Nat → Nat) : Prop where
  grounded : Grounded space.routes
  toNat_owner : ∀ x, (space.owner x).toNat = f x.toNat

theorem OwnedBy.empty : OwnedBy (empty : AddressSpace δ) id := by
  refine ⟨.empty, ?_⟩
  intro x
  have hplain : (AddressSpace.empty : AddressSpace δ).routes[x] = .plain :=
    Cells.getElem_fill Route.plain x
  rw [owner_of_not_isLink (by rw [hplain]; rfl)]
  rfl

theorem OwnedBy.congr (h : OwnedBy space f) (hfg : ∀ n < 65536, f n = g n) : OwnedBy space g := by
  refine ⟨h.grounded, ?_⟩
  intro x
  rw [h.toNat_owner, hfg _ x.toNat_lt]

theorem OwnedBy.owner_eq_self (h : OwnedBy space f) {x : UInt16} (hx : f x.toNat = x.toNat) :
    space.owner x = x := by
  apply UInt16.toNat_inj.mp
  rw [h.toNat_owner, hx]

theorem OwnedBy.not_isLink (h : OwnedBy space f) {x : UInt16} (hx : f x.toNat = x.toNat) :
    isLink space.routes[x] = false := by
  have hend := h.grounded.owner_not_isLink x
  rw [h.owner_eq_self hx] at hend
  exact hend

/-- A device at an address that is its own owner changes no owner. -/
theorem OwnedBy.install (h : OwnedBy space f) (a : UInt16) (kind : δ) (ha : f a.toNat = a.toNat) :
    OwnedBy (space.install a kind) f := by
  refine ⟨h.grounded.install a kind, ?_⟩
  intro x
  have hx : Leads (space.install a kind).routes x (space.owner x) :=
    (h.grounded.leads_owner x).set_end (h.not_isLink ha) rfl
  rw [hx.owner_eq]
  exact h.toNat_owner x

/-- The links lead the address with number `n` to the one with number `g n`, and all addresses
that `g` moves are linked. -/
structure Redirects (pairs : List (UInt16 × UInt16)) (g : Nat → Nat) : Prop where
  nodup : (pairs.map Prod.fst).Nodup
  target : ∀ p ∈ pairs, p.2.toNat = g p.1.toNat
  rest : ∀ x : UInt16, (∀ p ∈ pairs, p.1 ≠ x) → g x.toNat = x.toNat

/-- **Redirection.**  Let each linked address be its own owner and own no address that the
redirection leaves.  Then the owner is found where it was before, after the redirection. -/
theorem OwnedBy.linkAll {pairs : List (UInt16 × UInt16)} (h : OwnedBy space f)
    (hg : Redirects pairs g) (hself : ∀ p ∈ pairs, f p.1.toNat = p.1.toNat)
    (hleft : ∀ p ∈ pairs, ∀ n < 65536, f (g n) ≠ p.1.toNat) :
    OwnedBy (space.linkAll pairs) (f ∘ g) := by
  have hfresh : Fresh space.routes pairs := ⟨hg.nodup, fun p hp => h.not_isLink (hself p hp)⟩
  refine ⟨h.grounded.linkAll pairs, ?_⟩
  intro x
  by_cases hx : ∃ p ∈ pairs, p.1 = x
  · obtain ⟨p, hp, rfl⟩ := hx
    have howner : (space.owner p.2).toNat = f (g p.1.toNat) := by
      rw [h.toNat_owner, hg.target p hp]
    rw [owner_linkAll_of_mem pairs h.grounded hfresh hp, howner]
    · rfl
    · intro q hq heq
      refine hleft q hq p.1.toNat p.1.toNat_lt ?_
      rw [heq, howner]
  · have hne : ∀ p ∈ pairs, p.1 ≠ x := fun p hp heq => hx ⟨p, hp, heq⟩
    have howner : (space.owner x).toNat = f (g x.toNat) := by
      rw [h.toNat_owner, hg.rest x hne]
    rw [owner_linkAll_of_ne pairs h.grounded hfresh, howner]
    · rfl
    · intro q hq heq
      refine hleft q hq x.toNat x.toNat_lt ?_
      rw [heq, howner]

/-! ### Blocks -/

/-- The redirection of a block to another one. -/
def shifted (start target length n : Nat) : Nat :=
  if start ≤ n ∧ n < start + length then target + (n - start) else n

/-- The redirection of the copies of a block to the block. -/
def wrapped (base period last n : Nat) : Nat :=
  if base + period ≤ n ∧ n ≤ last then base + (n - base) % period else n

theorem redirects_blockPairs {start target : UInt16} {length : Nat}
    (hstart : start.toNat + length < 65536) (htarget : target.toNat + length < 65536) :
    Redirects (blockPairs start target length) (shifted start.toNat target.toNat length) := by
  have hmem (x y : UInt16) := mem_blockPairs (x := x) (y := y) hstart.le htarget.le
  refine ⟨?_, ?_, ?_⟩
  · have hnodup := Wiring.nodup_pairs (w := .block start target length) ⟨hstart.le, htarget.le⟩
    rw [Wiring.pairs, Nat.mod_eq_of_lt (by omega)] at hnodup
    exact hnodup
  · intro p hp
    obtain ⟨i, hi, hx, hy⟩ := (hmem p.1 p.2).mp hp
    rw [shifted, if_pos (by omega), hx, hy]
    omega
  · intro x hx
    rw [shifted, if_neg]
    intro hblock
    have hy : (UInt16.ofNat (target.toNat + (x.toNat - start.toNat))).toNat
        = target.toNat + (x.toNat - start.toNat) := by
      rw [UInt16.toNat_ofNat']
      omega
    refine hx _ ((hmem x _).mpr ⟨x.toNat - start.toNat, ?_, ?_, hy⟩) rfl
    · omega
    · omega

theorem redirects_repeatedPairs {base period last : UInt16} (hperiod : period ≠ 0) :
    Redirects (repeatedPairs base period last)
      (wrapped base.toNat period.toNat last.toNat) := by
  refine ⟨Wiring.nodup_pairs (w := .repeating base period last) trivial, ?_, ?_⟩
  · intro p hp
    obtain ⟨-, hlow, hhigh, hy⟩ := mem_repeatedPairs.mp (show (p.1, p.2) ∈ _ from hp)
    rw [wrapped, if_pos ⟨hlow, hhigh⟩, hy]
  · intro x hx
    rw [wrapped, if_neg]
    intro hcopy
    have hpos : 0 < period.toNat :=
      Nat.pos_of_ne_zero fun hzero => hperiod (UInt16.toNat_inj.mp hzero)
    have hmod := Nat.mod_lt (x.toNat - base.toNat) hpos
    have hlt := x.toNat_lt
    have hy : (UInt16.ofNat (base.toNat + (x.toNat - base.toNat) % period.toNat)).toNat
        = base.toNat + (x.toNat - base.toNat) % period.toNat := by
      rw [UInt16.toNat_ofNat']
      omega
    exact hx _ (mem_repeatedPairs.mpr ⟨hperiod, hcopy.1, hcopy.2, hy⟩) rfl

/-- A block whose addresses were alone becomes a view of another block. -/
theorem OwnedBy.linkBlock (h : OwnedBy space f) (start target : UInt16) (length : Nat)
    (hstart : start.toNat + length < 65536) (htarget : target.toNat + length < 65536)
    (hself : ∀ n, start.toNat ≤ n → n < start.toNat + length → f n = n)
    (hleft : ∀ n < 65536, ¬ (start.toNat ≤ f (shifted start.toNat target.toNat length n) ∧
      f (shifted start.toNat target.toNat length n) < start.toNat + length)) :
    OwnedBy (space.linkAll (blockPairs start target length))
      (f ∘ shifted start.toNat target.toNat length) := by
  have hmem {p : UInt16 × UInt16} (hp : p ∈ blockPairs start target length) :
      start.toNat ≤ p.1.toNat ∧ p.1.toNat < start.toNat + length := by
    obtain ⟨i, hi, hx, -⟩ :=
      (mem_blockPairs (x := p.1) (y := p.2) hstart.le htarget.le).mp hp
    omega
  refine h.linkAll (redirects_blockPairs hstart htarget) ?_ ?_
  · intro p hp
    exact hself _ (hmem hp).1 (hmem hp).2
  · intro p hp n hn heq
    refine hleft n hn ?_
    rw [heq]
    exact hmem hp

/-- A block is repeated over addresses that were alone. -/
theorem OwnedBy.linkRepeating (h : OwnedBy space f) (base period last : UInt16)
    (hperiod : period ≠ 0)
    (hself : ∀ n, base.toNat + period.toNat ≤ n → n ≤ last.toNat → f n = n)
    (hleft : ∀ n < 65536,
      ¬ (base.toNat + period.toNat ≤ f (wrapped base.toNat period.toNat last.toNat n) ∧
        f (wrapped base.toNat period.toNat last.toNat n) ≤ last.toNat)) :
    OwnedBy (space.linkRepeating base period last)
      (f ∘ wrapped base.toNat period.toNat last.toNat) := by
  have hmem {p : UInt16 × UInt16} (hp : p ∈ repeatedPairs base period last) :
      base.toNat + period.toNat ≤ p.1.toNat ∧ p.1.toNat ≤ last.toNat := by
    obtain ⟨-, hlow, hhigh, -⟩ := mem_repeatedPairs.mp (show (p.1, p.2) ∈ _ from hp)
    exact ⟨hlow, hhigh⟩
  refine h.linkAll (redirects_repeatedPairs hperiod) ?_ ?_
  · intro p hp
    exact hself _ (hmem hp).1 (hmem hp).2
  · intro p hp n hn heq
    refine hleft n hn ?_
    rw [heq]
    exact hmem hp

/-! ### Bytes by the history of their writes -/

/-- The last byte that was written to one of certain addresses. -/
def lastWritten (among : UInt16 → Bool) (writes : List (UInt16 × UInt8)) : Option UInt8 :=
  (writes.reverse.find? fun write => among write.1).map Prod.snd

theorem lastWritten_concat (among : UInt16 → Bool) (writes : List (UInt16 × UInt8))
    (write : UInt16 × UInt8) :
    lastWritten among (writes ++ [write]) =
      if among write.1 then some write.2 else lastWritten among writes := by
  rw [lastWritten, List.reverse_concat, List.find?_cons]
  cases among write.1 <;> rfl

/-- Replaces bytes one after the other. -/
def pokeAll (space : AddressSpace δ) (writes : List (UInt16 × UInt8)) : AddressSpace δ :=
  writes.foldl (fun space write => space.poke write.1 write.2) space

theorem pokeAll_concat (space : AddressSpace δ) (writes : List (UInt16 × UInt8))
    (write : UInt16 × UInt8) :
    space.pokeAll (writes ++ [write]) = (space.pokeAll writes).poke write.1 write.2 := by
  rw [pokeAll, List.foldl_concat]
  rfl

theorem owner_pokeAll (space : AddressSpace δ) (writes : List (UInt16 × UInt8)) (a : UInt16) :
    (space.pokeAll writes).owner a = space.owner a := by
  induction writes using List.reverseRecOn with
  | nil => rfl
  | append_singleton writes write ih => rw [pokeAll_concat, owner_poke, ih]

/-- **The last write counts**, through whichever alias it was made. -/
theorem peek_pokeAll (space : AddressSpace δ) (writes : List (UInt16 × UInt8)) (a : UInt16) :
    (space.pokeAll writes).peek a =
      (lastWritten (fun b => space.owner b == space.owner a) writes).getD (space.peek a) := by
  induction writes using List.reverseRecOn with
  | nil => rfl
  | append_singleton writes write ih =>
    rw [pokeAll_concat, peek_poke, owner_pokeAll, owner_pokeAll, lastWritten_concat]
    by_cases hshared : space.owner write.1 = space.owner a
    · rw [if_pos hshared, if_pos (beq_iff_eq.mpr hshared)]
      rfl
    · rw [if_neg hshared, if_neg (by simpa using hshared), ih]

end AddressSpace

end NesMachine
