import NesMachine.AddressSpace.Basic

/-!
# Wiring an address space

A link is always made to the owner of its target, so joining a group through any of its
members has one effect, and an address is never linked to itself. Larger pieces of wiring
are lists of pairs, linked one after the other: `blockPairs` for a block that shows another
block, and `repeatedPairs` for a block that repeats. No wiring touches a stored byte.
-/

namespace NesMachine

namespace AddressSpace

variable {δ : Type}

/-- Makes an address another name of the target's byte. -/
def link (space : AddressSpace δ) (a target : UInt16) : AddressSpace δ :=
  match space with
  | ⟨bytes, routes⟩ =>
    let owner := follow routes 65536 target
    if owner = a then ⟨bytes, routes⟩ else ⟨bytes, routes.set a (.link owner)⟩

/-- Puts a device register at an address. -/
def install : AddressSpace δ → UInt16 → δ → AddressSpace δ
  | ⟨bytes, routes⟩, a, kind => ⟨bytes, routes.set a (.device kind)⟩

/-- Links the first address of each pair to the second, from the first pair on. -/
def linkAll (space : AddressSpace δ) (pairs : List (UInt16 × UInt16)) : AddressSpace δ :=
  pairs.foldl (fun space pair => space.link pair.1 pair.2) space

theorem linkAll_append (space : AddressSpace δ) (pairs later : List (UInt16 × UInt16)) :
    space.linkAll (pairs ++ later) = (space.linkAll pairs).linkAll later :=
  List.foldl_append

theorem bytes_link (space : AddressSpace δ) (a target : UInt16) :
    (space.link a target).bytes = space.bytes := by
  unfold link
  dsimp only
  split <;> rfl

theorem bytes_install (space : AddressSpace δ) (a : UInt16) (kind : δ) :
    (space.install a kind).bytes = space.bytes := rfl

theorem bytes_linkAll (space : AddressSpace δ) (pairs : List (UInt16 × UInt16)) :
    (space.linkAll pairs).bytes = space.bytes := by
  induction pairs generalizing space with
  | nil => rfl
  | cons pair pairs ih =>
    have h := ih (space.link pair.1 pair.2)
    rw [bytes_link] at h
    exact h

/-! ### Blocks -/

/-- The pairs that make one block show another of the same length. -/
def blockPairs (start target : UInt16) (length : Nat) : List (UInt16 × UInt16) :=
  (List.range length).map fun i => (start + UInt16.ofNat i, target + UInt16.ofNat i)

/-- In blocks that fit, the pairs are those of equal distance from the two starts. -/
theorem mem_blockPairs {start target x y : UInt16} {length : Nat}
    (hstart : start.toNat + length ≤ 65536) (htarget : target.toNat + length ≤ 65536) :
    (x, y) ∈ blockPairs start target length ↔
      ∃ i < length, x.toNat = start.toNat + i ∧ y.toNat = target.toNat + i := by
  simp only [blockPairs, List.mem_map, List.mem_range, Prod.mk.injEq, ← UInt16.toNat_inj,
    UInt16.toNat_add, UInt16.toNat_ofNat']
  constructor
  · intro hpair
    obtain ⟨i, hi, hx, hy⟩ := hpair
    exact ⟨i, hi, by omega, by omega⟩
  · intro hpair
    obtain ⟨i, hi, hx, hy⟩ := hpair
    exact ⟨i, hi, by omega, by omega⟩

/-- Makes the block at `start` show the block at `target`, all of it or nothing. A block of
all 65536 addresses can only show itself, and asks for no link. -/
def linkBlock (space : AddressSpace δ) (start target : UInt16) (length : Nat) :
    Except BusError (AddressSpace δ) :=
  match checkBlock start length, checkBlock target length with
  | .ok (), .ok () => .ok (space.linkAll (blockPairs start target (length % 65536)))
  | .error e, _ => .error e
  | _, .error e => .error e

theorem linkBlock_of_fits (space : AddressSpace δ) {start target : UInt16} {length : Nat}
    (hstart : start.toNat + length ≤ 65536) (htarget : target.toNat + length ≤ 65536)
    (hlength : length < 65536) :
    space.linkBlock start target length = .ok (space.linkAll (blockPairs start target length)) := by
  rw [linkBlock, checkBlock, checkBlock, if_pos hstart, if_pos htarget, Nat.mod_eq_of_lt hlength]

/-- The pairs that repeat the block of `period` bytes at `base` up to the address `last`. -/
def repeatedPairs (base period last : UInt16) : List (UInt16 × UInt16) :=
  if period = 0 then []
  else
    (List.range (last.toNat + 1 - (base.toNat + period.toNat))).map fun i =>
      (base + period + UInt16.ofNat i, base + UInt16.ofNat (i % period.toNat))

/-- The pairs are those of an address from the second copy on and the one that it repeats. -/
theorem mem_repeatedPairs {base period last x y : UInt16} :
    (x, y) ∈ repeatedPairs base period last ↔
      period ≠ 0 ∧ base.toNat + period.toNat ≤ x.toNat ∧ x.toNat ≤ last.toNat ∧
        y.toNat = base.toNat + (x.toNat - base.toNat) % period.toNat := by
  by_cases h : period = 0
  · simp [repeatedPairs, h]
  have hperiod : 0 < period.toNat := by
    apply Nat.pos_of_ne_zero
    intro hzero
    exact h (UInt16.toNat_inj.1 hzero)
  have hlast := last.toNat_lt
  simp only [repeatedPairs, h, if_false, List.mem_map, List.mem_range, Prod.mk.injEq,
    ← UInt16.toNat_inj, UInt16.toNat_add, UInt16.toNat_ofNat', not_false_eq_true, true_and,
    ne_eq]
  constructor
  · intro hpair
    obtain ⟨i, hi, hx, hy⟩ := hpair
    have hmod := Nat.mod_lt i hperiod
    have hdist : x.toNat - base.toNat = i + period.toNat := by omega
    rw [hdist, Nat.add_mod_right]
    exact ⟨by omega, by omega, by omega⟩
  · intro hpair
    obtain ⟨hlow, hhigh, hy⟩ := hpair
    have hdist : x.toNat - base.toNat = x.toNat - (base.toNat + period.toNat) + period.toNat := by
      omega
    rw [hdist, Nat.add_mod_right] at hy
    have hmod := Nat.mod_lt (x.toNat - (base.toNat + period.toNat)) hperiod
    exact ⟨x.toNat - (base.toNat + period.toNat), by omega, by omega, by omega⟩

/-- Repeats the block of `period` bytes at `base` up to the address `last`. -/
def linkRepeating (space : AddressSpace δ) (base period last : UInt16) : AddressSpace δ :=
  space.linkAll (repeatedPairs base period last)

end AddressSpace

end NesMachine
