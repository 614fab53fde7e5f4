import Mathlib.Data.List.Nodup
import Mathlib.Data.Setoid.Basic
import Mathlib.Order.Bounds.Basic
import NesMachine.Proofs.AddressSpace.Calls

/-!
# Wiring joins groups

`space.sharing` relates the addresses with one owner.  A link from an address that is no link
merges two of its classes and nothing else (`owner_link`).  Pieces of wiring link several
addresses, each step finding the links of the steps before it; as long as the linked addresses
are distinct and were no links, every step is such a merge:

* `isLeast_sharing_linkAll`: the sharing afterwards is the smallest equivalence relation that
  contains the old sharing and the pairs, however the two sides of the pairs overlap;
* `owner_linkAll_of_shared`: pairs that share a byte already can be linked again without any
  change of an owner;
* `wiring_joins_groups`: both for every way in which links are asked for.
-/

namespace NesMachine

namespace AddressSpace

variable {δ : Type} {space : AddressSpace δ}

/-- Two addresses share a byte. -/
def sharing (space : AddressSpace δ) : Setoid UInt16 := Setoid.ker space.owner

theorem sharing_iff {x y : UInt16} : space.sharing x y ↔ space.owner x = space.owner y :=
  Iff.rfl

theorem Grounded.sharing_owner (h : Grounded space.routes) (x : UInt16) :
    space.sharing x (space.owner x) :=
  (h.owner_owner x).symm

/-! ### One link -/

/-- A link from an address that was no link: its group gets the owner of the target. -/
theorem owner_link (h : Grounded space.routes) {a : UInt16} (ha : isLink space.routes[a] = false)
    (target x : UInt16) :
    (space.link a target).owner x =
      if space.owner x = a then space.owner target else space.owner x := by
  rcases space.link_cases a target with ⟨howner, hsame⟩ | ⟨hne, hroutes⟩
  · -- the target is in the group already
    rw [hsame, howner]
    split
    · assumption
    · rfl
  · have hx := (h.leads_owner x).set_root ha (h.owner_not_isLink target) hne
    rw [← hroutes] at hx
    exact hx.owner_eq

/-- A link between two addresses that share a byte already changes no owner. -/
theorem owner_link_of_shared (h : Grounded space.routes) {a target : UInt16}
    (hshared : space.sharing a target) (x : UInt16) :
    (space.link a target).owner x = space.owner x := by
  rcases space.link_cases a target with ⟨-, hsame⟩ | ⟨hne, hroutes⟩
  · rw [hsame]
  · have ha := h.leads_owner a
    rw [sharing_iff.mp hshared] at ha
    have hx := ha.set_shortcut hne (h.leads_owner x)
    rw [← hroutes] at hx
    exact hx.owner_eq

/-- One link joins the groups of its address and its target. -/
theorem isLeast_sharing_link (h : Grounded space.routes) {a : UInt16}
    (ha : isLink space.routes[a] = false) (target : UInt16) :
    IsLeast {s : Setoid UInt16 | space.sharing ≤ s ∧ s a target}
      (space.link a target).sharing := by
  have howner := owner_link h ha target
  refine ⟨⟨?_, ?_⟩, ?_⟩
  · intro x y hxy
    rw [sharing_iff, howner, howner, sharing_iff.mp hxy]
  · rw [sharing_iff, howner, howner, owner_of_not_isLink ha, if_pos rfl]
    split <;> rfl
  · -- an address leaves its owner only for that of the target, and only if it was in `a`'s group
    intro s hs x y hxy
    obtain ⟨hold, hpair⟩ := hs
    have hmoved : ∀ z, s z ((space.link a target).owner z) := by
      intro z
      rw [howner]
      split
      · rename_i hz
        have hza : s z a := by
          rw [← hz]
          exact hold (h.sharing_owner z)
        exact s.trans' (s.trans' hza hpair) (hold (h.sharing_owner target))
      · exact hold (h.sharing_owner z)
    have hx := hmoved x
    rw [sharing_iff.mp hxy] at hx
    exact s.trans' hx (s.symm' (hmoved y))

/-! ### Many links -/

/-- The linked addresses are distinct, and none of them is a link yet. -/
structure Fresh (routes : Cells (Route δ)) (pairs : List (UInt16 × UInt16)) : Prop where
  nodup : (pairs.map Prod.fst).Nodup
  ends : ∀ p ∈ pairs, isLink routes[p.1] = false

/-- After the first link the other addresses are still no links, because they differ from its
address. -/
theorem Fresh.tail {pair : UInt16 × UInt16} {pairs : List (UInt16 × UInt16)}
    (h : Fresh space.routes (pair :: pairs)) : Fresh (space.link pair.1 pair.2).routes pairs := by
  obtain ⟨hnodup, hends⟩ := h
  rw [List.map_cons, List.nodup_cons] at hnodup
  refine ⟨hnodup.2, ?_⟩
  intro p hp
  have hne : pair.1 ≠ p.1 := by
    intro heq
    exact hnodup.1 (heq ▸ List.mem_map_of_mem hp)
  rw [routes_link_of_ne space hne]
  exact hends p (List.mem_cons_of_mem pair hp)

/-- **Links join groups.**  If the linked addresses are distinct and none of them was a link,
then the sharing afterwards is the smallest equivalence relation that contains the old one and
all pairs.  The induction is on the pairs; the later ones are still fresh after the first. -/
theorem isLeast_sharing_linkAll (pairs : List (UInt16 × UInt16)) :
    ∀ {space : AddressSpace δ}, Grounded space.routes → (pairs.map Prod.fst).Nodup →
      (∀ p ∈ pairs, isLink space.routes[p.1] = false) →
      IsLeast {s : Setoid UInt16 | space.sharing ≤ s ∧ ∀ p ∈ pairs, s p.1 p.2}
        (space.linkAll pairs).sharing := by
  induction pairs with
  | nil =>
    intro space _ _ _
    refine ⟨⟨le_refl _, fun p hp => by cases hp⟩, ?_⟩
    intro s hs
    obtain ⟨hold, -⟩ := hs
    exact hold
  | cons pair pairs ih =>
    intro space h hnodup hends
    obtain ⟨hfirst, hrest⟩ := isLeast_sharing_link h (hends pair List.mem_cons_self) pair.2
    have htail := Fresh.tail ⟨hnodup, hends⟩
    obtain ⟨hlater, hleast⟩ := ih (h.link pair.1 pair.2) htail.nodup htail.ends
    refine ⟨⟨le_trans hfirst.1 hlater.1, ?_⟩, ?_⟩
    · intro p hp
      rcases List.mem_cons.mp hp with rfl | hp
      · exact hlater.1 hfirst.2
      · exact hlater.2 p hp
    · intro s hs
      obtain ⟨hold, hpairs⟩ := hs
      have hs : (space.link pair.1 pair.2).sharing ≤ s :=
        hrest ⟨hold, hpairs pair List.mem_cons_self⟩
      exact hleast ⟨hs, fun p hp => hpairs p (List.mem_cons_of_mem pair hp)⟩

/-- Pairs that share their bytes already can be linked again: no owner changes. -/
theorem owner_linkAll_of_shared (pairs : List (UInt16 × UInt16)) :
    ∀ {space : AddressSpace δ}, Grounded space.routes →
      (∀ p ∈ pairs, space.sharing p.1 p.2) →
      ∀ x, (space.linkAll pairs).owner x = space.owner x := by
  induction pairs with
  | nil => intro space _ _ x; rfl
  | cons pair pairs ih =>
    intro space h hshared x
    have hfirst := owner_link_of_shared h (hshared pair List.mem_cons_self)
    have hshared' : ∀ p ∈ pairs, (space.link pair.1 pair.2).sharing p.1 p.2 := by
      intro p hp
      rw [sharing_iff, hfirst, hfirst]
      exact hshared p (List.mem_cons_of_mem pair hp)
    have hlater := ih (h.link pair.1 pair.2) hshared' x
    rw [hfirst] at hlater
    exact hlater

/-! ### Pieces of wiring -/

namespace Wiring

/-- The first address is asked to show the second. -/
def Names : Wiring → UInt16 → UInt16 → Prop
  | single a target, x, y => x = a ∧ y = target
  | block start target length, x, y =>
    ∃ i < length, x.toNat = start.toNat + i ∧ y.toNat = target.toNat + i
  | repeating base period last, x, y =>
    base.toNat + period.toNat ≤ x.toNat ∧ x.toNat ≤ last.toNat ∧
      y.toNat = base.toNat + (x.toNat - base.toNat) % period.toNat

theorem names_of_mem_pairs {w : Wiring} (h : w.Fits) {x y : UInt16} (hxy : (x, y) ∈ w.pairs) :
    w.Names x y := by
  cases w with
  | single a target =>
    have heq := List.mem_singleton.mp hxy
    exact ⟨congrArg Prod.fst heq, congrArg Prod.snd heq⟩
  | block start target length =>
    obtain ⟨hstart, htarget⟩ := h
    have hle := Nat.mod_le length 65536
    rw [pairs, mem_blockPairs (by omega) (by omega)] at hxy
    obtain ⟨i, hi, hx, hy⟩ := hxy
    exact ⟨i, by omega, hx, hy⟩
  | repeating base period last => exact (mem_repeatedPairs.mp hxy).2

/-- The links that are asked for and not made would lead from an address to itself. -/
theorem mem_pairs_of_names {w : Wiring} (h : w.Fits) {x y : UInt16} (hxy : w.Names x y) :
    (x, y) ∈ w.pairs ∨ x = y := by
  cases w with
  | single a target =>
    rw [hxy.1, hxy.2]
    exact .inl (List.mem_singleton_self _)
  | block start target length =>
    obtain ⟨hstart, htarget⟩ := h
    obtain ⟨i, hi, hx, hy⟩ := hxy
    by_cases hfull : length = 65536
    · -- both blocks are the whole space
      refine .inr (UInt16.toNat_inj.mp ?_)
      omega
    · have hmod : length % 65536 = length := Nat.mod_eq_of_lt (by omega)
      rw [pairs, hmod, mem_blockPairs hstart htarget]
      exact .inl ⟨i, hi, hx, hy⟩
  | repeating base period last =>
    by_cases hzero : period = 0
    · obtain ⟨hlow, -, hy⟩ := hxy
      refine .inr (UInt16.toNat_inj.mp ?_)
      rw [hy, hzero, show (0 : UInt16).toNat = 0 from rfl, Nat.mod_zero]
      omega
    · exact .inl (mem_repeatedPairs.mpr ⟨hzero, hxy⟩)

/-- No address is linked twice. -/
theorem nodup_pairs {w : Wiring} (h : w.Fits) : (w.pairs.map Prod.fst).Nodup := by
  cases w with
  | single a target => exact List.nodup_singleton a
  | block start target length =>
    obtain ⟨hstart, -⟩ := h
    rw [pairs, blockPairs, List.map_map]
    refine List.Nodup.map_on ?_ List.nodup_range
    intro i hi j hj hij
    rw [List.mem_range] at hi hj
    simp only [Function.comp_apply, ← UInt16.toNat_inj, UInt16.toNat_add,
      UInt16.toNat_ofNat'] at hij
    omega
  | repeating base period last =>
    rw [pairs, repeatedPairs]
    split
    · exact List.nodup_nil
    · have hlast := last.toNat_lt
      rw [List.map_map]
      refine List.Nodup.map_on ?_ List.nodup_range
      intro i hi j hj hij
      rw [List.mem_range] at hi hj
      simp only [Function.comp_apply, ← UInt16.toNat_inj, UInt16.toNat_add,
        UInt16.toNat_ofNat'] at hij
      omega

end Wiring

/-- **Wiring joins groups.**  In a space that any calls have made, let no address that is asked
to show another be a link.  Then the sharing after the wiring is the smallest equivalence
relation that contains the sharing before and all that was asked for, and every byte stays where
it is stored.  The same wiring once more is not refused, and it changes neither an owner nor a
byte. -/
theorem wiring_joins_groups (calls : List (Call δ)) (w : Wiring) {joined : AddressSpace δ}
    (hends : ∀ x y, w.Names x y → isLink (afterCalls calls).routes[x] = false)
    (happly : w.apply (afterCalls calls) = .ok joined) :
    IsLeast {s : Setoid UInt16 | (afterCalls calls).sharing ≤ s ∧ ∀ x y, w.Names x y → s x y}
        joined.sharing ∧
      joined.bytes = (afterCalls calls).bytes ∧
      ∃ again, w.apply joined = .ok again ∧
        (∀ x, again.owner x = joined.owner x) ∧ again.bytes = joined.bytes := by
  have h := grounded_afterCalls calls
  obtain ⟨hfits, hjoined⟩ := Wiring.apply_eq_ok_iff.mp happly
  have hends' : ∀ p ∈ w.pairs, isLink (afterCalls calls).routes[p.1] = false :=
    fun p hp => hends p.1 p.2 (Wiring.names_of_mem_pairs hfits hp)
  obtain ⟨⟨hold, hpairs⟩, hleast⟩ :=
    isLeast_sharing_linkAll w.pairs h (Wiring.nodup_pairs hfits) hends'
  rw [← hjoined] at hold hpairs hleast
  refine ⟨⟨⟨hold, ?_⟩, ?_⟩, ?_, joined.linkAll w.pairs, ?_, ?_, ?_⟩
  · intro x y hxy
    rcases Wiring.mem_pairs_of_names hfits hxy with hmem | rfl
    · exact hpairs (x, y) hmem
    · exact joined.sharing.refl' x
  · intro s hmem
    obtain ⟨hs, hnames⟩ := hmem
    exact hleast ⟨hs, fun p hp => hnames p.1 p.2 (Wiring.names_of_mem_pairs hfits hp)⟩
  · rw [hjoined, bytes_linkAll]
  · exact Wiring.apply_eq_ok_iff.mpr ⟨hfits, rfl⟩
  · have hgrounded : Grounded joined.routes := by
      rw [hjoined]
      exact h.linkAll w.pairs
    exact owner_linkAll_of_shared w.pairs hgrounded hpairs
  · exact bytes_linkAll joined w.pairs

/-- A block that is asked to show itself moved by one, with a device inside it and an alias of
one of its addresses outside. -/
theorem overlapping_block_joins_groups :
    let calls : List (Call Bool) := [.install 0x12 true, .wire (.single 0x40 0x11)]
    let w : Wiring := .block 0x10 0x11 3
    let joined := (afterCalls calls).linkAll w.pairs
    w.apply (afterCalls calls) = .ok joined ∧
      IsLeast {s : Setoid UInt16 | (afterCalls calls).sharing ≤ s ∧ ∀ x y, w.Names x y → s x y}
        joined.sharing := by
  intro calls w joined
  have hends : ∀ x y, w.Names x y → isLink (afterCalls calls).routes[x] = false := by
    intro x y hpair
    obtain ⟨i, hi, hx, -⟩ := hpair
    have hne : (0x40 : UInt16) ≠ x := by
      intro heq
      subst heq
      have hstart : (0x40 : UInt16).toNat = 0x10 + i := hx
      have h40 : (0x40 : UInt16).toNat = 0x40 := rfl
      omega
    show isLink ((empty.install 0x12 true).link 0x40 0x11).routes[x] = false
    rw [routes_link_of_ne _ hne]
    show isLink ((Cells.fill Route.plain).set 0x12 (Route.device true))[x] = false
    rw [Cells.getElem_set, Cells.getElem_fill]
    split <;> rfl
  have happly : w.apply (afterCalls calls) = .ok joined :=
    Wiring.apply_eq_ok_iff.mpr ⟨⟨by decide, by decide⟩, rfl⟩
  exact ⟨happly, (wiring_joins_groups calls w hends happly).1⟩

end AddressSpace

end NesMachine
