import Mathlib.Data.List.Induction
import NesMachine.Proofs.AddressSpace.Links

/-!
# Address spaces after any calls

Wiring, devices and stored bytes can come in any order, and a later link may start where an
earlier one ended.  `afterCalls calls` is the space after an arbitrary list of calls, the refused
ones among them included.

* `grounded_afterCalls`: whatever the calls were, the walk from every address stops;
* `owners_share_after_calls`: hence every address has an owner that is no link, and the addresses
  of one owner, and no others, share a byte.
-/

namespace NesMachine

namespace AddressSpace

variable {δ : Type} {space : AddressSpace δ} {a b : UInt16}

/-! ### Single changes -/

/-- A link is made to the owner of its target, and not at all if that is its own address. -/
theorem link_cases (space : AddressSpace δ) (a target : UInt16) :
    (space.owner target = a ∧ space.link a target = space) ∨
      (a ≠ space.owner target ∧
        (space.link a target).routes = space.routes.set a (.link (space.owner target))) := by
  by_cases h : space.owner target = a
  · exact .inl ⟨h, if_pos h⟩
  · refine .inr ⟨Ne.symm h, ?_⟩
    rw [show space.link a target = ⟨space.bytes, space.routes.set a (.link (space.owner target))⟩
      from if_neg h]

theorem routes_link_of_ne (space : AddressSpace δ) (hab : a ≠ b)
    (target : UInt16) : (space.link a target).routes[b] = space.routes[b] := by
  rcases space.link_cases a target with ⟨-, hsame⟩ | ⟨-, hroutes⟩
  · rw [hsame]
  · rw [hroutes, Cells.getElem_set_of_ne _ hab]

theorem routes_linkAll_of_ne {pairs : List (UInt16 × UInt16)} (hne : ∀ pair ∈ pairs, pair.1 ≠ b)
    (space : AddressSpace δ) : (space.linkAll pairs).routes[b] = space.routes[b] := by
  induction pairs generalizing space with
  | nil => rfl
  | cons pair pairs ih =>
    have hrest := ih (fun other hother => hne other (List.mem_cons_of_mem _ hother))
      (space.link pair.1 pair.2)
    exact hrest.trans (routes_link_of_ne space (hne pair List.mem_cons_self) pair.2)

/-- Repetition changes no route outside the copies. -/
theorem routes_linkRepeating_of_outside (space : AddressSpace δ) {base period last : UInt16}
    (hb : b.toNat < base.toNat + period.toNat ∨ last.toNat < b.toNat) :
    (space.linkRepeating base period last).routes[b] = space.routes[b] := by
  refine routes_linkAll_of_ne ?_ space
  intro pair hpair heq
  obtain ⟨-, hlow, hhigh, -⟩ := mem_repeatedPairs.mp (show (pair.1, pair.2) ∈ _ from hpair)
  rw [heq] at hlow hhigh
  omega

theorem routes_install (space : AddressSpace δ) (a b : UInt16) (kind : δ) :
    (space.install a kind).routes[b] = if a = b then .device kind else space.routes[b] :=
  Cells.getElem_set space.routes a b _

theorem Grounded.empty : Grounded (empty : AddressSpace δ).routes := by
  intro a
  refine ⟨a, .stop ?_⟩
  rw [show (AddressSpace.empty : AddressSpace δ).routes[a] = .plain from
    Cells.getElem_fill Route.plain a]
  rfl

theorem Grounded.link (h : Grounded space.routes) (a target : UInt16) :
    Grounded (space.link a target).routes := by
  rcases space.link_cases a target with ⟨-, hsame⟩ | ⟨hne, hroutes⟩
  · rw [hsame]
    exact h
  · rw [hroutes]
    exact h.set_link (h.owner_not_isLink target) hne

theorem Grounded.linkAll (h : Grounded space.routes) (pairs : List (UInt16 × UInt16)) :
    Grounded (space.linkAll pairs).routes := by
  induction pairs generalizing space with
  | nil => exact h
  | cons pair pairs ih => exact ih (h.link pair.1 pair.2)

theorem Grounded.install (h : Grounded space.routes) (a : UInt16) (kind : δ) :
    Grounded (space.install a kind).routes :=
  h.set_end a rfl

/-! ### Calls -/

/-- The ways in which links are asked for. -/
inductive Wiring where
  /-- One address shows another. -/
  | single (a target : UInt16)
  /-- A block shows another of the same length. -/
  | block (start target : UInt16) (length : Nat)
  /-- A block is repeated up to an address. -/
  | repeating (base period last : UInt16)

namespace Wiring

/-- Makes the links, unless the block does not fit. -/
def apply : Wiring → AddressSpace δ → Except BusError (AddressSpace δ)
  | single a target, space => .ok (space.link a target)
  | block start target length, space => space.linkBlock start target length
  | repeating base period last, space => .ok (space.linkRepeating base period last)

/-- The links in the order in which they are made. -/
def pairs : Wiring → List (UInt16 × UInt16)
  | single a target => [(a, target)]
  | block start target length => blockPairs start target (length % 65536)
  | repeating base period last => repeatedPairs base period last

/-- Both blocks fit below `$10000`. -/
def Fits : Wiring → Prop
  | single _ _ => True
  | block start target length => start.toNat + length ≤ 65536 ∧ target.toNat + length ≤ 65536
  | repeating _ _ _ => True

/-- Wiring is refused unless it fits, and otherwise makes its links one after the other. -/
theorem apply_eq_ok_iff {w : Wiring} {space' : AddressSpace δ} :
    w.apply space = .ok space' ↔ w.Fits ∧ space' = space.linkAll w.pairs := by
  cases w with
  | single a target =>
    show Except.ok (space.linkAll [(a, target)]) = .ok space' ↔ _
    rw [Except.ok.injEq, Fits, true_and, pairs, eq_comm]
  | block start target length =>
    rw [apply, linkBlock, checkBlock, checkBlock, Fits, pairs]
    by_cases hstart : start.toNat + length ≤ 65536
    · by_cases htarget : target.toNat + length ≤ 65536
      · simp [hstart, htarget, eq_comm]
      · simp [hstart, htarget]
    · by_cases htarget : target.toNat + length ≤ 65536 <;> simp [hstart, htarget]
  | repeating base period last =>
    show Except.ok (space.linkAll (repeatedPairs base period last)) = .ok space' ↔ _
    rw [Except.ok.injEq, Fits, true_and, pairs, eq_comm]

end Wiring

/-- What a host may ask of an address space.  Addresses of bytes are given by their numbers. -/
inductive Call (δ : Type) where
  | wire (wiring : Wiring)
  | install (a : UInt16) (kind : δ)
  | poke (address : UInt32) (value : UInt8)
  | write (address : UInt32) (value : UInt8)
  | load (start : UInt16) (bytes : List UInt8)

/-- The space after a call; a refused call leaves it as it was. -/
def Call.run : Call δ → AddressSpace δ → AddressSpace δ
  | .wire wiring, space =>
    match wiring.apply space with
    | .ok space => space
    | .error _ => space
  | .install a kind, space => space.install a kind
  | .poke address value, space =>
    match checkAddress address with
    | .ok a => space.poke a value
    | .error _ => space
  | .write address value, space =>
    match Bus.writeAt address value space with
    | .ok _ space => space
    | .error _ space => space
  | .load start bytes, space =>
    match space.load start bytes with
    | .ok space => space
    | .error _ => space

/-- The space after a list of calls, made one after the other from the empty space on. -/
def afterCalls (calls : List (Call δ)) : AddressSpace δ :=
  calls.foldl (fun space call => call.run space) empty

theorem afterCalls_append (calls : List (Call δ)) (call : Call δ) :
    afterCalls (calls ++ [call]) = call.run (afterCalls calls) := by
  simp [afterCalls]

/-- No call makes a walk endless. -/
theorem Grounded.run (h : Grounded space.routes) (call : Call δ) :
    Grounded (call.run space).routes := by
  cases call with
  | wire wiring =>
    rw [Call.run]
    split
    · rename_i space' happly
      rw [(Wiring.apply_eq_ok_iff.mp happly).2]
      exact h.linkAll wiring.pairs
    · exact h
  | install a kind => exact h.install a kind
  | poke address value =>
    rw [Call.run]
    split <;> exact h
  | write address value =>
    rw [Call.run, Bus.writeAt]
    cases checkAddress address with
    | ok a => exact h
    | error e => exact h
  | load start bytes =>
    rw [Call.run, load]
    cases checkBlock start bytes.length with
    | ok _ =>
      show Grounded (space.store start bytes).routes
      rw [routes_store]
      exact h
    | error e => exact h

theorem grounded_afterCalls (calls : List (Call δ)) : Grounded (afterCalls calls).routes := by
  induction calls using List.reverseRecOn with
  | nil => exact .empty
  | append_singleton calls call ih =>
    rw [afterCalls_append]
    exact ih.run call

/-! ### Owners and shared bytes -/

theorem mem_aliasesOf (space : AddressSpace δ) (a b : UInt16) :
    b ∈ space.aliasesOf a ↔ space.owner b = space.owner a := by
  simp [aliasesOf, List.mem_filter, Cells.mem_addresses]

theorem aliasesOf_pairwise (space : AddressSpace δ) (a : UInt16) :
    (space.aliasesOf a).Pairwise (· < ·) := by
  unfold aliasesOf
  exact List.Pairwise.filter _ Cells.addresses_pairwise

/-- **Owners after any calls.**  No links form a cycle, so that the walk from each address stops,
and it stops at the owner, which is no link.  A byte put behind an address is seen from exactly
the addresses with the same owner, and these are the ones listed as its aliases. -/
theorem owners_share_after_calls (calls : List (Call δ)) :
    let space := afterCalls calls
    (∀ a, ¬ Relation.TransGen (LinksTo space.routes) a a) ∧
    (∀ a, Leads space.routes a (space.owner a) ∧ isLink space.routes[space.owner a] = false) ∧
    (∀ a b value, (space.poke a value).peek b =
      if space.owner a = space.owner b then value else space.peek b) ∧
    (∀ a, (space.aliasesOf a).Pairwise (· < ·) ∧
      ∀ b, b ∈ space.aliasesOf a ↔ space.owner b = space.owner a) := by
  intro space
  have h : Grounded space.routes := grounded_afterCalls calls
  refine ⟨fun a => ?_, fun a => ?_, fun a b value => ?_, fun a => ?_⟩
  · exact (h.leads_owner a).not_cyclic
  · exact ⟨h.leads_owner a, h.owner_not_isLink a⟩
  · exact peek_poke space a b value
  · exact ⟨aliasesOf_pairwise space a, mem_aliasesOf space a⟩

end AddressSpace

end NesMachine
