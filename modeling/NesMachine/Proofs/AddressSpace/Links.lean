import Mathlib.Data.Fintype.Card
import Mathlib.Logic.Relation
import NesMachine.AddressSpace.Wiring

/-!
# Chains of links

`follow` is given 65536 links to follow, and that number by itself says nothing about where it
stops.  This file describes the walk without it:

* `Leads routes a r`: the walk from `a` along the links stops at `r`, which is no link;
* `Grounded routes`: the walk from every address stops;
* `Leads.not_cyclic`: a walk that stops meets no cycle, and therefore no address twice;
* `Leads.follow_eq`: such a walk has fewer links than there are addresses, so that `follow`
  has reached its end (`Grounded.leads_owner`).

The second half says what a changed route does to the walks.  A device grounds what came to its
address (`Grounded.set_end`), and where a walk could stop before, it moves none (`Leads.set_end`);
a link to an address that is no link keeps everything grounded
(`Grounded.set_link`), merges two groups if its own address was no link before
(`Leads.set_root`), and changes no walk if it only shortens one (`Leads.set_shortcut`).
-/

namespace NesMachine

namespace AddressSpace

variable {δ : Type} {routes : Cells (Route δ)} {a b c r : UInt16}

/-! ### Walks along the links -/

/-- The first address is linked to the second. -/
def LinksTo (routes : Cells (Route δ)) (a b : UInt16) : Prop := routes[a] = .link b

/-- The walk along the links from the first address stops at the second. -/
inductive Leads (routes : Cells (Route δ)) : UInt16 → UInt16 → Prop
  | stop {a : UInt16} : isLink routes[a] = false → Leads routes a a
  | link {a b r : UInt16} : LinksTo routes a b → Leads routes b r → Leads routes a r

/-- The walk from every address stops. -/
def Grounded (routes : Cells (Route δ)) : Prop := ∀ a, ∃ r, Leads routes a r

theorem LinksTo.isLink (h : LinksTo routes a b) : isLink routes[a] = true := by
  rw [show routes[a] = .link b from h]
  rfl

theorem LinksTo.unique (h : LinksTo routes a b) (h' : LinksTo routes a c) : b = c := by
  have e : Route.link b = Route.link c := h.symm.trans h'
  exact Route.link.inj e

theorem Leads.not_isLink (h : Leads routes a r) : isLink routes[r] = false := by
  induction h with
  | stop hend => exact hend
  | link _ _ ih => exact ih

theorem Leads.eq_of_not_isLink (h : Leads routes a r) (ha : isLink routes[a] = false) : r = a := by
  cases h with
  | stop _ => rfl
  | link hlink _ => rw [hlink.isLink] at ha; cases ha

theorem Leads.of_link (h : Leads routes a r) (hlink : LinksTo routes a b) : Leads routes b r := by
  cases h with
  | stop hend => rw [hlink.isLink] at hend; cases hend
  | link hlink' rest => rw [hlink.unique hlink']; exact rest

theorem Leads.unique (h : Leads routes a r) (h' : Leads routes a c) : r = c := by
  induction h with
  | stop hend => exact (h'.eq_of_not_isLink hend).symm
  | link hlink _ ih => exact ih (h'.of_link hlink)

/-- **A walk that stops meets no cycle.**  The first link of a cycle leads on to an address of
the same cycle, from which the rest of the walk starts. -/
theorem Leads.not_cyclic (h : Leads routes a r) : ¬ Relation.TransGen (LinksTo routes) a a := by
  induction h with
  | stop hend =>
    intro hcycle
    obtain ⟨b, hlink, -⟩ := Relation.TransGen.head'_iff.mp hcycle
    rw [hlink.isLink] at hend
    cases hend
  | link hlink _ ih =>
    intro hcycle
    obtain ⟨b, hlink', hback⟩ := Relation.TransGen.head'_iff.mp hcycle
    rw [hlink'.unique hlink] at hback
    exact ih (Relation.TransGen.tail' hback hlink)

/-! ### The length of a walk -/

theorem follow_of_not_isLink (ha : isLink routes[a] = false) (n : ℕ) : follow routes n a = a := by
  cases n with
  | zero => rfl
  | succ n =>
    unfold follow
    split
    · rename_i b hlink
      rw [LinksTo.isLink hlink] at ha
      cases ha
    · rfl

theorem follow_succ (hlink : LinksTo routes a b) (n : ℕ) :
    follow routes (n + 1) a = follow routes n b := by
  have h : routes[a] = .link b := hlink
  rw [follow]
  simp only [h]

/-- The linked addresses that a walk meets, none of them twice.  `follow` reaches the end of the
walk with one step for each. -/
theorem Leads.exists_trail (h : Leads routes a r) :
    ∃ trail : List UInt16, trail.Nodup ∧
      (∀ x ∈ trail, Relation.ReflTransGen (LinksTo routes) a x) ∧
      ∀ n, trail.length ≤ n → follow routes n a = r := by
  induction h with
  | stop hend =>
    refine ⟨[], List.nodup_nil, ?_, fun n _ => follow_of_not_isLink hend n⟩
    intro x hx
    cases hx
  | @link a b r hlink rest ih =>
    obtain ⟨trail, hnodup, hmet, hfollow⟩ := ih
    refine ⟨a :: trail, ?_, ?_, ?_⟩
    · -- an address that the rest meets again would close a cycle through the first link
      refine List.nodup_cons.mpr ⟨fun hmem => ?_, hnodup⟩
      exact (Leads.link hlink rest).not_cyclic (Relation.TransGen.head' hlink (hmet a hmem))
    · intro x hx
      rcases List.mem_cons.mp hx with rfl | hx
      · exact .refl
      · exact .head hlink (hmet x hx)
    · intro n hn
      cases n with
      | zero => simp at hn
      | succ n =>
        rw [follow_succ hlink]
        exact hfollow n (by simpa using hn)

/-- **65536 steps reach the end of every walk**, because no address comes twice. -/
theorem Leads.follow_eq (h : Leads routes a r) : follow routes 65536 a = r := by
  obtain ⟨trail, hnodup, -, hfollow⟩ := h.exists_trail
  apply hfollow
  have hinj : Function.Injective UInt16.toFin := fun x y hxy => UInt16.toFin_inj.mp hxy
  have hcard := (hnodup.map hinj).length_le_card
  rw [List.length_map, Fintype.card_fin] at hcard
  exact hcard

theorem Leads.owner_eq {space : AddressSpace δ} (h : Leads space.routes a r) :
    space.owner a = r := h.follow_eq

theorem Grounded.leads_owner {space : AddressSpace δ} (h : Grounded space.routes) (a : UInt16) :
    Leads space.routes a (space.owner a) := by
  obtain ⟨r, hr⟩ := h a
  rw [hr.owner_eq]
  exact hr

theorem Grounded.owner_not_isLink {space : AddressSpace δ} (h : Grounded space.routes)
    (a : UInt16) : isLink space.routes[space.owner a] = false :=
  (h.leads_owner a).not_isLink

theorem owner_of_not_isLink {space : AddressSpace δ} (ha : isLink space.routes[a] = false) :
    space.owner a = a :=
  (Leads.stop ha).owner_eq

theorem Grounded.owner_owner {space : AddressSpace δ} (h : Grounded space.routes) (a : UInt16) :
    space.owner (space.owner a) = space.owner a :=
  owner_of_not_isLink (h.owner_not_isLink a)

/-! ### Changed routes -/

theorem LinksTo.set_of_ne (h : LinksTo routes a b) (hca : c ≠ a) (route : Route δ) :
    LinksTo (routes.set c route) a b := by
  rw [LinksTo, Cells.getElem_set_of_ne _ hca]
  exact h

theorem not_isLink_set_of_ne (ha : isLink routes[a] = false) (hca : c ≠ a) (route : Route δ) :
    isLink (routes.set c route)[a] = false := by
  rw [Cells.getElem_set_of_ne _ hca]
  exact ha

/-- The walk from a new link to an end has no other link. -/
theorem leads_set_link (hr : isLink routes[r] = false) (hcr : c ≠ r) :
    Leads (routes.set c (.link r)) c r :=
  .link (Cells.getElem_set_self routes c _) (.stop (not_isLink_set_of_ne hr hcr _))

/-- If the walk from an address with a new route stops, then all walks stop: each goes on as
before until it comes to that address. -/
theorem Grounded.set (h : Grounded routes) {route : Route δ}
    (hc : Leads (routes.set c route) c r) : Grounded (routes.set c route) := by
  intro x
  obtain ⟨e, he⟩ := h x
  induction he with
  | @stop a hend =>
    by_cases hca : c = a
    · subst hca
      exact ⟨r, hc⟩
    · exact ⟨a, .stop (not_isLink_set_of_ne hend hca _)⟩
  | @link a b e hlink _ ih =>
    by_cases hca : c = a
    · subst hca
      exact ⟨r, hc⟩
    · obtain ⟨e', he'⟩ := ih
      exact ⟨e', .link (hlink.set_of_ne hca _) he'⟩

theorem Grounded.set_end (h : Grounded routes) (c : UInt16) {route : Route δ}
    (hroute : isLink route = false) : Grounded (routes.set c route) := by
  apply h.set (c := c) (r := c)
  apply Leads.stop
  rw [Cells.getElem_set_self]
  exact hroute

theorem Grounded.set_link (h : Grounded routes) (hr : isLink routes[r] = false) (hcr : c ≠ r) :
    Grounded (routes.set c (.link r)) :=
  h.set (leads_set_link hr hcr)

/-- **A new end.**  A route that is no link, put at an address that was none, moves the end of no
walk. -/
theorem Leads.set_end (hc : isLink routes[c] = false) {route : Route δ}
    (hroute : isLink route = false) {e : UInt16} (h : Leads routes a e) :
    Leads (routes.set c route) a e := by
  induction h with
  | @stop a hend =>
    by_cases hca : c = a
    · subst hca
      apply Leads.stop
      rw [Cells.getElem_set_self]
      exact hroute
    · exact .stop (not_isLink_set_of_ne hend hca _)
  | @link a b e hlink _ ih =>
    have hca : c ≠ a := by
      intro heq
      subst heq
      rw [hlink.isLink] at hc
      cases hc
    exact .link (hlink.set_of_ne hca _) ih

/-- **Merging two groups.**  If `c` was no link, then after it is linked to another end `r` the
walks that stopped at `c` stop at `r`, and all others where they did. -/
theorem Leads.set_root (hc : isLink routes[c] = false) (hr : isLink routes[r] = false)
    (hcr : c ≠ r) {e : UInt16} (h : Leads routes a e) :
    Leads (routes.set c (.link r)) a (if e = c then r else e) := by
  induction h with
  | @stop a hend =>
    by_cases hac : a = c
    · subst hac
      rw [if_pos rfl]
      exact leads_set_link hr hcr
    · rw [if_neg hac]
      exact .stop (not_isLink_set_of_ne hend (Ne.symm hac) _)
  | @link a b e hlink _ ih =>
    have hca : c ≠ a := by
      intro heq
      subst heq
      rw [hlink.isLink] at hc
      cases hc
    exact .link (hlink.set_of_ne hca _) ih

/-- **Shortening a walk.**  A link from an address straight to the end of its walk leaves the
ends of all walks where they are. -/
theorem Leads.set_shortcut (hc : Leads routes c r) (hcr : c ≠ r) {e : UInt16}
    (h : Leads routes a e) : Leads (routes.set c (.link r)) a e := by
  induction h with
  | @stop a hend =>
    have hca : c ≠ a := by
      intro heq
      subst heq
      exact hcr (hc.eq_of_not_isLink hend).symm
    exact .stop (not_isLink_set_of_ne hend hca _)
  | @link a b e hlink rest ih =>
    by_cases hca : c = a
    · subst hca
      rw [← hc.unique (.link hlink rest)]
      exact leads_set_link hc.not_isLink hcr
    · exact .link (hlink.set_of_ne hca _) ih

end AddressSpace

end NesMachine
