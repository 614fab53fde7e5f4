import NesMachine.Device.VideoSpace
import NesMachine.Proofs.AddressSpace.Owners

/-!
# Which byte a video address shows

`wired layout` is made by five pieces of wiring, each of which resolves its targets through those
before it.  Here the outcome is a formula that knows nothing of links: `home layout a` is the
address that keeps the byte behind `a`.

* `ownedBy_screens`, `ownedBy_palette`, `ownedBy_wired`: the owners after each stage of the wiring,
  the last of which are the homes;
* `read_after_writes`: whatever was written through whichever aliases, a read delivers the last
  byte that was written to an address with the same home.
-/

namespace NesMachine

/-- The nametable whose memory a nametable shows. -/
def NametableLayout.shown : NametableLayout → Nat → Nat
  | .horizontal, 1 => 0
  | .horizontal, 3 => 2
  | .vertical, 2 => 0
  | .vertical, 3 => 1
  | _, table => table

theorem NametableLayout.shown_eq (layout : NametableLayout) (table : Nat) (h : table < 4) :
    layout.shown table =
      match layout with
      | .horizontal => table / 2 * 2
      | .vertical => table % 2
      | .fourScreen => table := by
  revert table
  cases layout <;> decide

theorem NametableLayout.shown_lt (layout : NametableLayout) (table : Nat) (h : table < 4) :
    layout.shown table < 4 := by
  revert table
  cases layout <;> decide

namespace VideoSpace

open AddressSpace

/-! ### Homes -/

/-- Where the nametables and their repetition keep their bytes, by the number of the address. -/
def screenNumber (layout : NametableLayout) (n : Nat) : Nat :=
  let offset := (n - 0x2000) % 0x1000
  0x2000 + 0x400 * layout.shown (offset / 0x400) + offset % 0x400

/-- Where the palette keeps its bytes: an entry from the sixteenth on whose number is a multiple of
four is the one sixteen below. -/
def paletteNumber (n : Nat) : Nat :=
  let entry := n % 32
  0x3F00 + if 16 ≤ entry ∧ entry % 16 % 4 = 0 then entry - 16 else entry

/-- The number of the address that keeps the byte behind the address with the number `n`. -/
def homeNumber (layout : NametableLayout) (n : Nat) : Nat :=
  let b := n % 0x4000
  if b < 0x2000 then b else if 0x3F00 ≤ b then paletteNumber b else screenNumber layout b

theorem homeNumber_mod (layout : NametableLayout) (n : Nat) :
    homeNumber layout (n % 0x4000) = homeNumber layout n := by
  rw [homeNumber, homeNumber, Nat.mod_mod]

/-- The address that keeps the byte behind an address. -/
def home (layout : NametableLayout) (a : UInt16) : UInt16 :=
  UInt16.ofNat (homeNumber layout a.toNat)

theorem screenNumber_range (layout : NametableLayout) (n : Nat) :
    0x2000 ≤ screenNumber layout n ∧ screenNumber layout n < 0x3000 := by
  have hshown := layout.shown_lt ((n - 0x2000) % 0x1000 / 0x400) (by omega)
  unfold screenNumber
  dsimp only
  omega

theorem paletteNumber_range (n : Nat) : 0x3F00 ≤ paletteNumber n ∧ paletteNumber n < 0x3F20 := by
  grind [paletteNumber]

/-! ### The pieces of wiring -/

/-- Each layout lets the nametables show each other as the cartridge asks for. -/
theorem ownedBy_nametables (layout : NametableLayout) :
    OwnedBy (AddressSpace.empty.linkAll (nametablePairs layout) : VideoSpace)
      fun n => if 0x2000 ≤ n ∧ n < 0x3000 then screenNumber layout n else n := by
  have hempty : OwnedBy (AddressSpace.empty : VideoSpace) id := .empty
  have hshown (n : Nat) := layout.shown_eq ((n - 0x2000) % 0x1000 / 0x400) (by omega)
  cases layout with
  | horizontal =>
    have hsecond := hempty.linkBlock 0x2400 0x2000 0x400 (by decide) (by decide)
      (fun n _ _ => rfl) (by grind [shifted])
    have hfourth := hsecond.linkBlock 0x2C00 0x2800 0x400 (by decide) (by decide)
      (by grind [shifted]) (by grind [shifted])
    rw [← linkAll_append] at hfourth
    exact hfourth.congr (by grind [shifted, screenNumber])
  | vertical =>
    have hthird := hempty.linkBlock 0x2800 0x2000 0x400 (by decide) (by decide)
      (fun n _ _ => rfl) (by grind [shifted])
    have hfourth := hthird.linkBlock 0x2C00 0x2400 0x400 (by decide) (by decide)
      (by grind [shifted]) (by grind [shifted])
    rw [← linkAll_append] at hfourth
    exact hfourth.congr (by grind [shifted, screenNumber])
  | fourScreen => exact hempty.congr (by grind [screenNumber])

/-- The block from `$3000` on shows the nametables as they are shared by then. -/
theorem ownedBy_screens (layout : NametableLayout) :
    OwnedBy (AddressSpace.empty.linkAll
        (nametablePairs layout ++ blockPairs 0x3000 0x2000 0x0F00) : VideoSpace)
      fun n => if 0x2000 ≤ n ∧ n < 0x3F00 then screenNumber layout n else n := by
  have hrange := screenNumber_range layout
  have hblock := (ownedBy_nametables layout).linkBlock 0x3000 0x2000 0x0F00 (by decide) (by decide)
    (by grind) (by grind [shifted])
  rw [linkAll_append]
  refine hblock.congr ?_
  grind [shifted, screenNumber]

/-- The redirection of four palette entries to those sixteen below. -/
def backdropNumber (n : Nat) : Nat :=
  if 0x3F10 ≤ n ∧ n < 0x3F20 ∧ n % 4 = 0 then n - 16 else n

theorem redirects_backdropPairs : Redirects backdropPairs backdropNumber := by
  refine ⟨by decide, ?_, ?_⟩
  · simp only [backdropPairs, List.forall_mem_cons]
    exact ⟨rfl, rfl, rfl, rfl, List.forall_mem_nil _⟩
  · intro x hx
    rw [backdropNumber, if_neg]
    rintro ⟨hlow, hhigh, hfourth⟩
    simp only [backdropPairs, List.mem_cons, List.not_mem_nil, or_false, forall_eq_or_imp,
      forall_eq, ne_eq, ← UInt16.toNat_inj] at hx
    simp at hx
    omega

/-- Then the palette is repeated, with these entries redirected. -/
theorem ownedBy_palette (layout : NametableLayout) :
    OwnedBy (AddressSpace.empty.linkAll (nametablePairs layout ++ blockPairs 0x3000 0x2000 0x0F00
        ++ backdropPairs ++ repeatedPairs 0x3F00 0x20 0x3FFF) : VideoSpace)
      fun n => if n < 0x4000 then homeNumber layout n else n := by
  have hrange := screenNumber_range layout
  have hlinked : ∀ p ∈ backdropPairs,
      0x3F10 ≤ p.1.toNat ∧ p.1.toNat < 0x3F20 ∧ p.1.toNat % 4 = 0 := by
    simp only [backdropPairs, List.forall_mem_cons]
    exact ⟨by decide, by decide, by decide, by decide, List.forall_mem_nil _⟩
  have hbackdrops := (ownedBy_screens layout).linkAll redirects_backdropPairs (by grind)
    (by grind [backdropNumber])
  have hcopies := hbackdrops.linkRepeating 0x3F00 0x20 0x3FFF (by decide)
    (by grind [backdropNumber]) (by grind [backdropNumber, wrapped])
  rw [linkAll_append, linkAll_append]
  refine hcopies.congr ?_
  grind [backdropNumber, wrapped, homeNumber, paletteNumber]

/-- **The owners of a wired video space** are the homes. -/
theorem ownedBy_wired (layout : NametableLayout) : OwnedBy (wired layout) (homeNumber layout) := by
  have hscreen := screenNumber_range layout
  have hpalette := paletteNumber_range
  have hfolded := (ownedBy_palette layout).linkRepeating 0x0000 0x4000 0xFFFF (by decide)
    (by grind) (by grind [wrapped, homeNumber])
  rw [wired, pairs, linkAll_append]
  refine hfolded.congr ?_
  intro n hn
  have hfold : wrapped 0x0000 0x4000 0xFFFF n = n % 0x4000 := by
    unfold wrapped
    split <;> omega
  have hbelow : n % 0x4000 < 0x4000 := Nat.mod_lt n (by decide)
  calc (if wrapped 0x0000 0x4000 0xFFFF n < 0x4000
          then homeNumber layout (wrapped 0x0000 0x4000 0xFFFF n) else wrapped 0x0000 0x4000 0xFFFF n)
      = homeNumber layout (n % 0x4000) := by rw [hfold, if_pos hbelow]
    _ = homeNumber layout n := homeNumber_mod layout n

theorem owner_wired (layout : NametableLayout) (a : UInt16) :
    (wired layout).owner a = home layout a := by
  apply UInt16.toNat_inj.mp
  have howner := (ownedBy_wired layout).toNat_owner a
  have hlt := ((wired layout).owner a).toNat_lt
  rw [home, UInt16.toNat_ofNat', ← howner, Nat.mod_eq_of_lt hlt]

/-! ### Any history of writes -/

/-- Writes through the bus of a video space never fail. -/
theorem forM_write (writes : List (UInt16 × UInt8)) (space : VideoSpace) :
    (writes.forM fun write => Bus.write write.1 write.2 : Attempt BusError VideoSpace PUnit) space
      = .ok ⟨⟩ (space.pokeAll writes) := by
  induction writes generalizing space with
  | nil => rfl
  | cons write writes ih =>
    exact Attempt.bind_eq_ok.mpr ⟨⟨⟩, space.poke write.1 write.2, rfl, ih _⟩

/-- **What a video address shows.**  In each layout, after any writes to a video space that has just
been wired, a read delivers the last byte that was written to an address with the same home, and
zero if there is none; it leaves the space as it is. -/
theorem read_after_writes (layout : NametableLayout) (writes : List (UInt16 × UInt8))
    (a : UInt16) :
    ∃ space : VideoSpace,
      (writes.forM fun write => Bus.write write.1 write.2 : Attempt BusError VideoSpace PUnit)
        (wired layout) = .ok ⟨⟩ space ∧
      Bus.read a space =
        .ok ((lastWritten (fun b => home layout b == home layout a) writes).getD 0) space := by
  refine ⟨_, forM_write writes (wired layout), ?_⟩
  have hzero : (wired layout).peek a = 0 := by
    rw [AddressSpace.peek, bytes_wired]
    exact Cells.getElem_fill 0 _
  show EStateM.Result.ok (((wired layout).pokeAll writes).peek a) _ = _
  rw [peek_pokeAll, hzero]
  simp only [owner_wired]

end VideoSpace

end NesMachine
