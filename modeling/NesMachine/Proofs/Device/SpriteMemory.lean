import NesMachine.Proofs.Device.Ports

/-!
# Writing sprite memory through its ports

Sprite memory has 256 places.  A write to `$2004` fills the place that the register `$2003` tells
and moves that register on; a write to `$4014` fills all of them from a page of the processor's
address space.

* `Wired.oam_write_data`, `Wired.oam_write_of_not_mem`: what a write does to sprite memory;
* `Wired.filled_runAll`: bytes written to `$2004` go to one place after the other, and from the last
  place on to the first;
* `Wired.pageCopied`: a transfer stores the number of a page, copies the page and does nothing else;
* `sprite_ports_fill`: both, for every history and every page.
-/

namespace NesMachine

namespace SystemBus

open AddressSpace

variable {bus after : SystemBus} {a : UInt16} {value : UInt8}

/-- The registers of sprite memory. -/
def spriteRegisters : List UInt16 := [0x2003, 0x2004, 0x4014]

theorem oam_drive (bus : SystemBus) (value : UInt8) (kind : Device) :
    (bus.drive value kind).oam =
      match kind with
      | .oamData => bus.oam.set (bus.peek oamIndexAddress).toNat value (UInt8.toNat_lt _)
      | .oamDma => Vector.ofFn fun i : Fin 256 => bus.peek (wordOf (UInt8.ofNat i) value)
      | _ => bus.oam := by
  obtain ⟨space, video, oam, latch, pad1, pad2⟩ := bus
  cases kind <;> rfl

/-- A write of sprite data fills the place at the index. -/
theorem Wired.oam_write_data (h : bus.Wired) (ha : fold a = oamDataAddress) (value : UInt8)
    {k : Nat} (hk : k < 256) :
    (bus.write a value).oam[k] =
      if (bus.peek oamIndexAddress).toNat = k then value else bus.oam[k] := by
  have hindex : (bus.poke oamDataAddress value).peek oamIndexAddress =
      bus.peek oamIndexAddress := by
    rw [h.peek_poke, if_neg (by decide)]
  have hwrite : (bus.write a value).oam =
      ((bus.poke oamDataAddress value).drive value .oamData).oam := by
    rw [h.write_eq, ha]
    rfl
  simp only [hwrite, oam_drive, Vector.getElem_set, hindex]
  rfl

/-- No write but those to the registers of sprite memory changes it. -/
theorem Wired.oam_write_of_not_mem (h : bus.Wired) (ha : fold a ∉ spriteRegisters) (value : UInt8) :
    (bus.write a value).oam = bus.oam := by
  rw [h.write_eq]
  cases hdevice : deviceAt (fold a) with
  | none => rfl
  | some kind =>
    rw [deviceAt_eq_some.mp hdevice] at ha
    show ((bus.poke (fold a) value).drive value kind).oam = bus.oam
    rw [oam_drive]
    cases kind with
    | oamData | oamDma => exact absurd (by decide) ha
    | scroll | videoAddress | videoData | joypad1 | joypad2 => rfl

theorem Wired.peek_index_write_of_not_mem (h : bus.Wired) (ha : fold a ∉ spriteRegisters)
    (value : UInt8) : (bus.write a value).peek oamIndexAddress = bus.peek oamIndexAddress := by
  have hindex : fold a ≠ fold oamIndexAddress := by
    intro heq
    rw [heq] at ha
    exact ha (by decide)
  have hdata : fold a ≠ oamDataAddress := by
    intro heq
    rw [heq] at ha
    exact ha (by decide)
  rw [h.peek_write, if_neg hindex, if_neg fun hboth => hdata hboth.1]

/-! ### Bytes one after the other -/

/-- Bytes have gone to one place after the other, from the index on, and after the last place to the
first. -/
structure Filled (bus after : SystemBus) (bytes : List UInt8) : Prop where
  /-- The index has moved on by their number. -/
  index : (after.peek oamIndexAddress).toNat =
    ((bus.peek oamIndexAddress).toNat + bytes.length) % 256
  /-- Each place holds the last byte that went there, or else what it held before. -/
  oam : ∀ k (hk : k < 256), after.oam[k] =
    (lastWritten (fun b => b.toNat % 256 == k)
      (streamed (bus.peek oamIndexAddress).toNat 1 bytes)).getD bus.oam[k]

theorem Filled.nil (bus : SystemBus) : Filled bus bus [] := by
  refine ⟨?_, fun k hk => rfl⟩
  rw [List.length_nil, Nat.add_zero, Nat.mod_eq_of_lt (UInt8.toNat_lt _)]

/-- What neither the index nor sprite memory notices. -/
theorem Filled.congr {after' : SystemBus} {bytes : List UInt8} (h : Filled bus after bytes)
    (hindex : after'.peek oamIndexAddress = after.peek oamIndexAddress)
    (hoam : after'.oam = after.oam) : Filled bus after' bytes := by
  refine ⟨?_, ?_⟩
  · rw [hindex]
    exact h.index
  · intro k hk
    rw [← h.oam k hk]
    simp only [hoam]

/-- One byte more. -/
theorem Filled.write {bytes : List UInt8} (h : Filled bus after bytes) (hwired : after.Wired)
    (ha : fold a = oamDataAddress) (value : UInt8) :
    Filled bus (after.write a value) (bytes ++ [value]) := by
  refine ⟨?_, ?_⟩
  · have hnext : (after.write a value).peek oamIndexAddress = after.peek oamIndexAddress + 1 := by
      rw [hwired.peek_write, ha, if_neg (by decide), if_pos (by decide)]
    rw [hnext, UInt8.toNat_add, h.index, List.length_append]
    simp only [List.length_singleton, show (1 : UInt8).toNat = 1 from rfl]
    omega
  · intro k hk
    have hplace : ((UInt16.ofNat ((bus.peek oamIndexAddress).toNat + bytes.length * 1)).toNat % 256
        == k) = decide ((after.peek oamIndexAddress).toNat = k) := by
      rw [UInt16.toNat_ofNat', Nat.mod_mod_of_dvd _ (by decide), h.index, Nat.mul_one]
      rfl
    rw [hwired.oam_write_data ha, streamed_concat, lastWritten_concat, hplace, h.oam k hk]
    by_cases hat : (after.peek oamIndexAddress).toNat = k <;> simp [hat]

/-- **Bytes of sprite data**, with any other events in between. -/
theorem Wired.filled_runAll (h : bus.Wired) {bytes : List UInt8} {events : List Event}
    (hwrites : writesTo spriteRegisters events = bytes.map fun byte => (oamDataAddress, byte)) :
    Filled bus (bus.runAll events) bytes := by
  -- by induction on the writes so far, as far as they are writes of sprite data
  refine h.runAll_induction spriteRegisters
    (P := fun writes after => ∀ bytes : List UInt8,
      writes = bytes.map (fun byte => (oamDataAddress, byte)) → Filled bus after bytes)
    events ?_ ?_ ?_ ?_ bytes hwrites
  · intro bytes hnone
    rw [List.map_eq_nil_iff.mp hnone.symm]
    exact .nil bus
  · intro after writes event hwired hfilled hwritten bytes hbytes
    exact (hfilled bytes hbytes).congr (hwired.peek_run_of_unwritten hwritten (by decide))
      (run_of_unwritten hwritten after).2.2
  · intro after writes a value hwired hfilled ha bytes hbytes
    exact (hfilled bytes hbytes).congr (hwired.peek_index_write_of_not_mem ha value)
      (hwired.oam_write_of_not_mem ha value)
  · intro after writes a value hwired hfilled _ bytes hbytes
    obtain ⟨first, last, rfl, hfirst, hlast⟩ := List.map_eq_append_iff.mp hbytes.symm
    obtain ⟨byte, rfl, hwrite⟩ := List.map_eq_singleton_iff.mp hlast
    obtain ⟨ha, rfl⟩ := Prod.mk.inj hwrite
    exact (hfilled first hfirst.symm).write hwired ha.symm byte

/-! ### A page at once -/

/-- The address of the transfer register. -/
def pageTransferAddress : UInt16 := 0x4014

theorem Wired.write_pageTransfer (h : bus.Wired) (page : UInt8) :
    bus.write pageTransferAddress page = (bus.poke pageTransferAddress page).copyPage page := by
  rw [h.write_eq]
  rfl

theorem oam_copyPage (bus : SystemBus) (page : UInt8) {i : Nat} (hi : i < 256) :
    (bus.copyPage page).oam[i] = bus.peek (UInt16.ofNat (256 * page.toNat + i)) := by
  have hplace : wordOf (UInt8.ofNat i) page = UInt16.ofNat (256 * page.toNat + i) := by
    rw [wordOf_eq_ofNat, UInt8.toNat_ofNat', Nat.mod_eq_of_lt hi]
  obtain ⟨space, video, oam, latch, pad1, pad2⟩ := bus
  rw [← hplace]
  exact Vector.getElem_ofFn hi

/-- A page has been copied to sprite memory, and nothing else has been done. -/
structure PageCopied (bus after : SystemBus) (page : UInt8) : Prop where
  /-- The page as it is once the register holds its number. -/
  oam : ∀ i (hi : i < 256), after.oam[i] = after.peek (UInt16.ofNat (256 * page.toNat + i))
  /-- Of the stored bytes only that of the register is new. -/
  peek : ∀ b, after.peek b = if b = 0x4014 then page else bus.peek b
  wiring : after.space.routes = bus.space.routes
  latch : after.latch = bus.latch
  video : after.video = bus.video
  pad1 : after.pad1 = bus.pad1
  pad2 : after.pad2 = bus.pad2

/-- **A transfer** copies the page as it is once the register holds the page's number. -/
theorem Wired.pageCopied (h : bus.Wired) (page : UInt8) :
    PageCopied bus (bus.write 0x4014 page) page := by
  have hwrite : bus.write 0x4014 page = (bus.poke pageTransferAddress page).copyPage page :=
    h.write_pageTransfer page
  rw [hwrite]
  have hpeek (b : UInt16) : ((bus.poke pageTransferAddress page).copyPage page).peek b =
      (bus.poke pageTransferAddress page).peek b := by
    rw [SystemBus.peek, space_copyPage, SystemBus.peek]
  refine ⟨?_, ?_, ?_, rfl, rfl, rfl, rfl⟩
  · intro i hi
    rw [oam_copyPage _ _ hi, hpeek]
  · intro b
    have hb : fold pageTransferAddress = fold b ↔ b = 0x4014 := by
      rw [eq_comm, show fold pageTransferAddress = pageTransferAddress by decide]
      exact fold_eq_iff (by decide)
    rw [hpeek, h.peek_poke]
    simp only [hb]
  · rw [space_copyPage]
    rfl

/-- **Sprite memory through its ports.**  Let the writes of a history to the registers of sprite
memory be some bytes to `$2004`, through whichever copies, with any other events in between.  Then
the index in `$2003` has moved on by their number, and each place holds the last byte that went to
it, where byte `i` goes to the place `s + i` modulo 256 for an index `s` at first.

A write to `$4014` always succeeds.  It fills sprite memory with the page of that number, as it is
once `$4014` has stored the number, and changes neither another stored byte nor another device,
whatever devices have their registers in that page. -/
theorem sprite_ports_fill (bus : SystemBus) (h : bus.Wired) :
    (∀ (bytes : List UInt8) (events : List Event),
      writesTo [0x2003, 0x2004, 0x4014] events = bytes.map (fun byte => (0x2004, byte)) →
      Filled bus (bus.runAll events) bytes) ∧
    ∀ page, ∃ after, Bus.write 0x4014 page bus = .ok () after ∧ PageCopied bus after page := by
  refine ⟨?_, ?_⟩
  · intro bytes events hwrites
    exact h.filled_runAll hwrites
  · intro page
    exact ⟨bus.write 0x4014 page, rfl, h.pageCopied page⟩

/-- Three bytes from place `$FE` on, through copies of the port and with reads and other writes in
between; and a transfer of the page around the ports, which finds its own number there and leaves
the controllers alone. -/
theorem sprites_filled_around :
    let bus := (powerOn (VideoSpace.wired .vertical)).poke 0x2003 0xFE
    ∃ after copied : SystemBus,
      after = bus.runAll [.write 0x2004 0x11, .read 0x4016, .write 0x3FFC 0x22, .write 0x2006 0x21,
        .write 0x200C 0x33] ∧
      (after.peek 0x2003).toNat = 0x01 ∧ after.oam[0xFE] = 0x11 ∧ after.oam[0x00] = 0x33 ∧
      after.oam[0x01] = 0x00 ∧
      Bus.write 0x4014 0x40 bus = .ok () copied ∧ copied.oam[0x14] = 0x40 ∧
      copied.pad1 = bus.pad1 := by
  intro bus
  have hstart := wired_powerOn (VideoSpace.wired .vertical)
  have hwired : bus.Wired := hstart.poke 0x2003 0xFE
  have hindex : bus.peek oamIndexAddress = 0xFE := by
    rw [hstart.peek_poke, if_pos (by decide)]
  have hzero (video : VideoSpace) : ((powerOn video).poke 0x2003 0xFE).oam[0x01] = 0x00 :=
    Vector.getElem_replicate (by decide)
  obtain ⟨hfills, hcopies⟩ := sprite_ports_fill bus hwired
  have hfilled := hfills [0x11, 0x22, 0x33] [.write 0x2004 0x11, .read 0x4016, .write 0x3FFC 0x22,
    .write 0x2006 0x21, .write 0x200C 0x33] (by decide)
  have hplaces := hfilled.oam
  have hnext := hfilled.index
  simp only [hindex] at hplaces hnext
  obtain ⟨copied, hwrite, hcopied⟩ := hcopies 0x40
  have hnumber : copied.peek 0x4014 = 0x40 := (hcopied.peek 0x4014).trans (if_pos rfl)
  refine ⟨_, copied, rfl, hnext.trans (by decide), (hplaces 0xFE (by decide)).trans (by decide),
    (hplaces 0x00 (by decide)).trans (by decide), (hplaces 0x01 (by decide)).trans (hzero _),
    hwrite, (hcopied.oam 0x14 (by decide)).trans hnumber, hcopied.pad1⟩

end SystemBus

end NesMachine
