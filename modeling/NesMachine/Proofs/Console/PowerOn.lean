import NesMachine.Proofs.Cartridge.Layout
import NesMachine.Proofs.Console.Loading
import NesMachine.Proofs.Cpu.Frames
import NesMachine.Proofs.Device.VideoSpace

/-!
# A console that has just been switched on

`Loading` has the program window.  Here is the rest of what a new console shows: the addresses below
the window, the video addresses, and where a reset leads.

* `Console.peek_powerOn_of_low`: below the window everything is zero except for the copies of the
  status register, which tells vertical blanking;
* `Console.read_powerOn`: a read delivers what is stored, the controllers included;
* `Console.peekVideo_powerOn`: the pattern tables show the first character bank, and all other video
  addresses zero, through whichever layout of nametables;
* `Console.ofImage_shows`: all of it in the bytes of the image that the console was made from.
-/

namespace NesMachine

namespace SystemBus

variable {a : UInt16}

/-- The copies of the status register. -/
theorem fold_eq_statusAddress :
    fold a = statusAddress ↔ 0x2000 ≤ a.toNat ∧ a.toNat < 0x4000 ∧ a.toNat % 8 = 2 := by
  rw [← UInt16.toNat_inj, toNat_fold, show statusAddress.toNat = 0x2002 from rfl]
  grind [foldNumber]

theorem toNat_fold_lt (ha : a.toNat < 0x8000) : (fold a).toNat < 0x8000 := by
  rw [toNat_fold]
  grind [foldNumber]

end SystemBus

/-! ### The video side -/

namespace VideoSpace

theorem toNat_owner_wired (layout : NametableLayout) (a : UInt16) :
    ((wired layout).owner a).toNat = homeNumber layout a.toNat :=
  (ownedBy_wired layout).toNat_owner a

/-- The pattern tables are at home, and so is everything that repeats them. -/
theorem homeNumber_of_patterns (layout : NametableLayout) {n : Nat} (hn : n % 0x4000 < 0x2000) :
    homeNumber layout n = n % 0x4000 := if_pos hn

/-- No other address is at home among them. -/
theorem le_homeNumber (layout : NametableLayout) {n : Nat} (hn : 0x2000 ≤ n % 0x4000) :
    0x2000 ≤ homeNumber layout n := by
  have hscreen := screenNumber_range layout (n % 0x4000)
  have hpalette := paletteNumber_range (n % 0x4000)
  grind [homeNumber]

theorem ownsBlock_patterns (layout : NametableLayout) : (wired layout).OwnsBlock 0 0x2000 := by
  refine ⟨by decide, ?_⟩
  intro i hi
  have hnumber : (0 + UInt16.ofNat i : UInt16).toNat = i := by
    rw [AddressSpace.toNat_add_ofNat (by simp; omega)]
    exact Nat.zero_add i
  apply UInt16.toNat_inj.mp
  rw [toNat_owner_wired, hnumber, homeNumber_of_patterns layout (by omega)]
  omega

theorem peek_wired (layout : NametableLayout) (a : UInt16) : (wired layout).peek a = 0 := by
  rw [AddressSpace.peek, bytes_wired]
  exact Cells.getElem_fill 0 _

/-- A bank in the pattern tables is seen there and nowhere else. -/
theorem peek_store_patterns (layout : NametableLayout) (bank : Vector UInt8 0x2000) (a : UInt16) :
    ((wired layout).store 0 bank.toList).peek a =
      if h : a.toNat % 0x4000 < 0x2000 then bank[a.toNat % 0x4000] else 0 := by
  have hpatterns := ownsBlock_patterns layout
  by_cases h : a.toNat % 0x4000 < 0x2000
  · have hshared : (wired layout).owner a = 0 + UInt16.ofNat (a.toNat % 0x4000) := by
      apply UInt16.toNat_inj.mp
      rw [toNat_owner_wired, homeNumber_of_patterns layout h, hpatterns.toNat_add h]
      exact (Nat.zero_add _).symm
    rw [dif_pos h, ← hpatterns.peek_store bank h, AddressSpace.peek, AddressSpace.peek,
      (hpatterns.store 0 bank.toList).owner _ h, ← hshared]
    rw [AddressSpace.owner, AddressSpace.routes_store]
    rfl
  · have hbehind := le_homeNumber layout (Nat.le_of_not_lt h)
    rw [dif_neg h, hpatterns.peek_store_of_outside (.inr ?_), peek_wired]
    rw [toNat_owner_wired]
    exact (Nat.zero_add _).symm ▸ hbehind

end VideoSpace

namespace Console

variable {a : UInt16}

/-- The cartridge decides no byte below the program window. -/
theorem peek_insert_of_low (banks : Banks) {bus : SystemBus} (h : bus.Wired)
    (ha : a.toNat < 0x8000) : (insert banks bus).peek a = bus.peek a := by
  have hlower : bus.space.OwnsBlock lowerWindow 0x4000 := h.ownsBlock (by decide) (by decide)
  have hupper : bus.space.OwnsBlock upperWindow 0x4000 := h.ownsBlock (by decide) (by decide)
  have howner : (bus.space.owner a).toNat < 0x8000 := by
    rw [h.owner_eq_fold]
    exact SystemBus.toNat_fold_lt ha
  have hstored : (bus.space.store lowerWindow banks.window.1.toList).owner a = bus.space.owner a := by
    rw [AddressSpace.owner, AddressSpace.routes_store]
    rfl
  show ((bus.space.store lowerWindow banks.window.1.toList).store upperWindow
    banks.window.2.toList).peek a = _
  rw [(hupper.store _ _).peek_store_of_outside (.inl ?_),
    hlower.peek_store_of_outside (.inl howner)]
  · rfl
  · rw [hstored]
    exact Nat.lt_trans howner (by decide)

/-- Below the program window only the status register is not zero. -/
theorem peek_powerOn_of_low (settings : Settings) (cartridge : Cartridge) (ha : a.toNat < 0x8000) :
    (powerOn settings cartridge).bus.peek a =
      if 0x2000 ≤ a.toNat ∧ a.toNat < 0x4000 ∧ a.toNat % 8 = 2 then 0x80 else 0 := by
  have hwired := SystemBus.wired_powerOn (VideoSpace.wired cartridge.header.layout)
  rw [bus_powerOn, (wired_insert cartridge.banks hwired).peek_setVblank,
    peek_insert_of_low _ hwired ha, SystemBus.peek_powerOn]
  simp only [SystemBus.fold_eq_statusAddress]
  rfl

/-- No button is pressed, so that a read delivers the stored byte from every address. -/
theorem read_powerOn (settings : Settings) (cartridge : Cartridge) (a : UInt16) :
    ((powerOn settings cartridge).bus.read a).1 = (powerOn settings cartridge).bus.peek a := by
  have hwired := wired_powerOn settings cartridge
  have hpad (hpad : SystemBus.fold a = 0x4016 ∨ SystemBus.fold a = 0x4017) :
      (powerOn settings cartridge).bus.peek a = 0 := by
    rw [← hwired.peek_congr (SystemBus.fold_fold a)]
    rcases hpad with heq | heq
    · rw [heq, peek_powerOn_of_low _ _ (by decide)]
      rfl
    · rw [heq, peek_powerOn_of_low _ _ (by decide)]
      rfl
  rw [hwired.read_eq]
  cases hdevice : SystemBus.deviceAt (SystemBus.fold a) with
  | none => exact hwired.peek_congr (SystemBus.fold_fold a)
  | some kind =>
    cases kind with
    | joypad1 => exact (hpad (by grind [SystemBus.deviceAt])).symm
    | joypad2 => exact (hpad (by grind [SystemBus.deviceAt])).symm
    | oamData | scroll | videoAddress | videoData | oamDma =>
      exact hwired.peek_congr (SystemBus.fold_fold a)

/-- The first character bank goes to the pattern tables. -/
theorem video_insert_of_some {banks : Banks} {bank : Vector UInt8 0x2000}
    (h : banks.chr[0]? = some bank) (bus : SystemBus) :
    (insert banks bus).video = bus.video.store 0x0000 bank.toList := by
  simp only [insert, h]

theorem video_insert_of_none {banks : Banks} (h : banks.chr[0]? = none) (bus : SystemBus) :
    (insert banks bus).video = bus.video := by
  simp only [insert, h]

/-- The video side shows the first character bank, if there is one, and zero elsewhere. -/
theorem peekVideo_powerOn (settings : Settings) (cartridge : Cartridge) (a : UInt16) :
    (powerOn settings cartridge).bus.peekVideo a =
      if h : a.toNat % 0x4000 < 0x2000 ∧ 0 < cartridge.banks.chr.size then
        cartridge.banks.chr[0][a.toNat % 0x4000]
      else 0 := by
  show (insert cartridge.banks
    (SystemBus.powerOn (VideoSpace.wired cartridge.header.layout))).video.peek a = _
  by_cases hchr : 0 < cartridge.banks.chr.size
  · rw [video_insert_of_some (Array.getElem?_eq_getElem hchr)]
    show ((VideoSpace.wired cartridge.header.layout).store 0 _).peek a = _
    simp only [VideoSpace.peek_store_patterns, hchr, and_true]
  · rw [video_insert_of_none (Array.getElem?_eq_none (by omega)), dif_neg fun h => hchr h.2]
    exact VideoSpace.peek_wired _ a

/-- A reset goes on where the word at the end of the upper bank tells. -/
theorem reset_powerOn (settings : Settings) (cartridge : Cartridge) :
    ∃ after, reset (powerOn settings cartridge) = .ok () after ∧
      after.cpu.regs.pc =
        wordOf cartridge.banks.window.2[0x3FFC] cartridge.banks.window.2[0x3FFD] := by
  have hwired := wired_powerOn settings cartridge
  have hlow := (peek_powerOn settings cartridge (i := 0x3FFC) (by decide)).2
  have hhigh := (peek_powerOn settings cartridge (i := 0x3FFD) (by decide)).2
  have hread₁ := hwired.bus_read (SystemBus.isStorage_program (a := resetVector) (by decide))
  have hread₂ := hwired.bus_read (SystemBus.isStorage_program (a := resetVector + 1) (by decide))
  have hreset : Board.reset (powerOn settings cartridge).board =
      .ok () ⟨⟨{ Registers.powerOn with
          s := 0xFD
          p := .ofByte (Registers.powerOn.p.byte ||| Flag.interruptDisable)
          pc := wordOf ((powerOn settings cartridge).bus.peek resetVector)
            ((powerOn settings cartridge).bus.peek (resetVector + 1)) }, interruptCycles⟩,
        (powerOn settings cartridge).bus⟩ :=
    Board.reset_eq_ok.mpr ⟨_, _, _, hread₁, hread₂, rfl⟩
  refine ⟨_, onBoard_eq_ok.mpr ⟨_, hreset, rfl⟩, ?_⟩
  rw [← hlow, ← hhigh]
  rfl

theorem ofImage_eq_ok {settings : Settings} {image : Image} {console : Console} :
    ofImage settings image = .ok console ↔
      ∃ cartridge, Cartridge.ofImage image = .ok cartridge ∧
        console = powerOn settings cartridge := by
  rw [ofImage]
  cases Cartridge.ofImage image with
  | ok cartridge => simp [eq_comm]
  | error e => simp

/-- **A console made from an image** shows the program banks of the image in the program window and
its first character bank in the pattern tables.  All other addresses show zero, except that the
status register tells vertical blanking, and a read from any of them delivers what it shows.  A reset
goes on where the reset vector of the upper bank points. -/
theorem ofImage_shows {settings : Settings} {image : Image} {console : Console}
    (h : ofImage settings image = .ok console) :
    (∀ i < 0x4000,
      image[image.prgOffset 0 + i]? = some (console.bus.peek (0x8000 + UInt16.ofNat i)) ∧
      image[image.prgOffset (if image.prgCount = 1 then 0 else 1) + i]?
        = some (console.bus.peek (0xC000 + UInt16.ofNat i))) ∧
    (∀ a : UInt16, a.toNat < 0x8000 → console.bus.peek a =
      if 0x2000 ≤ a.toNat ∧ a.toNat < 0x4000 ∧ a.toNat % 8 = 2 then 0x80 else 0) ∧
    (∀ a : UInt16, ∃ bus, Bus.read a console.bus = .ok (console.bus.peek a) bus) ∧
    (∀ a : UInt16, some (console.bus.peekVideo a) =
      if a.toNat % 0x4000 < 0x2000 ∧ 0 < image.chrCount then
        image[image.chrOffset 0 + a.toNat % 0x4000]?
      else some 0) ∧
    ∃ low high after,
      image[image.prgOffset (if image.prgCount = 1 then 0 else 1) + 0x3FFC]? = some low ∧
      image[image.prgOffset (if image.prgCount = 1 then 0 else 1) + 0x3FFD]? = some high ∧
      reset console = .ok () after ∧
      after.cpu.regs.pc.toNat = 256 * high.toNat + low.toNat := by
  obtain ⟨cartridge, hcartridge, rfl⟩ := ofImage_eq_ok.mp h
  have hlaid := Cartridge.laidOut_of_ofImage hcartridge
  refine ⟨?_, ?_, ?_, ?_, ?_⟩
  · intro i hi
    obtain ⟨hlower, hupper⟩ := peek_powerOn settings cartridge hi
    refine ⟨?_, ?_⟩
    · rw [hlaid.lower_byte hi, ← hlower]
      rfl
    · rw [hlaid.upper_byte hi, ← hupper]
      rfl
  · intro a ha
    exact peek_powerOn_of_low settings cartridge ha
  · intro a
    rw [← read_powerOn settings cartridge a]
    exact ⟨_, rfl⟩
  · intro a
    rw [← hlaid.chr_size, peekVideo_powerOn]
    split
    · rename_i hpatterns
      exact (hlaid.chr 0 _ hpatterns.2 hpatterns.1).symm
    · rfl
  · obtain ⟨after, hreset, hpc⟩ := reset_powerOn settings cartridge
    refine ⟨_, _, after, hlaid.upper_byte (by decide), hlaid.upper_byte (by decide), hreset, ?_⟩
    rw [hpc, toNat_wordOf]

/-- A reset takes the vector from the second of two banks, and the repetition of the pattern tables
shows the only character bank. -/
theorem trained_image_starts :
    ∃ console after, ofImage Settings.default Image.trained = .ok console ∧
      reset console = .ok () after ∧ after.cpu.regs.pc.toNat = 0x0D0C ∧
      console.bus.peekVideo 0x4005 = 0x15 := by
  obtain ⟨hprg, hchr, htrainer, -⟩ := Image.announced_by_trained
  have hcartridge : Cartridge.ofImage Image.trained = .ok (Image.trained.announced (by omega)) :=
    Cartridge.ofImage_eq_ok.mpr ⟨Image.defect?_trained, by omega, rfl⟩
  have hconsole : ofImage Settings.default Image.trained = .ok _ :=
    ofImage_eq_ok.mpr ⟨_, hcartridge, rfl⟩
  obtain ⟨-, -, -, hvideo, low, high, after, hlow, hhigh, hreset, hpc⟩ :=
    ofImage_shows hconsole
  have hupper : Image.trained.prgOffset 1 = 16912 := by rw [Image.prgOffset, htrainer]
  have hpatterns : Image.trained.chrOffset 0 = 33296 := by
    rw [Image.chrOffset, hprg, Image.prgOffset, htrainer]
  rw [hprg, if_neg (by decide), hupper, Image.getElem?_trained (by decide) (by decide)] at hlow hhigh
  cases hlow
  cases hhigh
  rw [UInt8.toNat_ofNat', UInt8.toNat_ofNat'] at hpc
  refine ⟨_, after, hconsole, hreset, hpc, ?_⟩
  have hbyte := hvideo 0x4005
  rw [hchr, if_pos (by decide), hpatterns, Image.getElem?_trained (by decide) (by decide)] at hbyte
  exact Option.some.inj hbyte

end Console

end NesMachine
