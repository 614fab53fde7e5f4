import NesMachine.Proofs.AddressSpace.Stores
import NesMachine.Proofs.Console.Steps

/-!
# The program window

Where a console has just been switched on, the processor sees the program banks.

* `SystemBus.Wired.ownsBlock`: no two bytes of the program window collide;
* `Console.peek_powerOn`: the two halves of the program window.
-/

namespace NesMachine

/-- The addresses of the program window own their bytes. -/
theorem SystemBus.Wired.ownsBlock {bus : SystemBus} (h : bus.Wired) {a : UInt16} {size : Nat}
    (ha : 0x8000 ≤ a.toNat) (hsize : a.toNat + size ≤ 0x10000) : bus.space.OwnsBlock a size := by
  refine ⟨hsize, ?_⟩
  intro i hi
  refine h.owner_of_storage (SystemBus.isStorage_program ?_)
  rw [AddressSpace.toNat_add_ofNat (by omega)]
  omega

namespace Console

theorem toNat_lowerWindow_add {i : Nat} (hi : i < 0x4000) :
    (lowerWindow + UInt16.ofNat i).toNat = 0x8000 + i :=
  AddressSpace.toNat_add_ofNat (Nat.lt_trans (Nat.add_lt_add_left hi _) (by decide))

theorem toNat_upperWindow_add {i : Nat} (hi : i < 0x4000) :
    (upperWindow + UInt16.ofNat i).toNat = 0xC000 + i :=
  AddressSpace.toNat_add_ofNat (Nat.add_lt_add_left hi _)

/-- The two banks lie side by side. -/
theorem peek_insert (banks : Banks) {bus : SystemBus} (h : bus.Wired) {i : Nat} (hi : i < 0x4000) :
    (insert banks bus).peek (lowerWindow + UInt16.ofNat i) = banks.window.1[i] ∧
      (insert banks bus).peek (upperWindow + UInt16.ofNat i) = banks.window.2[i] := by
  have hlower : bus.space.OwnsBlock lowerWindow 0x4000 := h.ownsBlock (by decide) (by decide)
  have hupper : bus.space.OwnsBlock upperWindow 0x4000 := h.ownsBlock (by decide) (by decide)
  have hstored := hupper.store lowerWindow banks.window.1.toList
  refine ⟨?_, ?_⟩
  · show ((bus.space.store lowerWindow banks.window.1.toList).store upperWindow
      banks.window.2.toList).peek (lowerWindow + UInt16.ofNat i) = _
    have hbelow : (lowerWindow + UInt16.ofNat i).toNat < upperWindow.toNat := by
      rw [toNat_lowerWindow_add hi]
      exact Nat.add_lt_add_left hi _
    rw [hstored.peek_store_of_outside (.inl ?_), hlower.peek_store _ hi]
    rw [(hlower.store _ _).owner i hi]
    exact hbelow
  · show ((bus.space.store lowerWindow banks.window.1.toList).store upperWindow
      banks.window.2.toList).peek (upperWindow + UInt16.ofNat i) = _
    exact hstored.peek_store _ hi

theorem bus_powerOn (settings : Settings) (cartridge : Cartridge) :
    (powerOn settings cartridge).bus =
      (insert cartridge.banks
        (SystemBus.powerOn (VideoSpace.wired cartridge.header.layout))).setVblank true := rfl

/-- The two banks of the window are what the processor sees from `$8000` on. -/
theorem peek_powerOn (settings : Settings) (cartridge : Cartridge) {i : Nat} (hi : i < 0x4000) :
    (powerOn settings cartridge).bus.peek (lowerWindow + UInt16.ofNat i)
        = cartridge.banks.window.1[i] ∧
      (powerOn settings cartridge).bus.peek (upperWindow + UInt16.ofNat i)
        = cartridge.banks.window.2[i] := by
  have hwired := SystemBus.wired_powerOn (VideoSpace.wired cartridge.header.layout)
  have hstatus {a : UInt16} (ha : 0x8000 ≤ a.toNat) :
      (powerOn settings cartridge).bus.peek a =
        (insert cartridge.banks
          (SystemBus.powerOn (VideoSpace.wired cartridge.header.layout))).peek a := by
    have hinserted := wired_insert cartridge.banks hwired
    rw [bus_powerOn]
    refine SystemBus.peek_setVblank_of_ne ?_ true
    rw [hinserted.owner_of_storage (a := SystemBus.statusAddress) (by decide),
      hinserted.owner_of_storage (SystemBus.isStorage_program ha)]
    intro heq
    subst heq
    exact absurd ha (by decide)
  obtain ⟨hlower, hupper⟩ := peek_insert cartridge.banks hwired hi
  refine ⟨?_, ?_⟩
  · rw [hstatus (by rw [toNat_lowerWindow_add hi]; omega), hlower]
  · rw [hstatus (by rw [toNat_upperWindow_add hi]; omega), hupper]

/-- A cartridge with the same bank in both halves of the window shows it twice. -/
theorem peek_powerOn_of_bank (settings : Settings) {cartridge : Cartridge} {byte : Nat → UInt8}
    (hlower : ∀ (i : Nat) (hi : i < 0x4000), cartridge.banks.window.1[i] = byte i)
    (hupper : ∀ (i : Nat) (hi : i < 0x4000), cartridge.banks.window.2[i] = byte i) {a : UInt16}
    (ha : 0x8000 ≤ a.toNat) :
    (powerOn settings cartridge).bus.peek a = byte (a.toNat % 0x4000) := by
  have hlt := a.toNat_lt
  have hi : a.toNat % 0x4000 < 0x4000 := Nat.mod_lt _ (by decide)
  obtain ⟨hfirst, hsecond⟩ := peek_powerOn settings cartridge hi
  by_cases hhalf : a.toNat < 0xC000
  · have haddress : a = lowerWindow + UInt16.ofNat (a.toNat % 0x4000) := by
      apply UInt16.toNat_inj.mp
      rw [toNat_lowerWindow_add hi]
      omega
    rw [← haddress] at hfirst
    rw [hfirst, hlower]
  · have haddress : a = upperWindow + UInt16.ofNat (a.toNat % 0x4000) := by
      apply UInt16.toNat_inj.mp
      rw [toNat_upperWindow_add hi]
      omega
    rw [← haddress] at hsecond
    rw [hsecond, hupper]

end Console

end NesMachine
