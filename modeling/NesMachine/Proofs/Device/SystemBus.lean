import NesMachine.Device.SystemBus
import NesMachine.Proofs.AddressSpace.Owners

/-!
# The wiring of the system bus

No access rewires a bus, so that the addresses that are storage in `processorSpace` are storage
for good, and the copies of an address stay its copies.

* `fold`: the address that all copies of it stand for, which is their owner in `processorSpace`
  (`owner_processorSpace`); `deviceAt` is the device there;
* `Wired bus`: the routes of the bus are those of `processorSpace`; every read and every write
  keeps it;
* `Wired.read_eq`, `Wired.write_eq`: what an access does, by the folded address; with
  `Wired.read_of_storage` and `Wired.write_of_storage` for storage, where it reaches no device;
* `Wired.peek_write`: the bytes after a write;
* `Wired.peek_write_of_ne`: a write anywhere else leaves a stored byte as it was, whichever device
  it drives, the index register of sprite memory excepted.
-/

namespace NesMachine

namespace SystemBus

open AddressSpace

variable {bus : SystemBus} {a b : UInt16} {value : UInt8}

/-! ### Folding -/

/-- The address that every copy of it is read and written as. -/
def fold (a : UInt16) : UInt16 :=
  if a < 0x2000 then a % 0x0800 else if a < 0x4000 then 0x2000 + a % 8 else a

/-- Folding, by the number of the address. -/
def foldNumber (n : Nat) : Nat :=
  if n < 0x2000 then n % 0x0800 else if n < 0x4000 then 0x2000 + n % 8 else n

theorem toNat_fold (a : UInt16) : (fold a).toNat = foldNumber a.toNat := by
  have hmemory : a < 0x2000 ↔ a.toNat < 0x2000 := UInt16.lt_iff_toNat_lt
  have hregister : a < 0x4000 ↔ a.toNat < 0x4000 := UInt16.lt_iff_toNat_lt
  unfold fold foldNumber
  simp only [hmemory, hregister]
  split
  · exact UInt16.toNat_mod a 0x0800
  · split
    · rw [UInt16.toNat_add, UInt16.toNat_mod]
      exact Nat.mod_eq_of_lt (by simp; omega)
    · rfl

theorem fold_fold (a : UInt16) : fold (fold a) = fold a := by
  apply UInt16.toNat_inj.mp
  rw [toNat_fold, toNat_fold]
  grind [foldNumber]

/-- The register through which sprite memory is written. -/
def oamDataAddress : UInt16 := 0x2004

/-- The device at an address that is no copy. -/
def deviceAt (a : UInt16) : Option Device :=
  if a = 0x2004 then some .oamData
  else if a = 0x2005 then some .scroll
  else if a = 0x2006 then some .videoAddress
  else if a = 0x2007 then some .videoData
  else if a = 0x4014 then some .oamDma
  else if a = 0x4016 then some .joypad1
  else if a = 0x4017 then some .joypad2
  else none

theorem bytes_processorSpace : processorSpace.bytes = Memory.zeros := by
  rw [processorSpace, bytes_install, bytes_install, bytes_install, linkRepeating, bytes_linkAll,
    bytes_install, bytes_install, bytes_install, bytes_install, linkRepeating, bytes_linkAll]
  rfl

/-- **The owners of the processor's address space** are the folded addresses. -/
theorem ownedBy_processorSpace : OwnedBy processorSpace foldNumber := by
  have hempty : OwnedBy (AddressSpace.empty : AddressSpace Device) id := .empty
  have hmemory := hempty.linkRepeating 0x0000 0x0800 0x1FFF (by decide) (fun n _ _ => rfl)
    (by grind [wrapped])
  have hports := (((hmemory.install 0x2004 .oamData (by decide)).install 0x2005 .scroll
    (by decide)).install 0x2006 .videoAddress (by decide)).install 0x2007 .videoData (by decide)
  have hcopies := hports.linkRepeating 0x2000 8 0x3FFF (by decide) (by grind [wrapped])
    (by grind [wrapped])
  have hregisters := ((hcopies.install 0x4014 .oamDma (by decide)).install 0x4016 .joypad1
    (by decide)).install 0x4017 .joypad2 (by decide)
  exact hregisters.congr (by grind [wrapped, foldNumber])

theorem owner_processorSpace (a : UInt16) : processorSpace.owner a = fold a := by
  apply UInt16.toNat_inj.mp
  rw [ownedBy_processorSpace.toNat_owner, toNat_fold]

/-- No device sits at an address but those of `deviceAt`. -/
theorem routes_processorSpace (ha : fold a = a) :
    processorSpace.routes[a] = ((deviceAt a).map Route.device).getD .plain := by
  have hself : foldNumber a.toNat = a.toNat := by rw [← toNat_fold, ha]
  have hmemory (space : AddressSpace Device) :
      (space.linkRepeating 0x0000 0x0800 0x1FFF).routes[a] = space.routes[a] :=
    routes_linkRepeating_of_outside space (by simp; grind [foldNumber])
  have hregister (space : AddressSpace Device) :
      (space.linkRepeating 0x2000 8 0x3FFF).routes[a] = space.routes[a] :=
    routes_linkRepeating_of_outside space (by simp; grind [foldNumber])
  have hempty : (AddressSpace.empty : AddressSpace Device).routes[a] = .plain :=
    Cells.getElem_fill _ a
  simp only [processorSpace, deviceAt, routes_install, hregister, hmemory, hempty]
  grind

/-! ### Storage -/

/-- The addresses that are neither copies nor device registers. -/
def IsStorage (a : UInt16) : Prop :=
  a.toNat < 0x0800 ∨ (0x2000 ≤ a.toNat ∧ a.toNat < 0x2004) ∨
    (0x4000 ≤ a.toNat ∧ a.toNat ≠ 0x4014 ∧ a.toNat ≠ 0x4016 ∧ a.toNat ≠ 0x4017)

instance : DecidablePred IsStorage := fun a =>
  inferInstanceAs (Decidable (a.toNat < 0x0800 ∨ (0x2000 ≤ a.toNat ∧ a.toNat < 0x2004) ∨
    (0x4000 ≤ a.toNat ∧ a.toNat ≠ 0x4014 ∧ a.toNat ≠ 0x4016 ∧ a.toNat ≠ 0x4017)))

theorem IsStorage.fold_eq (ha : IsStorage a) : fold a = a := by
  apply UInt16.toNat_inj.mp
  rw [toNat_fold]
  grind [foldNumber, IsStorage]

theorem IsStorage.deviceAt_eq (ha : IsStorage a) : deviceAt a = none := by
  have hne {d : UInt16} (hd : ¬ IsStorage d) : a ≠ d := by
    intro heq
    rw [heq] at ha
    exact hd ha
  rw [deviceAt, if_neg (hne (by decide)), if_neg (hne (by decide)), if_neg (hne (by decide)),
    if_neg (hne (by decide)), if_neg (hne (by decide)), if_neg (hne (by decide)),
    if_neg (hne (by decide))]

theorem toNat_slot_lt (slot : UInt8) : (wordOf slot 1).toNat < 0x0200 := by
  have hslot := slot.toNat_lt
  rw [toNat_wordOf, show (1 : UInt8).toNat = 1 from rfl]
  omega

/-- The slots of page one are storage. -/
theorem isStorage_slot (slot : UInt8) : IsStorage (wordOf slot 1) := by
  have hslot := toNat_slot_lt slot
  exact .inl (by omega)

theorem slot_ne (slot : UInt8) (ha : 0x0200 ≤ a.toNat) : wordOf slot 1 ≠ a := by
  intro heq
  subst heq
  have hslot := toNat_slot_lt slot
  omega

/-- The upper half of the address space is storage. -/
theorem isStorage_program (ha : 0x8000 ≤ a.toNat) : IsStorage a := by
  unfold IsStorage
  omega

/-! ### Accesses keep the wiring -/

/-- The bus is wired as it was made. -/
def Wired (bus : SystemBus) : Prop := bus.space.routes = processorSpace.routes

theorem wired_powerOn (video : VideoSpace) : (powerOn video).Wired := rfl

theorem peek_powerOn (video : VideoSpace) (a : UInt16) : (powerOn video).peek a = 0 := by
  show processorSpace.peek a = 0
  rw [AddressSpace.peek, bytes_processorSpace]
  exact Cells.getElem_fill 0 _

theorem Wired.grounded (h : bus.Wired) : AddressSpace.Grounded bus.space.routes := by
  rw [show bus.space.routes = processorSpace.routes from h]
  exact ownedBy_processorSpace.grounded

theorem Wired.owner_eq_fold (h : bus.Wired) (a : UInt16) : bus.space.owner a = fold a := by
  rw [AddressSpace.owner, show bus.space.routes = processorSpace.routes from h]
  exact owner_processorSpace a

/-- An access reaches the folded address and the device there. -/
theorem Wired.resolve_eq (h : bus.Wired) (a : UInt16) :
    bus.space.resolve a =
      match deviceAt (fold a) with
      | some kind => .device (fold a) kind
      | none => .plain (fold a) := by
  have hroute : bus.space.routes[fold a] = ((deviceAt (fold a)).map Route.device).getD .plain := by
    rw [show bus.space.routes = processorSpace.routes from h]
    exact routes_processorSpace (fold_fold a)
  rw [resolve, h.owner_eq_fold, hroute]
  cases deviceAt (fold a) <;> rfl

theorem Wired.owner_of_storage (h : bus.Wired) (ha : IsStorage a) : bus.space.owner a = a := by
  rw [h.owner_eq_fold, ha.fold_eq]

theorem Wired.read_of_storage (h : bus.Wired) (ha : IsStorage a) :
    bus.read a = (bus.peek a, bus) := by
  rw [read, h.resolve_eq, ha.fold_eq, ha.deviceAt_eq]
  rfl

theorem Wired.write_of_storage (h : bus.Wired) (ha : IsStorage a) (value : UInt8) :
    bus.write a value = bus.poke a value := by
  rw [write, h.resolve_eq, ha.fold_eq, ha.deviceAt_eq]

theorem space_read (bus : SystemBus) (a : UInt16) : (bus.read a).2.space = bus.space := by
  unfold read
  split <;> rfl

theorem space_copyPage (bus : SystemBus) (page : UInt8) :
    (bus.copyPage page).space = bus.space := by
  obtain ⟨space, video, oam, latch, pad1, pad2⟩ := bus
  rfl

/-- A device changes no byte but the index register of sprite memory. -/
theorem space_drive (bus : SystemBus) (value : UInt8) (kind : Device) :
    (bus.drive value kind).space =
      if kind = .oamData then bus.space.poke oamIndexAddress (bus.peek oamIndexAddress + 1)
      else bus.space := by
  cases kind with
  | oamDma => exact bus.space_copyPage value
  | oamData | scroll | videoAddress | videoData | joypad1 | joypad2 => rfl

theorem routes_drive (bus : SystemBus) (value : UInt8) (kind : Device) :
    (bus.drive value kind).space.routes = bus.space.routes := by
  rw [space_drive]
  split
  · exact AddressSpace.routes_poke _ _ _
  · rfl

theorem routes_write (bus : SystemBus) (a : UInt16) (value : UInt8) :
    (bus.write a value).space.routes = bus.space.routes := by
  unfold write
  split
  · rfl
  · exact routes_drive _ _ _

theorem Wired.read (h : bus.Wired) (a : UInt16) : (bus.read a).2.Wired := by
  rw [Wired, space_read]
  exact h

theorem Wired.write (h : bus.Wired) (a : UInt16) (value : UInt8) : (bus.write a value).Wired := by
  rw [Wired, routes_write]
  exact h

theorem Wired.poke (h : bus.Wired) (a : UInt16) (value : UInt8) : (bus.poke a value).Wired := h

/-! ### Stored bytes after a write -/

theorem Wired.peek_poke (h : bus.Wired) (a b : UInt16) (value : UInt8) :
    (bus.poke a value).peek b = if fold a = fold b then value else bus.peek b := by
  rw [SystemBus.peek_poke, h.owner_eq_fold, h.owner_eq_fold]

/-- A read and a write go through the folded address. -/
theorem Wired.read_eq (h : bus.Wired) (a : UInt16) :
    bus.read a =
      match deviceAt (fold a) with
      | some .joypad1 => bus.readPad1
      | some .joypad2 => bus.readPad2
      | _ => (bus.peek (fold a), bus) := by
  rw [SystemBus.read, h.resolve_eq]
  cases deviceAt (fold a) with
  | none => rfl
  | some kind => cases kind <;> rfl

theorem Wired.write_eq (h : bus.Wired) (a : UInt16) (value : UInt8) :
    bus.write a value =
      match deviceAt (fold a) with
      | some kind => (bus.poke (fold a) value).drive value kind
      | none => bus.poke (fold a) value := by
  rw [SystemBus.write, h.resolve_eq]
  cases deviceAt (fold a) <;> rfl

theorem deviceAt_eq_oamData : deviceAt a = some .oamData ↔ a = oamDataAddress := by
  grind [deviceAt, oamDataAddress]

theorem Wired.peek_congr (h : bus.Wired) (hab : fold a = fold b) : bus.peek a = bus.peek b := by
  rw [peek, peek, AddressSpace.peek, AddressSpace.peek, h.owner_eq_fold, h.owner_eq_fold, hab]

theorem Wired.peek_drive (h : bus.Wired) (value : UInt8) (kind : Device) (b : UInt16) :
    (bus.drive value kind).peek b =
      if kind = .oamData ∧ fold b = oamIndexAddress then bus.peek b + 1 else bus.peek b := by
  have hindex : fold oamIndexAddress = oamIndexAddress := by decide
  rw [peek, space_drive]
  by_cases hkind : kind = .oamData
  · rw [if_pos hkind, AddressSpace.peek_poke, h.owner_eq_fold, h.owner_eq_fold, hindex]
    by_cases hb : fold b = oamIndexAddress
    · rw [if_pos hb.symm, if_pos ⟨hkind, hb⟩, h.peek_congr (hindex.trans hb.symm)]
    · rw [if_neg (Ne.symm hb), if_neg fun hboth => hb hboth.2, peek]
  · rw [if_neg hkind, if_neg fun hboth => hkind hboth.1, peek]

/-- **A write** stores its byte behind all addresses that fold to the same, and moves the index of
sprite memory on if it wrote there. -/
theorem Wired.peek_write (h : bus.Wired) (a b : UInt16) (value : UInt8) :
    (bus.write a value).peek b =
      if fold a = fold b then value
      else if fold a = oamDataAddress ∧ fold b = oamIndexAddress then bus.peek b + 1
      else bus.peek b := by
  have hstored : (bus.poke (fold a) value).peek b =
      if fold a = fold b then value else bus.peek b := by
    rw [h.peek_poke, fold_fold]
  have hdata := deviceAt_eq_oamData (a := fold a)
  have hapart : oamDataAddress ≠ oamIndexAddress := by decide
  rw [h.write_eq]
  cases hdevice : deviceAt (fold a) with
  | none =>
    show (bus.poke (fold a) value).peek b = _
    rw [hstored]
    grind
  | some kind =>
    show ((bus.poke (fold a) value).drive value kind).peek b = _
    rw [(h.poke _ _).peek_drive, hstored]
    grind

/-- **A write elsewhere.**  Whatever device it drives, a write changes no byte behind an address
that has another owner and is not the index register of sprite memory. -/
theorem Wired.peek_write_of_ne (h : bus.Wired) (hab : bus.space.owner a ≠ bus.space.owner b)
    (hindex : bus.space.owner b ≠ oamIndexAddress) (value : UInt8) :
    (bus.write a value).peek b = bus.peek b := by
  rw [h.owner_eq_fold] at hindex
  rw [h.owner_eq_fold, h.owner_eq_fold] at hab
  rw [h.peek_write, if_neg hab, if_neg fun hdata => hindex hdata.2]

/-- A write at a stack slot changes that slot and no other. -/
theorem peek_write_slot {bus bus' : SystemBus} {slot : UInt8} {u : Unit}
    (hwired : bus.Wired) (h : Bus.write (wordOf slot 1) value bus = .ok u bus') :
    bus'.Wired ∧ ∀ other : UInt8, bus'.peek (wordOf other 1) =
      if slot = other then value else bus.peek (wordOf other 1) := by
  cases h
  rw [hwired.write_of_storage (isStorage_slot slot)]
  refine ⟨hwired.poke _ _, ?_⟩
  intro other
  rw [SystemBus.peek_poke, hwired.owner_of_storage (isStorage_slot slot),
    hwired.owner_of_storage (isStorage_slot other)]
  by_cases hsame : slot = other
  · rw [if_pos hsame, hsame, if_pos rfl]
  · rw [if_neg hsame, if_neg fun heq => hsame (wordOf_inj heq)]

/-- A read of storage delivers the stored byte and changes nothing. -/
theorem Wired.bus_read (h : bus.Wired) (ha : IsStorage a) :
    Bus.read a bus = .ok (bus.peek a) bus := by
  show EStateM.Result.ok (bus.read a).1 (bus.read a).2 = .ok (bus.peek a) bus
  rw [h.read_of_storage ha]

theorem read_storage_ok {bus bus' : SystemBus} {value : UInt8} (hwired : bus.Wired)
    (ha : IsStorage a) (h : Bus.read a bus = .ok value bus') : value = bus.peek a ∧ bus' = bus := by
  rw [hwired.bus_read ha] at h
  cases h
  exact ⟨rfl, rfl⟩

/-! ### Vertical blanking -/

theorem Wired.setVblank (h : bus.Wired) (on : Bool) : (bus.setVblank on).Wired := h

/-- Vertical blanking sets or clears bit 7 of the status register and changes nothing else. -/
theorem Wired.peek_setVblank (h : bus.Wired) (on : Bool) (b : UInt16) :
    (bus.setVblank on).peek b =
      if fold b = statusAddress then
        if on then bus.peek b ||| 0x80 else bus.peek b &&& ~~~0x80
      else bus.peek b := by
  have hstatus : fold statusAddress = statusAddress := by decide
  rw [SystemBus.setVblank, h.peek_poke, hstatus]
  by_cases hb : fold b = statusAddress
  · rw [if_pos hb.symm, if_pos hb, h.peek_congr (hstatus.trans hb.symm)]
  · rw [if_neg (Ne.symm hb), if_neg hb]

/-- Turning vertical blanking over flips bit 7 of the status register. -/
theorem peek_setVblank_not (bus : SystemBus) :
    (bus.setVblank (!bus.inVblank)).peek statusAddress = bus.peek statusAddress ^^^ 0x80 := by
  have hflip (status : UInt8) :
      (if !(status &&& 0x80 != 0) then status ||| 0x80 else status &&& ~~~0x80)
        = status ^^^ 0x80 := by
    obtain ⟨bits⟩ := status
    revert bits
    decide +kernel
  rw [SystemBus.setVblank, peek_poke, if_pos rfl, inVblank]
  exact hflip _

theorem peek_setVblank_of_ne (hb : bus.space.owner statusAddress ≠ bus.space.owner b) (on : Bool) :
    (bus.setVblank on).peek b = bus.peek b := by
  rw [SystemBus.setVblank, peek_poke, if_neg hb]

end SystemBus

end NesMachine
