import NesMachine.Proofs.Device.SystemBus

/-!
# The system bus as a plain memory

Aliases, devices and controllers aside, the system bus is a memory with one byte for each folded
address.  `cells events` is that memory after a list of events, computed from the events alone.

* `peek_afterEvents`: the byte behind an address is the cell of the folded address, after any
  events;
* `cells_eq_lastWritten`: but for the status register and the index register of sprite memory, a
  cell holds the byte that was last written to it;
* `accesses_fold`: the two together, what a read delivers, and that accesses through aliases do the
  same to the whole bus.
-/

namespace NesMachine

namespace SystemBus

open AddressSpace

/-! ### Events -/

/-- What can happen to a bus. -/
inductive Event where
  | read (a : UInt16)
  | write (a : UInt16) (value : UInt8)
  /-- Vertical blanking begins or ends. -/
  | vblank (on : Bool)
  /-- A button is pressed or released; there are only the controllers 0 and 1. -/
  | button (pad : Nat) (key : UInt8) (pressed : Bool)

namespace Event

/-- The bus after an event. -/
def run : Event → SystemBus → SystemBus
  | read a, bus => (bus.read a).2
  | write a value, bus => bus.write a value
  | vblank on, bus => bus.setVblank on
  | button pad key pressed, bus => (bus.setButton pad key pressed).getD bus

/-- The cells of a plain memory after an event. -/
def store : Event → (UInt16 → UInt8) → UInt16 → UInt8
  | write a value, cells, cell =>
    if fold a = cell then value
    else if fold a = oamDataAddress ∧ cell = oamIndexAddress then cells cell + 1
    else cells cell
  | vblank on, cells, cell =>
    if cell = statusAddress then
      if on then cells cell ||| 0x80 else cells cell &&& ~~~0x80
    else cells cell
  | read _, cells, cell | button _ _ _, cells, cell => cells cell

/-- The address and the byte of a write. -/
def written : Event → Option (UInt16 × UInt8)
  | write a value => some (a, value)
  | read _ | vblank _ | button _ _ _ => none

end Event

/-- The bus after events from power on. -/
def afterEvents (video : VideoSpace) (events : List Event) : SystemBus :=
  events.foldl (fun bus event => event.run bus) (powerOn video)

/-- The cells of a plain memory after events from all zeros. -/
def cells (events : List Event) : UInt16 → UInt8 :=
  events.foldl (fun cells event => event.store cells) fun _ => 0

theorem afterEvents_concat (video : VideoSpace) (events : List Event) (event : Event) :
    afterEvents video (events ++ [event]) = event.run (afterEvents video events) := by
  rw [afterEvents, List.foldl_concat, afterEvents]

theorem cells_concat (events : List Event) (event : Event) :
    cells (events ++ [event]) = event.store (cells events) := by
  rw [cells, List.foldl_concat, cells]

/-! ### The bus stores what the memory stores -/

variable {bus : SystemBus}

theorem space_setButton (bus : SystemBus) (pad : Nat) (key : UInt8) (pressed : Bool) :
    ((bus.setButton pad key pressed).getD bus).space = bus.space := by
  unfold setButton
  split <;> rfl

theorem Wired.run (h : bus.Wired) (event : Event) : (event.run bus).Wired := by
  cases event with
  | read a => exact h.read a
  | write a value => exact h.write a value
  | vblank on => exact h.setVblank on
  | button pad key pressed =>
    show ((bus.setButton pad key pressed).getD bus).space.routes = _
    rw [space_setButton]
    exact h

/-- An event does to the bytes of the bus what it does to the cells. -/
theorem Wired.peek_run (h : bus.Wired) {stored : UInt16 → UInt8}
    (hstored : ∀ b, bus.peek b = stored (fold b)) (event : Event) (b : UInt16) :
    (event.run bus).peek b = event.store stored (fold b) := by
  cases event with
  | read a =>
    show (bus.read a).2.peek b = stored (fold b)
    rw [peek, space_read]
    exact hstored b
  | write a value =>
    show (bus.write a value).peek b = _
    rw [h.peek_write, hstored]
    rfl
  | vblank on =>
    show (bus.setVblank on).peek b = _
    rw [h.peek_setVblank, hstored]
    rfl
  | button pad key pressed =>
    show ((bus.setButton pad key pressed).getD bus).peek b = stored (fold b)
    rw [peek, space_setButton]
    exact hstored b

theorem wired_afterEvents (video : VideoSpace) (events : List Event) :
    (afterEvents video events).Wired := by
  induction events using List.reverseRecOn with
  | nil => exact wired_powerOn video
  | append_singleton events event ih =>
    rw [afterEvents_concat]
    exact ih.run event

/-- **The bytes of the bus** are the cells of the plain memory, whatever happened. -/
theorem peek_afterEvents (video : VideoSpace) (events : List Event) (a : UInt16) :
    (afterEvents video events).peek a = cells events (fold a) := by
  induction events using List.reverseRecOn generalizing a with
  | nil => exact peek_powerOn video a
  | append_singleton events event ih =>
    rw [afterEvents_concat, cells_concat]
    exact (wired_afterEvents video events).peek_run ih event a

/-- But for two registers, only a write changes a cell. -/
theorem Event.store_of_ne (event : Event) (stored : UInt16 → UInt8) {cell : UInt16}
    (hstatus : cell ≠ statusAddress) (hindex : cell ≠ oamIndexAddress) :
    event.store stored cell =
      match event.written with
      | some (a, value) => if fold a = cell then value else stored cell
      | none => stored cell := by
  cases event with
  | read a | button pad key pressed => rfl
  | vblank on => exact if_neg hstatus
  | write a value => simp only [store, written, hindex, and_false, if_false]

/-- Such a cell keeps the byte that was last written to it. -/
theorem cells_eq_lastWritten (events : List Event) {cell : UInt16} (hstatus : cell ≠ statusAddress)
    (hindex : cell ≠ oamIndexAddress) :
    cells events cell =
      (lastWritten (fun b => fold b == cell) (events.filterMap Event.written)).getD 0 := by
  induction events using List.reverseRecOn with
  | nil => rfl
  | append_singleton events event ih =>
    rw [cells_concat, event.store_of_ne _ hstatus hindex, List.filterMap_append]
    cases hwritten : event.written with
    | none =>
      rw [List.filterMap_cons_none hwritten, List.filterMap_nil, List.append_nil]
      exact ih
    | some write =>
      rw [List.filterMap_cons_some hwritten, List.filterMap_nil, lastWritten_concat, ih]
      by_cases hcell : fold write.1 = cell
      · simp [hcell]
      · simp [hcell]

/-! ### Reads and aliases -/

/-- Above the copies an address is folded from no other. -/
theorem fold_eq_iff {a cell : UInt16} (hcell : 0x4000 ≤ cell.toNat) : fold a = cell ↔ a = cell := by
  rw [← UInt16.toNat_inj, ← UInt16.toNat_inj, toNat_fold]
  grind [foldNumber]

/-- A read of the first controller tells its current button and moves on to its next; a read of the
second does so there; any other read delivers the stored byte and changes nothing. -/
theorem Wired.read_cases (h : bus.Wired) (a : UInt16) :
    bus.read a =
      if a = 0x4016 then
        (bus.pad1.buttons >>> bus.pad1.index &&& 1,
          { bus with pad1 := { bus.pad1 with index := (bus.pad1.index + 1) % 8 } })
      else if a = 0x4017 then
        (bus.pad2.buttons >>> bus.pad2.index &&& 1,
          { bus with pad2 := { bus.pad2 with index := (bus.pad2.index + 1) % 8 } })
      else (bus.peek a, bus) := by
  have hfirst : deviceAt (fold a) = some .joypad1 ↔ a = 0x4016 := by
    rw [← fold_eq_iff (by decide)]
    grind [deviceAt]
  have hsecond : deviceAt (fold a) = some .joypad2 ↔ a = 0x4017 := by
    rw [← fold_eq_iff (by decide)]
    grind [deviceAt]
  rw [h.read_eq, h.peek_congr (fold_fold a)]
  simp only [← hfirst, ← hsecond]
  cases deviceAt (fold a) with
  | none => rfl
  | some kind => cases kind <;> rfl

theorem Wired.read_congr (h : bus.Wired) {a b : UInt16} (hab : fold b = fold a) :
    bus.read b = bus.read a := by
  rw [h.read_eq, h.read_eq, hab]

theorem Wired.write_congr (h : bus.Wired) {a b : UInt16} (hab : fold b = fold a) (value : UInt8) :
    bus.write b value = bus.write a value := by
  rw [h.write_eq, h.write_eq, hab]

/-- **The bus as a memory of folded addresses.**  After any events from power on, the byte behind an
address is the cell of the folded address in a plain memory, which is the byte last written there
unless it belongs to the status register or the index register of sprite memory.  A read delivers
that byte and changes nothing, but at a controller it tells and moves on the current button of that
controller; and at two addresses that fold to the same, reads and writes do the same to the whole
bus. -/
theorem accesses_fold (video : VideoSpace) (events : List Event) (a : UInt16) :
    let bus := afterEvents video events
    bus.peek a = cells events (fold a) ∧
    (fold a ≠ statusAddress → fold a ≠ oamIndexAddress →
      bus.peek a =
        (lastWritten (fun b => fold b == fold a) (events.filterMap Event.written)).getD 0) ∧
    Bus.read a bus =
      (if a = 0x4016 then
        .ok (bus.pad1.buttons >>> bus.pad1.index &&& 1)
          { bus with pad1 := { bus.pad1 with index := (bus.pad1.index + 1) % 8 } }
      else if a = 0x4017 then
        .ok (bus.pad2.buttons >>> bus.pad2.index &&& 1)
          { bus with pad2 := { bus.pad2 with index := (bus.pad2.index + 1) % 8 } }
      else .ok (bus.peek a) bus) ∧
    ∀ b, fold b = fold a →
      Bus.read b bus = Bus.read a bus ∧
        ∀ value, ∃ bus', Bus.write b value bus = .ok () bus' ∧ Bus.write a value bus = .ok () bus' := by
  intro bus
  have hwired : bus.Wired := wired_afterEvents video events
  have hpeek : bus.peek a = cells events (fold a) := peek_afterEvents video events a
  refine ⟨hpeek, ?_, ?_, ?_⟩
  · intro hstatus hindex
    rw [hpeek, cells_eq_lastWritten events hstatus hindex]
  · show EStateM.Result.ok (bus.read a).1 (bus.read a).2 = _
    rw [hwired.read_cases]
    split
    · rfl
    · split <;> rfl
  · intro b hab
    refine ⟨?_, fun value => ⟨bus.write a value, ?_, rfl⟩⟩
    · show EStateM.Result.ok (bus.read b).1 (bus.read b).2 = .ok (bus.read a).1 (bus.read a).2
      rw [hwired.read_congr hab]
    · show EStateM.Result.ok () (bus.write b value) = _
      rw [hwired.write_congr hab]

/-- A write to a copy of `$2004` moves the index in `$2003` from `$FF` on to zero, and vertical
blanking shows in a copy of `$2002`. -/
theorem copies_of_registers_drive :
    let events := [.write 0x3FFB 0xFF, .write 0x200C 0x11, .vblank true, .write 0x1801 0x55]
    let bus := afterEvents (VideoSpace.wired .horizontal) events
    bus.peek 0x2003 = 0x00 ∧ bus.peek 0x3FFA = 0x80 ∧ bus.peek 0x0001 = 0x55 ∧
      Bus.read 0x1001 bus = Bus.read 0x0001 bus := by
  intro events bus
  have hcopies := accesses_fold (VideoSpace.wired .horizontal) events
  exact ⟨(hcopies 0x2003).1.trans (by decide), (hcopies 0x3FFA).1.trans (by decide),
    ((hcopies 0x0001).2.1 (by decide) (by decide)).trans (by decide),
    ((hcopies 0x0001).2.2.2 0x1001 (by decide)).1⟩

end SystemBus

end NesMachine
