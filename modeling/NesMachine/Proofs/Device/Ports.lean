import NesMachine.Proofs.Device.Accesses

/-!
# What each device listens to

A device has a few registers, and no access elsewhere concerns it.  Its state after a history
therefore depends on the writes to these registers alone, whatever else happens between them and
through whichever copies of the registers they are made.

* `writesTo registers events`: the writes of a history to certain registers, in order, by the
  addresses that their copies stand for;
* `Wired.runAll_induction`: what each write to these registers keeps true of a device, and
  everything else too, is true of it after any history;
* `streamed`: where the bytes go that are written to one register after the other;
* `run_of_unwritten`, `Wired.peek_run_of_unwritten`: what every event leaves alone that is no write.
-/

namespace NesMachine

/-- The address at which a device sits. -/
def Device.register : Device → UInt16
  | oamData => 0x2004
  | scroll => 0x2005
  | videoAddress => 0x2006
  | videoData => 0x2007
  | oamDma => 0x4014
  | joypad1 => 0x4016
  | joypad2 => 0x4017

/-- The writes of a stream: its bytes go to every `step`th address from `start` on, and after
`$FFFF` comes `$0000`. -/
def streamed (start step : Nat) (bytes : List UInt8) : List (UInt16 × UInt8) :=
  bytes.zipIdx.map fun byte => (UInt16.ofNat (start + byte.2 * step), byte.1)

theorem streamed_concat (start step : Nat) (bytes : List UInt8) (byte : UInt8) :
    streamed start step (bytes ++ [byte])
      = streamed start step bytes ++ [(UInt16.ofNat (start + bytes.length * step), byte)] := by
  simp [streamed, List.zipIdx_append]

namespace SystemBus

variable {bus : SystemBus} {a : UInt16} {value : UInt8}

theorem deviceAt_eq_some {kind : Device} : deviceAt a = some kind ↔ a = kind.register := by
  cases kind <;> grind [deviceAt, Device.register]

/-! ### Histories -/

/-- The bus after events. -/
def runAll (bus : SystemBus) (events : List Event) : SystemBus :=
  events.foldl (fun bus event => event.run bus) bus

theorem runAll_concat (bus : SystemBus) (events : List Event) (event : Event) :
    bus.runAll (events ++ [event]) = event.run (bus.runAll events) := by
  rw [runAll, List.foldl_concat, runAll]

theorem Wired.runAll (h : bus.Wired) (events : List Event) : (bus.runAll events).Wired := by
  induction events using List.reverseRecOn with
  | nil => exact h
  | append_singleton events event ih =>
    rw [runAll_concat]
    exact ih.run event

/-- The writes to certain registers, through whichever of their copies. -/
def writesTo (registers : List UInt16) (events : List Event) : List (UInt16 × UInt8) :=
  ((events.filterMap Event.written).map fun write => (fold write.1, write.2)).filter
    fun write => write.1 ∈ registers

theorem writesTo_concat (registers : List UInt16) (events : List Event) (event : Event) :
    writesTo registers (events ++ [event])
      = writesTo registers events ++ writesTo registers [event] := by
  rw [writesTo, List.filterMap_append, List.map_append, List.filter_append]
  rfl

/-- **What a device listens to.**  A statement about a device and the writes to its registers that
holds at first, and that every event keeps, holds after any history. -/
theorem Wired.runAll_induction (h : bus.Wired) (registers : List UInt16)
    {P : List (UInt16 × UInt8) → SystemBus → Prop} (events : List Event)
    (start : P [] bus)
    (unwritten : ∀ (bus : SystemBus) writes (event : Event), bus.Wired → P writes bus →
      event.written = none → P writes (event.run bus))
    (elsewhere : ∀ (bus : SystemBus) writes a value, bus.Wired → P writes bus →
      fold a ∉ registers → P writes (bus.write a value))
    (register : ∀ (bus : SystemBus) writes a value, bus.Wired → P writes bus →
      fold a ∈ registers → P (writes ++ [(fold a, value)]) (bus.write a value)) :
    P (writesTo registers events) (bus.runAll events) := by
  induction events using List.reverseRecOn with
  | nil => exact start
  | append_singleton events event ih =>
    rw [runAll_concat, writesTo_concat]
    have hwired := h.runAll events
    cases event with
    | write a value =>
      by_cases ha : fold a ∈ registers
      · have hlast : writesTo registers [.write a value] = [(fold a, value)] := by
          simp [writesTo, Event.written, ha]
        rw [hlast]
        exact register _ _ a value hwired ih ha
      · have hlast : writesTo registers [.write a value] = [] := by
          simp [writesTo, Event.written, ha]
        rw [hlast, List.append_nil]
        exact elsewhere _ _ a value hwired ih ha
    | read a =>
      rw [show writesTo registers [.read a] = [] from rfl, List.append_nil]
      exact unwritten _ _ _ hwired ih rfl
    | vblank on =>
      rw [show writesTo registers [.vblank on] = [] from rfl, List.append_nil]
      exact unwritten _ _ _ hwired ih rfl
    | button pad key pressed =>
      rw [show writesTo registers [.button pad key pressed] = [] from rfl, List.append_nil]
      exact unwritten _ _ _ hwired ih rfl

/-! ### Events that are no writes -/

/-- Without a write, nothing happens to the video side and to sprite memory. -/
theorem run_of_unwritten {event : Event} (h : event.written = none) (bus : SystemBus) :
    (event.run bus).latch = bus.latch ∧ (event.run bus).video = bus.video ∧
      (event.run bus).oam = bus.oam := by
  cases event with
  | write a value => cases h
  | read a =>
    rw [Event.run, read]
    split <;> exact ⟨rfl, rfl, rfl⟩
  | vblank on => exact ⟨rfl, rfl, rfl⟩
  | button pad key pressed =>
    rw [Event.run]
    unfold setButton
    split <;> exact ⟨rfl, rfl, rfl⟩

/-- Without a write, the status register alone can change. -/
theorem Wired.peek_run_of_unwritten (h : bus.Wired) {event : Event}
    (hwritten : event.written = none) {b : UInt16} (hb : fold b ≠ statusAddress) :
    (event.run bus).peek b = bus.peek b := by
  have hstored : ∀ c, bus.peek c = (fun cell => bus.peek cell) (fold c) :=
    fun c => h.peek_congr (fold_fold c).symm
  rw [h.peek_run hstored event b, hstored b]
  cases event with
  | write a value => cases hwritten
  | read a => rfl
  | vblank on => exact if_neg hb
  | button pad key pressed => rfl

end SystemBus

end NesMachine
