import NesMachine.Proofs.Device.Ports

/-!
# Reading the controllers

A controller tells its buttons one after the other.  Which button the next read tells, and what it
tells of it, is a matter of history alone: of the reads since the buttons were last gone back to the
first, and of the last press or release of that button.  Histories stand here newest first.

* `strobeEdge`, `readsSinceEdge`, `held`: the three questions to a history;
* `Controller.testBit_setButton`, `Controller.read_fst`: what a press does to the buttons, and what
  a read tells of them;
* `Wired.pad_run`: what any event does to a controller;
* `Agrees.run`: each event keeps a controller in agreement with its history;
* `controllers_tell_buttons`: what each read delivers after any history, and that nothing else moves
  a controller on.
-/

namespace NesMachine

namespace Controller

/-! ### Buttons as bits -/

theorem testBit_not (mask : UInt8) {k : Nat} (hk : k < 8) :
    (~~~mask).toNat.testBit k = !mask.toNat.testBit k := by
  show (~~~mask).toBitVec.toNat.testBit k = !mask.toBitVec.toNat.testBit k
  rw [BitVec.testBit_toNat, BitVec.testBit_toNat, UInt8.toBitVec_not, BitVec.getLsbD_not]
  simp [hk]

/-- The mask of a button has its bit and no other. -/
theorem testBit_mask {button : UInt8} (h : button < 8) (k : Nat) :
    ((1 : UInt8) <<< button).toNat.testBit k = decide (button.toNat = k) := by
  have hbutton : button.toNat < 8 := UInt8.lt_iff_toNat_lt.mp h
  have hpow : ((1 : UInt8) <<< button).toNat = 2 ^ button.toNat := by
    rw [UInt8.toNat_shiftLeft, Nat.mod_eq_of_lt hbutton, Nat.shiftLeft_eq]
    simp only [show (1 : UInt8).toNat = 1 from rfl, Nat.one_mul]
    exact Nat.mod_eq_of_lt (Nat.pow_lt_pow_right (by decide) hbutton)
  rw [hpow, Nat.testBit_two_pow]

theorem testBit_setButton (pad : Controller) {button : UInt8} (h : button < 8) (pressed : Bool)
    {k : Nat} (hk : k < 8) :
    (pad.setButton button pressed).buttons.toNat.testBit k =
      if button.toNat = k then pressed else pad.buttons.toNat.testBit k := by
  cases pressed with
  | true =>
    show (pad.buttons ||| 1 <<< button).toNat.testBit k = _
    rw [UInt8.toNat_or, Nat.testBit_or, testBit_mask h]
    by_cases hat : button.toNat = k <;> simp [hat]
  | false =>
    show (pad.buttons &&& ~~~(1 <<< button)).toNat.testBit k = _
    rw [UInt8.toNat_and, Nat.testBit_and, testBit_not _ hk, testBit_mask h]
    by_cases hat : button.toNat = k <;> simp [hat]

theorem setButton_others (pad : Controller) (button : UInt8) (pressed : Bool) :
    (pad.setButton button pressed).index = pad.index ∧
      (pad.setButton button pressed).strobe = pad.strobe := by
  cases pressed <;> exact ⟨rfl, rfl⟩

theorem read_fst (pad : Controller) (h : pad.index < 8) :
    pad.read.1 = if pad.buttons.toNat.testBit pad.index.toNat then 1 else 0 := by
  have hindex : pad.index.toNat < 8 := UInt8.lt_iff_toNat_lt.mp h
  have hbit : pad.read.1.toNat = pad.buttons.toNat / 2 ^ pad.index.toNat % 2 := by
    show (pad.buttons >>> pad.index &&& 1).toNat = _
    rw [UInt8.toNat_and, UInt8.toNat_shiftRight, Nat.mod_eq_of_lt hindex, Nat.shiftRight_eq_div_pow]
    exact Nat.and_one_is_mod _
  apply UInt8.toNat_inj.mp
  rw [hbit, Nat.testBit_eq_decide_div_mod_eq]
  obtain hzero | hone := Nat.mod_two_eq_zero_or_one (pad.buttons.toNat / 2 ^ pad.index.toNat)
  · simp [hzero]
  · simp [hone]

theorem toNat_index_read (pad : Controller) :
    pad.read.2.index.toNat = (pad.index.toNat + 1) % 8 := by
  show ((pad.index + 1) % 8).toNat = _
  rw [UInt8.toNat_mod, UInt8.toNat_add]
  exact Nat.mod_mod_of_dvd _ (by decide)

end Controller

namespace SystemBus

variable {bus : SystemBus} {i : Fin 2}

/-! ### What histories tell -/

/-- The port of a controller. -/
def padPort : Fin 2 → UInt16
  | 0 => 0x4016
  | 1 => 0x4017

/-- A controller of the bus. -/
def pad (bus : SystemBus) : Fin 2 → Controller
  | 0 => bus.pad1
  | 1 => bus.pad2

namespace Event

/-- The byte that is written to the strobe. -/
def strobed : Event → Option UInt8
  | write a value => if a = 0x4016 then some value else none
  | read _ | vblank _ | button _ _ _ => none

/-- Whether an address is read. -/
def reads (a : UInt16) : Event → Bool
  | read b => b == a
  | write _ _ | vblank _ | button _ _ _ => false

/-- Whether a button is pressed or released. -/
def sets (i : Fin 2) (key : Nat) : Event → Option Bool
  | button pad k pressed => if pad = i ∧ k.toNat = key then some pressed else none
  | read _ | write _ _ | vblank _ => none

end Event

/-- A strobe edge: the event writes to the strobe with bit 0 clear, and the last write there before
it had bit 0 set. -/
def strobeEdge (past : List Event) (event : Event) : Bool :=
  event.strobed.any (fun value => value &&& 1 == 0) &&
    (past.findSome? Event.strobed).any fun value => value &&& 1 == 1

/-- What has happened since the last strobe edge. -/
def sinceEdge : List Event → List Event
  | [] => []
  | event :: past => if strobeEdge past event then [] else event :: sinceEdge past

/-- How often the port of a controller has been read since the last strobe edge. -/
def readsSinceEdge (i : Fin 2) (past : List Event) : Nat :=
  (sinceEdge past).countP (Event.reads (padPort i))

/-- Whether a button is held: it has been pressed, and not released since. -/
def held (i : Fin 2) (key : Nat) (past : List Event) : Bool :=
  (past.findSome? (Event.sets i key)).getD false

/-! ### What events do to a controller -/

/-- What an event does to a controller. -/
def Event.onPad (i : Fin 2) : Event → Controller → Controller
  | read a, pad => if a = padPort i then pad.read.2 else pad
  | write a value, pad => if a = 0x4016 then pad.write value else pad
  | vblank _, pad => pad
  | button p key pressed, pad => if p = i then pad.setButton key pressed else pad

theorem pad_drive (bus : SystemBus) (value : UInt8) (kind : Device) (i : Fin 2) :
    (bus.drive value kind).pad i =
      if kind = .joypad1 then (bus.pad i).write value else bus.pad i := by
  obtain ⟨space, video, oam, latch, pad1, pad2⟩ := bus
  match i with
  | 0 => cases kind <;> rfl
  | 1 => cases kind <;> rfl

theorem Wired.pad_write (h : bus.Wired) (a : UInt16) (value : UInt8) (i : Fin 2) :
    (bus.write a value).pad i = if a = 0x4016 then (bus.pad i).write value else bus.pad i := by
  have hstrobe : deviceAt (fold a) = some .joypad1 ↔ a = 0x4016 := by
    rw [deviceAt_eq_some]
    exact fold_eq_iff (by decide)
  have hpoke : (bus.poke (fold a) value).pad i = bus.pad i := by
    match i with
    | 0 => rfl
    | 1 => rfl
  simp only [h.write_eq, ← hstrobe]
  cases deviceAt (fold a) with
  | none => exact hpoke
  | some kind =>
    show ((bus.poke (fold a) value).drive value kind).pad i = _
    rw [pad_drive, hpoke]
    simp only [Option.some.injEq]

theorem Wired.pad_read (h : bus.Wired) (a : UInt16) (i : Fin 2) :
    (bus.read a).2.pad i = if a = padPort i then (bus.pad i).read.2 else bus.pad i := by
  rw [h.read_cases]
  by_cases hfirst : a = 0x4016
  · subst hfirst
    match i with
    | 0 => rfl
    | 1 => rfl
  rw [if_neg hfirst]
  by_cases hsecond : a = 0x4017
  · subst hsecond
    match i with
    | 0 => rfl
    | 1 => rfl
  rw [if_neg hsecond]
  match i with
  | 0 => exact (if_neg hfirst).symm
  | 1 => exact (if_neg hsecond).symm

theorem pad_setButton (bus : SystemBus) (p : Nat) (key : UInt8) (pressed : Bool) (i : Fin 2) :
    ((bus.setButton p key pressed).getD bus).pad i =
      if p = i then (bus.pad i).setButton key pressed else bus.pad i := by
  match p, i with
  | 0, 0 | 0, 1 | 1, 0 | 1, 1 => rfl
  | p + 2, 0 => exact (if_neg (by simp)).symm
  | p + 2, 1 => exact (if_neg (by simp)).symm

theorem Wired.pad_run (h : bus.Wired) (event : Event) (i : Fin 2) :
    (event.run bus).pad i = event.onPad i (bus.pad i) := by
  cases event with
  | read a => exact h.pad_read a i
  | write a value => exact h.pad_write a value i
  | vblank on =>
    match i with
    | 0 => rfl
    | 1 => rfl
  | button p key pressed => exact pad_setButton bus p key pressed i

theorem Wired.read_padPort (h : bus.Wired) (i : Fin 2) :
    (bus.read (padPort i)).1 = (bus.pad i).read.1 := by
  rw [h.read_cases]
  match i with
  | 0 => rfl
  | 1 => rfl

/-! ### Controllers and their history -/

theorem readsSinceEdge_of_edge {past : List Event} {event : Event}
    (hedge : strobeEdge past event = true) (i : Fin 2) : readsSinceEdge i (event :: past) = 0 := by
  rw [readsSinceEdge, sinceEdge, if_pos hedge]
  rfl

theorem readsSinceEdge_of_not_edge {past : List Event} {event : Event}
    (hedge : strobeEdge past event = false) (i : Fin 2) :
    readsSinceEdge i (event :: past)
      = readsSinceEdge i past + if event.reads (padPort i) then 1 else 0 := by
  rw [readsSinceEdge, sinceEdge, hedge, if_neg Bool.false_ne_true, List.countP_cons, readsSinceEdge]

/-- A controller is as its history tells. -/
structure Agrees (pad : Controller) (i : Fin 2) (past : List Event) : Prop where
  strobe : pad.strobe = (past.findSome? Event.strobed).getD 0 &&& 1
  index : pad.index.toNat = readsSinceEdge i past % 8
  buttons : ∀ key < 8, pad.buttons.toNat.testBit key = held i key past

variable {pad : Controller} {past : List Event}

theorem Agrees.nil (i : Fin 2) : Agrees ⟨0, 0, 0⟩ i [] :=
  ⟨rfl, rfl, fun key _ => Nat.zero_testBit key⟩

/-- The controller has the bit of the last strobe, and so it sees every edge. -/
theorem Agrees.edge_iff (h : Agrees pad i past) (value : UInt8) :
    strobeEdge past (.write 0x4016 value) = true ↔ pad.strobe = 1 ∧ value &&& 1 = 0 := by
  rw [h.strobe, strobeEdge]
  cases past.findSome? Event.strobed with
  | none => simp [Event.strobed]
  | some last => simp [Event.strobed, and_comm]

theorem Agrees.write_eq (h : Agrees pad i past) (value : UInt8) :
    pad.write value =
      if strobeEdge past (.write 0x4016 value) = true then
        { pad with index := 0, strobe := value &&& 1 }
      else { pad with strobe := value &&& 1 } := by
  simp only [h.edge_iff]
  rfl

theorem Agrees.read (h : Agrees pad i past) (a : UInt16) :
    Agrees ((Event.read a).onPad i pad) i (.read a :: past) := by
  have hedge : strobeEdge past (.read a) = false := rfl
  have hreads := readsSinceEdge_of_not_edge hedge i
  rw [Event.onPad]
  by_cases ha : a = padPort i
  · have hone : Event.reads (padPort i) (.read a) = true := beq_iff_eq.mpr ha
    rw [if_pos ha]
    refine ⟨h.strobe, ?_, h.buttons⟩
    rw [pad.toNat_index_read, h.index, hreads, hone, if_pos rfl, Nat.mod_add_mod]
  · have hnone : Event.reads (padPort i) (.read a) = false := beq_eq_false_iff_ne.mpr ha
    rw [if_neg ha]
    refine ⟨h.strobe, ?_, h.buttons⟩
    rw [h.index, hreads, hnone, if_neg Bool.false_ne_true, Nat.add_zero]

theorem Agrees.write (h : Agrees pad i past) (a : UInt16) (value : UInt8) :
    Agrees ((Event.write a value).onPad i pad) i (.write a value :: past) := by
  have hindex (hedge : strobeEdge past (.write a value) = false) :
      pad.index.toNat = readsSinceEdge i (.write a value :: past) % 8 := by
    rw [readsSinceEdge_of_not_edge hedge]
    exact h.index
  rw [Event.onPad]
  by_cases ha : a = 0x4016
  · subst ha
    rw [if_pos rfl, h.write_eq]
    cases hedge : strobeEdge past (.write 0x4016 value) with
    | true =>
      rw [if_pos rfl]
      refine ⟨rfl, ?_, h.buttons⟩
      rw [readsSinceEdge_of_edge hedge]
      rfl
    | false =>
      rw [if_neg Bool.false_ne_true]
      exact ⟨rfl, hindex hedge, h.buttons⟩
  · -- any other write is no strobe, and so it ends no count of reads
    have hsilent : Event.strobed (.write a value) = none := if_neg ha
    have hedge : strobeEdge past (.write a value) = false := by
      rw [strobeEdge, hsilent]
      rfl
    rw [if_neg ha]
    refine ⟨?_, hindex hedge, h.buttons⟩
    rw [List.findSome?_cons, hsilent]
    exact h.strobe

theorem Agrees.button (h : Agrees pad i past) (p : Nat) {key : UInt8} (hkey : key < 8)
    (pressed : Bool) :
    Agrees ((Event.button p key pressed).onPad i pad) i (.button p key pressed :: past) := by
  rw [Event.onPad]
  by_cases hp : p = i
  · obtain ⟨hindex, hstrobe⟩ := pad.setButton_others key pressed
    rw [if_pos hp]
    refine ⟨hstrobe.trans h.strobe, ?_, ?_⟩
    · rw [hindex]
      exact h.index
    · intro k hk
      rw [pad.testBit_setButton hkey pressed hk, h.buttons k hk, held, held, List.findSome?_cons]
      by_cases hat : key.toNat = k
      · simp [Event.sets, hp, hat]
      · simp [Event.sets, hat]
  · rw [if_neg hp]
    refine ⟨h.strobe, h.index, ?_⟩
    intro k hk
    rw [h.buttons k hk, held, held, List.findSome?_cons]
    simp [Event.sets, hp]

/-- Each event keeps a controller in agreement with its history. -/
theorem Agrees.run (h : Agrees pad i past) {event : Event}
    (hkey : ∀ p key pressed, event = .button p key pressed → key < 8) :
    Agrees (event.onPad i pad) i (event :: past) := by
  cases event with
  | read a => exact h.read a
  | write a value => exact h.write a value
  | vblank on => exact ⟨h.strobe, h.index, h.buttons⟩
  | button p key pressed => exact h.button p (hkey p key pressed rfl) pressed

theorem agrees_afterEvents (video : VideoSpace) {events : List Event}
    (hkeys : ∀ p key pressed, Event.button p key pressed ∈ events → key < 8) (i : Fin 2) :
    Agrees ((afterEvents video events).pad i) i events.reverse := by
  induction events using List.reverseRecOn with
  | nil =>
    match i with
    | 0 => exact Agrees.nil 0
    | 1 => exact Agrees.nil 1
  | append_singleton events event ih =>
    -- the last event is the newest of the history
    rw [afterEvents_concat, List.reverse_concat, (wired_afterEvents video events).pad_run]
    have hbefore := ih fun p key pressed hmem => hkeys p key pressed (List.mem_append_left _ hmem)
    refine hbefore.run fun p key pressed hevent => ?_
    exact hkeys p key pressed (List.mem_append_right _ (hevent ▸ List.mem_singleton_self _))

/-! ### Reads -/

theorem Agrees.index_lt (h : Agrees pad i past) : pad.index < 8 := by
  rw [UInt8.lt_iff_toNat_lt, h.index]
  exact Nat.mod_lt _ (by decide)

/-- A read tells the button that the history asks for. -/
theorem Agrees.read_fst (h : Agrees pad i past) :
    pad.read.1 = if held i (readsSinceEdge i past % 8) past then 1 else 0 := by
  rw [pad.read_fst h.index_lt, h.index, h.buttons _ (Nat.mod_lt _ (by decide))]

/-- A strobe edge goes back to the first button. -/
theorem Agrees.index_of_edge (h : Agrees pad i past) {event : Event}
    (hedge : strobeEdge past event = true) : (event.onPad i pad).index = 0 := by
  cases event with
  | write a value =>
    by_cases ha : a = 0x4016
    · subst ha
      rw [Event.onPad, if_pos rfl, h.write_eq, if_pos hedge]
    · rw [strobeEdge, Event.strobed, if_neg ha] at hedge
      cases hedge
  | read _ | vblank _ | button _ _ _ => cases hedge

/-- Only a read of its own port and a strobe edge move a controller to another button. -/
theorem Agrees.index_of_not_edge (h : Agrees pad i past) {event : Event}
    (hedge : strobeEdge past event = false) (hread : event ≠ .read (padPort i)) :
    (event.onPad i pad).index = pad.index := by
  cases event with
  | read a =>
    rw [Event.onPad, if_neg fun ha => hread (congrArg Event.read ha)]
  | write a value =>
    rw [Event.onPad]
    split
    · next ha =>
      subst ha
      rw [h.write_eq, hedge, if_neg Bool.false_ne_true]
    · rfl
  | vblank on => rfl
  | button p key pressed =>
    rw [Event.onPad]
    split
    · exact (pad.setButton_others key pressed).1
    · rfl

/-- **What the controllers tell.**  Take any history from power on whose button numbers are below
eight, and the number, modulo eight, of reads of a controller's port since the last strobe edge.  The
next read of that port delivers one if the controller's button of this number is held, and zero
otherwise.  A strobe edge makes the number zero for both controllers, and no other event but a read
of the port changes it. -/
theorem controllers_tell_buttons (video : VideoSpace) (events : List Event)
    (hkeys : ∀ p key pressed, Event.button p key pressed ∈ events → key < 8) (i : Fin 2) :
    let bus := afterEvents video events
    let past := events.reverse
    (bus.pad i).index < 8 ∧ (bus.pad i).index.toNat = readsSinceEdge i past % 8 ∧
    Bus.read (padPort i) bus =
      .ok (if held i (readsSinceEdge i past % 8) past then 1 else 0) (bus.read (padPort i)).2 ∧
    ∀ event : Event,
      (strobeEdge past event = true → ((event.run bus).pad i).index = 0) ∧
      (strobeEdge past event = false → event ≠ .read (padPort i) →
        ((event.run bus).pad i).index = (bus.pad i).index) := by
  intro bus past
  have hwired : bus.Wired := wired_afterEvents video events
  have hagrees : Agrees (bus.pad i) i past := agrees_afterEvents video hkeys i
  refine ⟨hagrees.index_lt, hagrees.index, ?_, ?_⟩
  · show EStateM.Result.ok (bus.read (padPort i)).1 (bus.read (padPort i)).2 = _
    rw [hwired.read_padPort, hagrees.read_fst]
  · intro event
    rw [hwired.pad_run]
    exact ⟨hagrees.index_of_edge, hagrees.index_of_not_edge⟩

/-- Start is pressed and the strobe raised; a transfer of the page of the ports and a read of the
other controller do not keep the lowered strobe from going back to the first button.  After three
reads the next one tells Start. -/
theorem start_told_fourth :
    let events := [.button 0 3 true, .read 0x4016, .write 0x4016 0x01, .write 0x4014 0x40,
      .read 0x4017, .write 0x4016 0xFE, .read 0x4016, .read 0x4016, .write 0x4017 0x00,
      .read 0x4016]
    let bus := afterEvents (VideoSpace.wired .horizontal) events
    (bus.pad 0).index.toNat = 3 ∧ (bus.pad 1).index.toNat = 0 ∧
      (∃ after, Bus.read 0x4016 bus = .ok 1 after) ∧
      (((Event.write 0x4016 0x00).run bus).pad 0).index = (bus.pad 0).index := by
  intro events
  have hkeys : ∀ p key pressed, Event.button p key pressed ∈ events → key < 8 := by
    intro p key pressed hmem
    have hpressed : p = 0 ∧ key = 3 ∧ pressed = true := by simpa [events] using hmem
    rw [hpressed.2.1]
    decide
  have hany (video : VideoSpace) : let bus := afterEvents video events
      (bus.pad 0).index.toNat = 3 ∧ (bus.pad 1).index.toNat = 0 ∧
        (∃ after, Bus.read 0x4016 bus = .ok 1 after) ∧
        (((Event.write 0x4016 0x00).run bus).pad 0).index = (bus.pad 0).index := by
    obtain ⟨-, hfirst, hread, hkeeps⟩ := controllers_tell_buttons video events hkeys 0
    obtain ⟨-, hsecond, -⟩ := controllers_tell_buttons video events hkeys 1
    have hpressed : held 0 (readsSinceEdge 0 events.reverse % 8) events.reverse = true := by decide
    rw [if_pos hpressed] at hread
    refine ⟨hfirst.trans (by decide), hsecond.trans (by decide), ⟨_, hread⟩, ?_⟩
    exact (hkeeps _).2 (by decide) Event.noConfusion
  exact hany _

end SystemBus

end NesMachine
