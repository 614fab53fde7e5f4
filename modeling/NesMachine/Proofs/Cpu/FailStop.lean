import NesMachine.Bus.Memory
import NesMachine.Bus.Recorder
import NesMachine.Proofs.Cpu.Composition
import NesMachine.Proofs.Cpu.StackRoom

/-!
# Stopping at a fault of the bus

When the bus refuses an access, the processor stops at once: it makes no further access, and the cycle
total stays as it was.  To say so, this file compares two calls that start alike, one behind a
recorder that faults nowhere and one behind a recorder that faults at chosen addresses.

* `Makes bus log bus'`: the accesses of a log, made one after the other, take the bus from one state to
  the other and deliver the bytes that the log names;
* `Course`: what an action does without faults, and that the first access to be refused cuts it off;
  `Composed.courses` finds it for every composed action, by the way it is put together;
* `calls_fail_stop`: an instruction, an interrupt and a reset are cut off at the first fault.
-/

namespace NesMachine

instance : TotalBus Memory where
  read_ok a memory := ⟨memory[a], memory, rfl⟩
  write_ok a value memory := ⟨memory.set a value, rfl⟩

namespace BusAccess

/-- Where an access goes. -/
def address : BusAccess → UInt16
  | read a _ => a
  | write a _ => a

/-- Whether an access is refused when the given addresses fault. -/
def refused (faults : List UInt32) (entry : BusAccess) : Bool :=
  faults.contains entry.address.toUInt32

/-- The fault that a refused access causes. -/
def refusal (entry : BusAccess) : Fault := .bus (.addressOutOfRange entry.address.toUInt32)

theorem refused_nil (entry : BusAccess) : entry.refused [] = false := rfl

end BusAccess

variable {β : Type} [Bus β] {α γ : Type}

/-! ### Logs -/

/-- The accesses of a log take the bus from the first state to the second. -/
inductive Makes : β → List BusAccess → β → Prop
  | nothing (bus : β) : Makes bus [] bus
  | read {a : UInt16} {value : UInt8} {bus mid bus' : β} {later : List BusAccess} :
      Bus.read a bus = .ok value mid → Makes mid later bus' → Makes bus (.read a value :: later) bus'
  | write {a : UInt16} {value : UInt8} {bus mid bus' : β} {later : List BusAccess} :
      Bus.write a value bus = .ok () mid → Makes mid later bus' →
        Makes bus (.write a value :: later) bus'

theorem Makes.append {bus mid bus' : β} {log later : List BusAccess} (h : Makes bus log mid)
    (hlater : Makes mid later bus') : Makes bus (log ++ later) bus' := by
  induction h with
  | nothing => exact hlater
  | read hread _ ih => exact .read hread (ih hlater)
  | write hwrite _ ih => exact .write hwrite (ih hlater)

/-- An entry of two logs in a row belongs to the first or to the second. -/
theorem append_split {first second before later : List BusAccess} {entry : BusAccess}
    (h : first ++ second = before ++ entry :: later) :
    (∃ rest, first = before ++ entry :: rest) ∨
      ∃ rest, before = first ++ rest ∧ second = rest ++ entry :: later := by
  obtain ⟨rest, hbefore, hsecond⟩ | ⟨rest, hfirst, hrest⟩ := List.append_eq_append_iff.mp h
  · exact .inr ⟨rest, hbefore, hsecond⟩
  · cases rest with
    | nil =>
      rw [List.append_nil] at hfirst
      refine .inr ⟨[], ?_, hrest.symm⟩
      rw [hfirst, List.append_nil]
    | cons e rest =>
      rw [List.cons_append, List.cons.injEq] at hrest
      obtain ⟨rfl, -⟩ := hrest
      exact .inl ⟨rest, hfirst⟩

namespace Board

open Attempt

/-! ### Courses -/

/-- Unless an access is refused, the action makes the given accesses and ends with the given result;
at the first one that is refused it ends with the error of the bus. -/
structure Course (x : Run (Recorder β) α) (cpu : Cpu) (bus : β) (made : List BusAccess)
    (result : Except Fault α) (cpu' : Cpu) (bus' : β) : Prop where
  makes : Makes bus made bus'
  completes : ∀ faults history, (∀ entry ∈ made, entry.refused faults = false) →
    x ⟨cpu, ⟨bus, faults, history⟩⟩ =
      ended result ⟨cpu', ⟨bus', faults, made.reverse ++ history⟩⟩
  stops : ∀ faults history before entry later, made = before ++ entry :: later →
    (∀ e ∈ before, e.refused faults = false) → entry.refused faults = true →
    ∃ cpu' bus', x ⟨cpu, ⟨bus, faults, history⟩⟩ =
      .error entry.refusal ⟨cpu', ⟨bus', faults, before.reverse ++ history⟩⟩ ∧
      Makes bus before bus'

/-- From every processor and every bus, the action has a course. -/
def Courses (x : Run (Recorder β) α) : Prop :=
  ∀ cpu bus, ∃ made result cpu' bus', Course x cpu bus made result cpu' bus'

/-- An action of the processor alone. -/
theorem Courses.of_silent {x : Run (Recorder β) α} (result : Cpu → Except Fault α) (g : Cpu → Cpu)
    (hx : ∀ cpu recorder, x ⟨cpu, recorder⟩ = ended (result cpu) ⟨g cpu, recorder⟩) : Courses x := by
  intro cpu bus
  refine ⟨[], result cpu, g cpu, bus, .nothing bus, ?_, ?_⟩
  · intro faults history _
    exact hx cpu _
  · intro faults history before entry later hmade
    simp at hmade

/-- A single access to a bus that grants it. -/
theorem Course.access {run : Attempt BusError β α} (entry : α → BusAccess) {a : UInt16} {value : α}
    {bus bus' : β} (hrun : run bus = .ok value bus') (ha : (entry value).address = a)
    (hmakes : Makes bus [entry value] bus') (cpu : Cpu) :
    Course (onBus (Recorder.access a run entry)) cpu bus [entry value] (.ok value) cpu bus' := by
  refine ⟨hmakes, ?_, ?_⟩
  · intro faults history hfree
    have hgranted : faults.contains a.toUInt32 = false := by
      rw [← ha]
      exact hfree _ (List.mem_singleton_self _)
    refine onBus_eq_ok.mpr ⟨_, Recorder.access_eq_ok.mpr ⟨hgranted, bus', hrun, rfl⟩, rfl⟩
  · intro faults history before e later hmade _ hrefused
    obtain ⟨rfl, rfl⟩ : before = [] ∧ e = entry value := by
      cases before with
      | nil => exact ⟨rfl, (List.cons.inj hmade).1.symm⟩
      | cons first before => simp at hmade
    have hfault : faults.contains a.toUInt32 = true := by
      rw [← ha]
      exact hrefused
    refine ⟨cpu, bus, ?_, .nothing bus⟩
    rw [onBus, Recorder.access, if_pos hfault, ← ha]
    rfl

/-- If the first part of a sequence ends with an error, its course is that of the sequence. -/
theorem Course.bind_error {x : Run (Recorder β) α} {f : α → Run (Recorder β) γ} {cpu cpu' : Cpu}
    {bus bus' : β} {made : List BusAccess} {e : Fault}
    (h : Course x cpu bus made (.error e) cpu' bus') :
    Course (x >>= f) cpu bus made (.error e) cpu' bus' := by
  refine ⟨h.makes, ?_, ?_⟩
  · intro faults history hfree
    rw [Attempt.bind_apply, h.completes faults history hfree]
    rfl
  · intro faults history before entry later hmade hbefore hrefused
    obtain ⟨cpu'', bus'', herror, hmakes⟩ :=
      h.stops faults history before entry later hmade hbefore hrefused
    refine ⟨cpu'', bus'', ?_, hmakes⟩
    rw [Attempt.bind_apply, herror]

/-- Otherwise the courses of both parts follow each other, and a fault cuts off one or the other. -/
theorem Course.bind_ok {x : Run (Recorder β) α} {f : α → Run (Recorder β) γ} {a : α}
    {result : Except Fault γ} {cpu cpu₁ cpu₂ : Cpu} {bus bus₁ bus₂ : β}
    {first second : List BusAccess} (hfirst : Course x cpu bus first (.ok a) cpu₁ bus₁)
    (hsecond : Course (f a) cpu₁ bus₁ second result cpu₂ bus₂) :
    Course (x >>= f) cpu bus (first ++ second) result cpu₂ bus₂ := by
  refine ⟨hfirst.makes.append hsecond.makes, ?_, ?_⟩
  · intro faults history hfree
    have hfirstFree : ∀ entry ∈ first, entry.refused faults = false :=
      fun entry hentry => hfree entry (List.mem_append_left _ hentry)
    have hsecondFree : ∀ entry ∈ second, entry.refused faults = false :=
      fun entry hentry => hfree entry (List.mem_append_right _ hentry)
    rw [Attempt.bind_apply, hfirst.completes faults history hfirstFree]
    refine (hsecond.completes faults _ hsecondFree).trans ?_
    rw [List.reverse_append, List.append_assoc]
  · intro faults history before entry later hmade hbefore hrefused
    rw [Attempt.bind_apply]
    obtain ⟨rest, hrest⟩ | ⟨rest, rfl, hrest⟩ := append_split hmade
    · obtain ⟨cpu', bus', herror, hmakes⟩ :=
        hfirst.stops faults history before entry rest hrest hbefore hrefused
      refine ⟨cpu', bus', ?_, hmakes⟩
      rw [herror]
    · -- nothing is refused in the first part, which has come to its end
      have hfirstFree : ∀ e ∈ first, e.refused faults = false :=
        fun e he => hbefore e (List.mem_append_left _ he)
      have hrestFree : ∀ e ∈ rest, e.refused faults = false :=
        fun e he => hbefore e (List.mem_append_right _ he)
      obtain ⟨cpu', bus', herror, hmakes⟩ :=
        hsecond.stops faults (first.reverse ++ history) rest entry later hrest hrestFree hrefused
      refine ⟨cpu', bus', ?_, hfirst.makes.append hmakes⟩
      rw [hfirst.completes faults history hfirstFree]
      refine herror.trans ?_
      rw [List.reverse_append, List.append_assoc]

theorem Courses.bind {x : Run (Recorder β) α} {f : α → Run (Recorder β) γ} (hx : Courses x)
    (hf : ∀ a, Courses (f a)) : Courses (x >>= f) := by
  intro cpu bus
  obtain ⟨first, result, cpu₁, bus₁, hfirst⟩ := hx cpu bus
  cases result with
  | error e => exact ⟨first, .error e, cpu₁, bus₁, hfirst.bind_error⟩
  | ok a =>
    obtain ⟨second, result, cpu₂, bus₂, hsecond⟩ := hf a cpu₁ bus₁
    exact ⟨first ++ second, result, cpu₂, bus₂, hfirst.bind_ok hsecond⟩

variable [TotalBus β]

/-- **Composed actions have a course**, because their parts do. -/
theorem Composed.courses {x : Run (Recorder β) α} (hx : Composed x) : Courses x := by
  induction hx with
  | pure a => exact .of_silent (fun _ => .ok a) id fun _ _ => rfl
  | fault e => exact .of_silent (fun _ => .error e) id fun _ _ => rfl
  | registers => exact .of_silent (fun cpu => .ok cpu.regs) id fun _ _ => rfl
  | change f =>
    exact .of_silent (fun _ => .ok ()) (fun cpu => ⟨f cpu.regs, cpu.cycles⟩)
      fun _ _ => rfl
  | read a =>
    intro cpu bus
    obtain ⟨value, bus', hread⟩ := TotalBus.read_ok a bus
    exact ⟨_, _, _, _, .access (.read a) hread rfl (.read hread (.nothing bus')) cpu⟩
  | write a value =>
    intro cpu bus
    obtain ⟨bus', hwrite⟩ := TotalBus.write_ok a value bus
    exact ⟨_, _, _, _,
      .access (fun _ => .write a value) hwrite rfl (.write hwrite (.nothing bus')) cpu⟩
  | bind _ _ ihx ihf => exact ihx.bind ihf

theorem Booked.courses {x : Run (Recorder β) α} (hx : Booked x) : Courses x := by
  induction hx with
  | composed hx => exact hx.courses
  | books a count hbooks =>
    exact .of_silent (fun _ => .ok a) (fun cpu => ⟨cpu.regs, cpu.cycles + count⟩)
      fun cpu recorder => hbooks ⟨cpu, recorder⟩
  | after hx _ ih => exact hx.courses.bind ih

/-! ### The calls of a processor -/

/-- A processor and a bus that faults at the given addresses, with nothing logged yet. -/
def faulting (cpu : Cpu) (bus : β) (faults : List UInt32) : Board (Recorder β) :=
  ⟨cpu, ⟨bus, faults, []⟩⟩

/-- What faults at the given addresses make of a call.  If the call without faults does not access
them, nothing changes.  Otherwise the call ends with the error of the first access to one of them: the
accesses before that have been made, in their order and with their bytes, no other, and the cycle total
is the one at the start. -/
structure FailStop (x : Run (Recorder β) α) (cpu : Cpu) (bus : β) (faults : List UInt32) : Prop where
  same : (∀ entry ∈ (x.after (faulting cpu bus [])).bus.log, entry.refused faults = false) →
    x.outcome (faulting cpu bus faults) = x.outcome (faulting cpu bus []) ∧
    (x.after (faulting cpu bus faults)).cpu = (x.after (faulting cpu bus [])).cpu ∧
    (x.after (faulting cpu bus faults)).bus.bus = (x.after (faulting cpu bus [])).bus.bus ∧
    (x.after (faulting cpu bus faults)).bus.log = (x.after (faulting cpu bus [])).bus.log
  stopped : ∀ before entry later,
    (x.after (faulting cpu bus [])).bus.log = before ++ entry :: later →
    (∀ e ∈ before, e.refused faults = false) → entry.refused faults = true →
    x.outcome (faulting cpu bus faults) =
      .error (.bus (.addressOutOfRange entry.address.toUInt32)) ∧
    (x.after (faulting cpu bus faults)).bus.log = before ∧
    Makes bus before (x.after (faulting cpu bus faults)).bus.bus ∧
    (x.after (faulting cpu bus faults)).cpu.cycles = cpu.cycles

/-- Since the cycles are booked last, a call that is cut off has booked none. -/
theorem Booked.failStop {x : Run (Recorder β) α} (hx : Booked x) (cpu : Cpu) (bus : β)
    (faults : List UInt32) : FailStop x cpu bus faults := by
  obtain ⟨made, result, cpu', bus', hcourse⟩ := hx.courses cpu bus
  obtain ⟨hresult, hafter⟩ := of_eq_ended
    (hcourse.completes [] [] fun entry _ => entry.refused_nil)
  have hlog (recorder : Recorder β) (log : List BusAccess)
      (h : recorder.history = log.reverse ++ []) : recorder.log = log := by
    rw [Recorder.log, h, List.append_nil, List.reverse_reverse]
  have hmade : (x.after (faulting cpu bus [])).bus.log = made :=
    hlog _ _ (congrArg (fun board => board.bus.history) hafter)
  constructor
  · intro hfree
    rw [hmade] at hfree
    obtain ⟨hsame, hend⟩ := of_eq_ended (hcourse.completes faults [] hfree)
    simp only [faulting, hsame, hend, hresult, hafter]
    exact ⟨trivial, trivial, trivial, rfl⟩
  · intro before entry later hsplit hbefore hrefused
    rw [hmade] at hsplit
    obtain ⟨cpu'', bus'', herror, hmakes⟩ :=
      hcourse.stops faults [] before entry later hsplit hbefore hrefused
    have hcut : x (faulting cpu bus faults) = ended (.error entry.refusal) _ := herror
    obtain ⟨hstopped, hend⟩ := of_eq_ended hcut
    have hspared := hx.spares_total _ _ hstopped
    rw [hstopped]
    rw [hend] at hspared ⊢
    exact ⟨rfl, hlog _ _ rfl, hmakes, hspared⟩

/-- **Fail-stop.**  On a bus that refuses nothing by itself, faults at any addresses cut off an
instruction, an interrupt and a reset at the first access that they refuse. -/
theorem calls_fail_stop (cpu : Cpu) (bus : β) (faults : List UInt32) :
    FailStop execute cpu bus faults ∧ FailStop nmi cpu bus faults ∧ FailStop reset cpu bus faults :=
  ⟨booked_execute.failStop cpu bus faults, booked_nmi.failStop cpu bus faults,
    booked_reset.failStop cpu bus faults⟩

/-- A reset of a memory whose vector lies half on a faulting address: the low byte of the vector has
been read, and no cycles are booked. -/
theorem reset_stops_within_vector :
    reset.outcome (faulting Cpu.powerOn Memory.zeros [0xFFFD]) =
      .error (.bus (.addressOutOfRange 0xFFFD)) ∧
    (reset.after (faulting Cpu.powerOn Memory.zeros [0xFFFD])).bus.log = [.read 0xFFFC 0] ∧
    (reset.after (faulting Cpu.powerOn Memory.zeros [0xFFFD])).cpu.cycles = 0 := by
  have hlog : (reset.after (faulting Cpu.powerOn Memory.zeros [])).bus.log =
      [.read 0xFFFC 0] ++ .read 0xFFFD 0 :: [] := by
    have hzero (a : UInt16) : Memory.zeros[a] = 0 := Cells.getElem_fill 0 a
    generalize Memory.zeros = memory at hzero
    have hcall : reset (faulting Cpu.powerOn memory []) = .ok () ⟨_, ⟨memory, [],
        [.read 0xFFFD memory[(0xFFFD : UInt16)], .read 0xFFFC memory[(0xFFFC : UInt16)]]⟩⟩ :=
      reset_eq_ok.mpr ⟨_, _, _, rfl, rfl, rfl⟩
    rw [Attempt.after, hcall, hzero, hzero]
    rfl
  obtain ⟨-, -, hreset⟩ := calls_fail_stop Cpu.powerOn Memory.zeros [0xFFFD]
  obtain ⟨herror, hbefore, -, hcycles⟩ := hreset.stopped _ _ [] hlog (by decide) (by decide)
  exact ⟨herror, hbefore, hcycles⟩

end Board

end NesMachine
