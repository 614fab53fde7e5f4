import NesMachine.Bus.Basic

/-!
# Recorded traffic

A recorder stands in front of a bus and keeps a log of the accesses that succeed. It can be
told to fault at chosen addresses; an access there never reaches the bus and leaves no
entry. The log tells what a processor did to a bus, and in which order.
-/

namespace NesMachine

/-- One successful bus access. -/
inductive BusAccess where
  | read (address : UInt16) (value : UInt8)
  | write (address : UInt16) (value : UInt8)
deriving DecidableEq

/-- A bus together with the accesses made to it. -/
structure Recorder (β : Type) where
  /-- The bus behind the recorder. -/
  bus : β
  /-- The numbers of the addresses at which every access faults; one above `$FFFF` has no
  effect. -/
  faults : List UInt32 := []
  /-- The successful accesses, latest first. -/
  history : List BusAccess := []

namespace Recorder

variable {β : Type}

/-- The successful accesses in the order in which they were made. -/
def log (recorder : Recorder β) : List BusAccess := recorder.history.reverse

/-- Forgets the accesses made so far. -/
def clear : Recorder β → Recorder β
  | ⟨bus, faults, _⟩ => ⟨bus, faults, []⟩

/-- Lets an access through to the bus unless its address faults, and records it. -/
def access {α : Type} (address : UInt16) (run : Attempt BusError β α) (entry : α → BusAccess) :
    Attempt BusError (Recorder β) α
  | ⟨bus, faults, history⟩ =>
    if faults.contains address.toUInt32 then
      .error (.addressOutOfRange address.toUInt32) ⟨bus, faults, history⟩
    else
      match run bus with
      | .ok a bus => .ok a ⟨bus, faults, entry a :: history⟩
      | .error e bus => .error e ⟨bus, faults, history⟩

theorem access_eq_ok {α : Type} {a : UInt16} {run : Attempt BusError β α} {entry : α → BusAccess}
    {recorder recorder' : Recorder β} {value : α} :
    access a run entry recorder = .ok value recorder' ↔
      recorder.faults.contains a.toUInt32 = false ∧ ∃ bus, run recorder.bus = .ok value bus ∧
        recorder' = ⟨bus, recorder.faults, entry value :: recorder.history⟩ := by
  obtain ⟨bus, faults, history⟩ := recorder
  rw [access]
  cases hfault : faults.contains a.toUInt32 with
  | true => simp
  | false =>
    cases hrun : run bus with
    | error e bus' => simp
    | ok value' bus' =>
      simp only [Bool.false_eq_true, if_false, true_and, EStateM.Result.ok.injEq]
      refine ⟨?_, ?_⟩
      · intro h
        obtain ⟨rfl, rfl⟩ := h
        exact ⟨bus', ⟨rfl, rfl⟩, rfl⟩
      · intro hparts
        obtain ⟨bus'', ⟨rfl, rfl⟩, rfl⟩ := hparts
        exact ⟨rfl, rfl⟩

instance [Bus β] : Bus (Recorder β) where
  read a := access a (Bus.read a) (.read a)
  write a value := access a (Bus.write a value) (fun _ => .write a value)

end Recorder

end NesMachine
