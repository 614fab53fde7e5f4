import NesMachine.Device.SystemBus
import NesMachine.Proofs.Cpu.Frames

/-!
# Room on the stack

A push needs a free slot below the stack pointer and a pull a slot above it.  On a bus that refuses no
access nothing else can go wrong, so that whether an action succeeds is a matter of counting.

* `Delivers P x`: the action always succeeds, delivers a value in `P` and keeps the stack pointer;
* `Takes room full n x`: the action succeeds exactly if there is room for `n` bytes, takes that room,
  and otherwise ends with the fault `full`; the room of a sequence is the sum of what its parts take
  (`Takes.bind`);
* `pushes_call`, `pushes_softwareInterrupt`, `pushes_nmi`, `pulls_leaveCall`, `pulls_leaveInterrupt`:
  what calls, interrupts and their returns take.
-/

namespace NesMachine

/-- A bus that refuses no access. -/
class TotalBus (β : Type) [Bus β] : Prop where
  read_ok : ∀ (a : UInt16) (bus : β), ∃ value bus', Bus.read a bus = .ok value bus'
  write_ok : ∀ (a : UInt16) (value : UInt8) (bus : β), ∃ bus', Bus.write a value bus = .ok () bus'

instance : TotalBus SystemBus where
  read_ok _ _ := ⟨_, _, rfl⟩
  write_ok _ _ _ := ⟨_, rfl⟩

namespace Board

variable {β : Type} {α γ : Type} {P : α → Prop} {Q : γ → Prop} {x : Run β α} {f : α → Run β γ}

/-! ### Actions that cannot fail -/

/-- The action succeeds, delivers a value in `P` and keeps the stack pointer. -/
def Delivers (P : α → Prop) (x : Run β α) : Prop :=
  ∀ board, ∃ a after, x board = .ok a after ∧ P a ∧ after.cpu.regs.s = board.cpu.regs.s

theorem delivers_pure {a : α} (ha : P a) : Delivers P (pure a : Run β α) :=
  fun board => ⟨a, board, rfl, ha, rfl⟩

theorem delivers_return (a : α) : Delivers (fun _ => True) (pure a : Run β α) :=
  delivers_pure trivial

theorem Delivers.bind (hx : Delivers P x) (hf : ∀ a, P a → Delivers Q (f a)) :
    Delivers Q (x >>= f) := by
  intro board
  obtain ⟨a, mid, hfirst, ha, hmid⟩ := hx board
  obtain ⟨c, after, hsecond, hc, hafter⟩ := hf a ha mid
  exact ⟨c, after, Attempt.bind_eq_ok.mpr ⟨a, mid, hfirst, hsecond⟩, hc, hafter.trans hmid⟩

theorem delivers_registers : Delivers (fun _ => True) (registers : Run β Registers) :=
  fun board => ⟨_, board, rfl, trivial, rfl⟩

theorem delivers_change {g : Registers → Registers} (hg : ∀ regs, (g regs).s = regs.s) :
    Delivers (fun _ => True) (change g : Run β Unit) :=
  fun board => ⟨_, _, rfl, trivial, hg board.cpu.regs⟩

theorem delivers_jumpTo (pc : UInt16) : Delivers (fun _ => True) (jumpTo pc : Run β Unit) :=
  delivers_change fun _ => rfl

theorem delivers_spend (count : Nat) : Delivers (fun _ => True) (spend count : Run β Unit) :=
  fun _ => ⟨_, _, rfl, trivial, rfl⟩

section Total

variable [Bus β] [TotalBus β]

theorem delivers_read (a : UInt16) : Delivers (fun _ => True) (read a : Run β UInt8) := by
  intro board
  obtain ⟨value, bus, hread⟩ := TotalBus.read_ok a board.bus
  exact ⟨value, _, onBus_eq_ok.mpr ⟨bus, hread, rfl⟩, trivial, rfl⟩

theorem delivers_write (a : UInt16) (value : UInt8) :
    Delivers (fun _ => True) (write a value : Run β Unit) := by
  intro board
  obtain ⟨bus, hwrite⟩ := TotalBus.write_ok a value board.bus
  exact ⟨(), _, onBus_eq_ok.mpr ⟨bus, hwrite, rfl⟩, trivial, rfl⟩

theorem delivers_readPair (low high : UInt16) :
    Delivers (fun _ => True) (readPair low high : Run β UInt16) :=
  (delivers_read low).bind fun _ _ => (delivers_read high).bind fun _ _ => delivers_return _

theorem delivers_fetch : Delivers (fun _ => True) (fetch : Run β UInt8) := by
  refine delivers_registers.bind fun regs _ => (delivers_read regs.pc).bind fun value _ => ?_
  refine Delivers.bind (delivers_change ?_) fun _ _ => delivers_return _
  intro regs
  rfl

theorem delivers_fetchWord : Delivers (fun _ => True) (fetchWord : Run β UInt16) :=
  delivers_fetch.bind fun _ _ => delivers_fetch.bind fun _ _ => delivers_return _

end Total

/-! ### Counting -/

/-- With room for `n` bytes the action succeeds and takes that room; without, it ends with a
fault. -/
structure Takes (room : UInt8 → Nat) (full : Fault) (n : Nat) (x : Run β α) : Prop where
  succeeds : ∀ board, n ≤ room board.cpu.regs.s →
    ∃ a after, x board = .ok a after ∧ room after.cpu.regs.s + n = room board.cpu.regs.s
  faults : ∀ board, room board.cpu.regs.s < n → ∃ left, x board = .error full left

variable {room : UInt8 → Nat} {full : Fault} {m n : Nat}

theorem Delivers.takes (hx : Delivers P x) : Takes room full 0 x := by
  constructor
  · intro board _
    obtain ⟨a, after, hok, -, hs⟩ := hx board
    exact ⟨a, after, hok, congrArg room hs⟩
  · intro board hroom
    exact absurd hroom (Nat.not_lt_zero _)

/-- The second action finds the room that the first has left. -/
theorem Takes.bind (hx : Takes room full m x) (hf : ∀ a, Takes room full n (f a)) :
    Takes room full (n + m) (x >>= f) := by
  constructor
  · intro board hroom
    obtain ⟨a, mid, hfirst, hmid⟩ := hx.succeeds board (by omega)
    obtain ⟨c, after, hsecond, hafter⟩ := (hf a).succeeds mid (by omega)
    exact ⟨c, after, Attempt.bind_eq_ok.mpr ⟨a, mid, hfirst, hsecond⟩, by omega⟩
  · intro board hroom
    rw [Attempt.bind_apply]
    by_cases hfirst : room board.cpu.regs.s < m
    · obtain ⟨left, herror⟩ := hx.faults board hfirst
      rw [herror]
      exact ⟨left, rfl⟩
    · obtain ⟨a, mid, hok, hmid⟩ := hx.succeeds board (by omega)
      rw [hok]
      exact (hf a).faults mid (by omega)

/-- An action that cannot fail takes nothing in front of another. -/
theorem Delivers.bind_takes (hx : Delivers P x) (hf : ∀ a, P a → Takes room full n (f a)) :
    Takes room full n (x >>= f) := by
  constructor
  · intro board hroom
    obtain ⟨a, mid, hfirst, ha, hmid⟩ := hx board
    rw [← hmid] at hroom ⊢
    obtain ⟨c, after, hsecond, hafter⟩ := (hf a ha).succeeds mid hroom
    exact ⟨c, after, Attempt.bind_eq_ok.mpr ⟨a, mid, hfirst, hsecond⟩, hafter⟩
  · intro board hroom
    obtain ⟨a, mid, hfirst, ha, hmid⟩ := hx board
    rw [← hmid] at hroom
    rw [Attempt.bind_apply, hfirst]
    exact (hf a ha).faults mid hroom

/-! ### Pushes -/

/-- The action pushes `n` bytes, as long as the stack pointer has not come down to zero. -/
abbrev Pushes (n : Nat) (x : Run β α) : Prop := Takes UInt8.toNat (.stackOverflow 0) n x

/-- The action pulls `n` bytes, as long as the stack pointer has not come up to `$FF`. -/
abbrev Pulls (n : Nat) (x : Run β α) : Prop :=
  Takes (fun s => 255 - s.toNat) (.stackUnderflow 0xFF) n x

variable [Bus β] [TotalBus β]

theorem pushes_push (value : UInt8) : Pushes 1 (push value : Run β Unit) := by
  constructor
  · intro board hroom
    have hs := ne_zero_iff.mpr hroom
    obtain ⟨bus, hwrite⟩ := TotalBus.write_ok board.cpu.regs.stackAddress value board.bus
    exact ⟨(), _, push_eq_ok.mpr ⟨hs, bus, hwrite, rfl⟩, toNat_pred hs⟩
  · intro board hroom
    have hs : board.cpu.regs.s = 0 := UInt8.toNat_inj.mp (Nat.lt_one_iff.mp hroom)
    exact ⟨board, push_full hs value⟩

theorem pushes_pushWord (value : UInt16) : Pushes 2 (pushWord value : Run β Unit) :=
  (pushes_push _).bind fun _ => pushes_push _

theorem pushes_enterHandler (back : UInt16) (status : Status → UInt8) (vector : UInt16) :
    Pushes 3 (enterHandler back status vector : Run β Unit) := by
  refine Takes.bind (pushes_pushWord back) fun _ => Delivers.bind_takes delivers_registers ?_
  intro regs _
  refine Takes.bind (pushes_push (status regs.p)) fun _ => Delivers.takes (P := fun _ => True) ?_
  refine Delivers.bind (delivers_change ?_) fun _ _ => ?_
  · intro regs
    rfl
  · exact (delivers_readPair vector (vector + 1)).bind fun pc _ => delivers_jumpTo pc

theorem pushes_softwareInterrupt : Pushes 3 (softwareInterrupt : Run β Unit) := by
  rw [softwareInterrupt_eq]
  exact delivers_registers.bind_takes fun _ _ => pushes_enterHandler _ _ _

/-- An interrupt sequence needs room for three bytes. -/
theorem pushes_nmi : Pushes 3 (nmi : Run β Unit) := by
  rw [nmi_eq]
  exact delivers_registers.bind_takes fun _ _ =>
    (pushes_enterHandler _ _ _).bind fun _ => (delivers_spend _).takes

omit [Bus β] [TotalBus β] in
theorem requireAddress_of_some {mnemonic : Mnemonic} {op : Operand} {a : UInt16}
    (h : op.address = some a) : (requireAddress mnemonic op : Run β UInt16) = pure a := by
  rw [requireAddress, h]

theorem pushes_call {mnemonic : Mnemonic} {op : Operand} {a : UInt16} (h : op.address = some a) :
    Pushes 2 (call mnemonic op : Run β Unit) := by
  rw [call, requireAddress_of_some h, pure_bind]
  exact delivers_registers.bind_takes fun _ _ =>
    (pushes_pushWord _).bind fun _ => (delivers_jumpTo a).takes

/-! ### Pulls -/

theorem pulls_pull : Pulls 1 (pull : Run β UInt8) := by
  constructor
  · intro board hroom
    have hs : board.cpu.regs.s ≠ 0xFF := ne_top_iff.mpr (by omega)
    obtain ⟨value, bus, hread⟩ := TotalBus.read_ok (wordOf (board.cpu.regs.s + 1) 1) board.bus
    refine ⟨value, _, pull_eq_ok.mpr ⟨hs, bus, hread, rfl⟩, ?_⟩
    have hsucc := toNat_succ hs
    show 255 - (board.cpu.regs.s + 1).toNat + 1 = 255 - board.cpu.regs.s.toNat
    omega
  · intro board hroom
    have htop : board.cpu.regs.s.toNat = 255 := by
      have hlt := board.cpu.regs.s.toNat_lt
      omega
    have hs : board.cpu.regs.s = 0xFF := UInt8.toNat_inj.mp htop
    exact ⟨board, pull_empty hs⟩

theorem pulls_pullWord : Pulls 2 (pullWord : Run β UInt16) :=
  pulls_pull.bind fun _ => pulls_pull.bind fun _ =>
    (delivers_return _).takes

theorem pulls_leaveCall : Pulls 2 (leaveCall : Run β Unit) :=
  pulls_pullWord.bind fun _ => (delivers_jumpTo _).takes

theorem pulls_leaveInterrupt : Pulls 3 (leaveInterrupt : Run β Unit) := by
  refine Takes.bind pulls_pull fun status => ?_
  refine Delivers.bind_takes (delivers_change ?_) fun _ _ => ?_
  · intro regs
    rfl
  · exact pulls_pullWord.bind fun pc => (delivers_jumpTo pc).takes

end Board

end NesMachine
