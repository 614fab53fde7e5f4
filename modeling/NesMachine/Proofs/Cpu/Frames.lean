import NesMachine.Proofs.Cpu.Footprint

/-!
# Words and frames on the stack

When does a push or a pull of more than one byte succeed, which slots does it access, and what
becomes of the registers?  `pushWord_eq_ok` and `pullWord_eq_ok` answer this for words, `call_eq_ok`
and `leaveCall_eq_ok` for calls and their returns, `nmi_eq_ok`, `softwareInterrupt_eq_ok` and
`reset_eq_ok` for interrupt sequences, and `leaveInterrupt_eq_ok` and `execute_rti_ok` for the return
from one.  `execute_rts` and `execute_rti` run the whole instructions that return.  An interrupt and
its return agree: what the one writes at a slot is what the other reads from it.
-/

namespace NesMachine

/-- The address of the slot that a stack pointer names. -/
def slotAddress (s : UInt8) : UInt16 := 0x0100 + s.toUInt16

theorem wordOf_one (s : UInt8) : wordOf s 1 = slotAddress s := rfl

theorem toNat_slotAddress (s : UInt8) : (slotAddress s).toNat = 256 + s.toNat := by
  rw [← wordOf_one, toNat_wordOf]
  rfl

theorem slotAddress_inj {s t : UInt8} (h : slotAddress s = slotAddress t) : s = t := by
  rw [← wordOf_one, ← wordOf_one] at h
  exact wordOf_inj h

/-- The status that a program pushes comes back without the break bit. -/
theorem Status.ofStack_pushedByProgram (p : Status) :
    ofStack p.pushedByProgram = ⟨(p.byte ||| Flag.unused) &&& ~~~Flag.breakMark⟩ := by
  have hbits (value : UInt8) :
      ((value ||| Flag.unused ||| Flag.breakMark) ||| Flag.unused) &&& ~~~Flag.breakMark
        = (value ||| Flag.unused) &&& ~~~Flag.breakMark := by
    obtain ⟨bits⟩ := value
    revert bits
    decide +kernel
  rw [ofStack, pushedByProgram, hbits]

/-- The status that an interrupt pushes comes back without the break bit. -/
theorem Status.ofStack_pushedByInterrupt (p : Status) :
    ofStack p.pushedByInterrupt = ⟨(p.byte ||| Flag.unused) &&& ~~~Flag.breakMark⟩ := by
  have hbits (value : UInt8) :
      ((value ||| Flag.unused) &&& ~~~Flag.breakMark ||| Flag.unused) &&& ~~~Flag.breakMark
        = (value ||| Flag.unused) &&& ~~~Flag.breakMark := by
    obtain ⟨bits⟩ := value
    revert bits
    decide +kernel
  rw [ofStack, pushedByInterrupt, hbits]

namespace Board

variable {β : Type} [Bus β] {board board' : Board β} {u : Unit}

/-! ### Words -/

theorem pushWord_eq_ok {value : UInt16} :
    pushWord value board = .ok u board' ↔
      2 ≤ board.cpu.regs.s.toNat ∧ ∃ bus₁ bus₂,
        Bus.write (wordOf board.cpu.regs.s 1) (highByte value) board.bus = .ok () bus₁ ∧
        Bus.write (wordOf (board.cpu.regs.s - 1) 1) (lowByte value) bus₁ = .ok () bus₂ ∧
        board' = ⟨⟨{ board.cpu.regs with s := board.cpu.regs.s - 2 }, board.cpu.cycles⟩, bus₂⟩ := by
  have hs₂ : board.cpu.regs.s - 2 = board.cpu.regs.s - 1 - 1 := by grind
  rw [hs₂]
  refine ⟨?_, ?_⟩
  · intro h
    obtain ⟨_, mid, hhigh, hlow⟩ := Attempt.bind_eq_ok.mp h
    obtain ⟨hs, bus₁, hwrite₁, rfl⟩ := push_eq_ok.mp hhigh
    obtain ⟨hs₁, bus₂, hwrite₂, rfl⟩ := push_eq_ok.mp hlow
    refine ⟨?_, bus₁, bus₂, hwrite₁, hwrite₂, rfl⟩
    have hpred := toNat_pred hs
    have hroom : 1 ≤ (board.cpu.regs.s - 1).toNat := ne_zero_iff.mp hs₁
    omega
  · intro hparts
    obtain ⟨hs, bus₁, bus₂, hwrite₁, hwrite₂, rfl⟩ := hparts
    have hs₀ : board.cpu.regs.s ≠ 0 := ne_zero_iff.mpr (by omega)
    have hpred := toNat_pred hs₀
    have hs₁ : board.cpu.regs.s - 1 ≠ 0 := ne_zero_iff.mpr (by omega)
    exact Attempt.bind_eq_ok.mpr ⟨(), _, push_eq_ok.mpr ⟨hs₀, bus₁, hwrite₁, rfl⟩,
      push_eq_ok.mpr ⟨hs₁, bus₂, hwrite₂, rfl⟩⟩

theorem pullWord_eq_ok {value : UInt16} :
    pullWord board = .ok value board' ↔
      board.cpu.regs.s.toNat + 2 ≤ 255 ∧ ∃ low high bus₁ bus₂,
        Bus.read (wordOf (board.cpu.regs.s + 1) 1) board.bus = .ok low bus₁ ∧
        Bus.read (wordOf (board.cpu.regs.s + 2) 1) bus₁ = .ok high bus₂ ∧
        value = wordOf low high ∧
        board' = ⟨⟨{ board.cpu.regs with s := board.cpu.regs.s + 2 }, board.cpu.cycles⟩, bus₂⟩ := by
  have hs₂ : board.cpu.regs.s + 2 = board.cpu.regs.s + 1 + 1 := by grind
  rw [hs₂]
  refine ⟨?_, ?_⟩
  · intro h
    obtain ⟨low, mid, hlow, h⟩ := Attempt.bind_eq_ok.mp h
    obtain ⟨hs, bus₁, hread₁, rfl⟩ := pull_eq_ok.mp hlow
    obtain ⟨high, mid', hhigh, hpure⟩ := Attempt.bind_eq_ok.mp h
    obtain ⟨hs₁, bus₂, hread₂, rfl⟩ := pull_eq_ok.mp hhigh
    cases hpure
    refine ⟨?_, low, high, bus₁, bus₂, hread₁, hread₂, rfl, rfl⟩
    have hsucc := toNat_succ hs
    have hroom : (board.cpu.regs.s + 1).toNat + 1 ≤ 255 := ne_top_iff.mp hs₁
    omega
  · intro hparts
    obtain ⟨hs, low, high, bus₁, bus₂, hread₁, hread₂, rfl, rfl⟩ := hparts
    have hs₀ : board.cpu.regs.s ≠ 0xFF := ne_top_iff.mpr (by omega)
    have hsucc := toNat_succ hs₀
    have hs₁ : board.cpu.regs.s + 1 ≠ 0xFF := ne_top_iff.mpr (by omega)
    refine Attempt.bind_eq_ok.mpr ⟨low, _, pull_eq_ok.mpr ⟨hs₀, bus₁, hread₁, rfl⟩, ?_⟩
    exact Attempt.bind_eq_ok.mpr ⟨high, _, pull_eq_ok.mpr ⟨hs₁, bus₂, hread₂, rfl⟩, rfl⟩

/-! ### Calls -/

/-- A call pushes the address of its last byte. -/
theorem call_eq_ok {m : Mnemonic} {op : Operand} :
    call m op board = .ok u board' ↔
      2 ≤ board.cpu.regs.s.toNat ∧ ∃ target bus₁ bus₂, op.address = some target ∧
        Bus.write (wordOf board.cpu.regs.s 1) (highByte (board.cpu.regs.pc - 1)) board.bus
          = .ok () bus₁ ∧
        Bus.write (wordOf (board.cpu.regs.s - 1) 1) (lowByte (board.cpu.regs.pc - 1)) bus₁
          = .ok () bus₂ ∧
        board' = ⟨⟨{ board.cpu.regs with s := board.cpu.regs.s - 2, pc := target },
          board.cpu.cycles⟩, bus₂⟩ := by
  refine ⟨?_, ?_⟩
  · intro h
    obtain ⟨target, mid, haddress, h⟩ := Attempt.bind_eq_ok.mp h
    obtain ⟨htarget, rfl⟩ := requireAddress_eq_ok.mp haddress
    obtain ⟨regs, mid, hregs, h⟩ := Attempt.bind_eq_ok.mp h
    cases hregs
    obtain ⟨_, mid, hpush, hjump⟩ := Attempt.bind_eq_ok.mp h
    obtain ⟨hs, bus₁, bus₂, hwrite₁, hwrite₂, rfl⟩ := pushWord_eq_ok.mp hpush
    cases hjump
    exact ⟨hs, target, bus₁, bus₂, htarget, hwrite₁, hwrite₂, rfl⟩
  · intro hparts
    obtain ⟨hs, target, bus₁, bus₂, htarget, hwrite₁, hwrite₂, rfl⟩ := hparts
    refine Attempt.bind_eq_ok.mpr ⟨target, _, requireAddress_eq_ok.mpr ⟨htarget, rfl⟩, ?_⟩
    refine Attempt.bind_eq_ok.mpr ⟨_, _, rfl, ?_⟩
    exact Attempt.bind_eq_ok.mpr ⟨(), _,
      pushWord_eq_ok.mpr ⟨hs, bus₁, bus₂, hwrite₁, hwrite₂, rfl⟩, rfl⟩

/-- A return goes on behind the address that it pulls. -/
theorem leaveCall_eq_ok :
    leaveCall board = .ok u board' ↔
      board.cpu.regs.s.toNat + 2 ≤ 255 ∧ ∃ low high bus₁ bus₂,
        Bus.read (wordOf (board.cpu.regs.s + 1) 1) board.bus = .ok low bus₁ ∧
        Bus.read (wordOf (board.cpu.regs.s + 2) 1) bus₁ = .ok high bus₂ ∧
        board' = ⟨⟨{ board.cpu.regs with s := board.cpu.regs.s + 2, pc := wordOf low high + 1 },
          board.cpu.cycles⟩, bus₂⟩ := by
  refine ⟨?_, ?_⟩
  · intro h
    obtain ⟨pc, mid, hpull, hjump⟩ := Attempt.bind_eq_ok.mp h
    obtain ⟨hs, low, high, bus₁, bus₂, hread₁, hread₂, rfl, rfl⟩ := pullWord_eq_ok.mp hpull
    cases hjump
    exact ⟨hs, low, high, bus₁, bus₂, hread₁, hread₂, rfl⟩
  · intro hparts
    obtain ⟨hs, low, high, bus₁, bus₂, hread₁, hread₂, rfl⟩ := hparts
    exact Attempt.bind_eq_ok.mpr ⟨wordOf low high, _,
      pullWord_eq_ok.mpr ⟨hs, low, high, bus₁, bus₂, hread₁, hread₂, rfl, rfl⟩, rfl⟩

/-! ### Interrupts -/

/-- The slots of the frame that an interrupt pushes when the stack pointer is `c`. -/
def interruptFrame (c : UInt8) : List UInt16 := [wordOf c 1, wordOf (c - 1) 1, wordOf (c - 2) 1]

theorem slot_of_mem_interruptFrame {c : UInt8} {a : UInt16} (ha : a ∈ interruptFrame c) :
    ∃ slot : UInt8, a = wordOf slot 1 := by
  simp only [interruptFrame, List.mem_cons, List.not_mem_nil, or_false] at ha
  rcases ha with rfl | rfl | rfl
  · exact ⟨c, rfl⟩
  · exact ⟨c - 1, rfl⟩
  · exact ⟨c - 2, rfl⟩

/-- The part that all interrupt sequences share: the return address and the status are pushed, and
the program goes on through a vector with interrupts disabled. -/
def enterHandler (back : UInt16) (status : Status → UInt8) (vector : UInt16) : Run β Unit := do
  pushWord back
  let regs ← registers
  push (status regs.p)
  change fun regs => regs.putFlag Flag.interruptDisable true
  let pc ← readWord vector
  jumpTo pc

theorem nmi_eq : (nmi : Run β Unit) = (do
    let regs ← registers
    enterHandler regs.pc Status.pushedByInterrupt nmiVector
    spend interruptCycles) := by
  simp only [nmi, enterHandler, bind_assoc]

theorem softwareInterrupt_eq : (softwareInterrupt : Run β Unit) = (do
    let regs ← registers
    enterHandler (regs.pc + 1) Status.pushedByProgram breakVector) := by
  simp only [softwareInterrupt, enterHandler]

theorem enterHandler_eq_ok {back vector : UInt16} {status : Status → UInt8} :
    enterHandler back status vector board = .ok u board' ↔
      3 ≤ board.cpu.regs.s.toNat ∧ ∃ bus₁ bus₂ bus₃ bus₄ low high,
        Bus.write (wordOf board.cpu.regs.s 1) (highByte back) board.bus = .ok () bus₁ ∧
        Bus.write (wordOf (board.cpu.regs.s - 1) 1) (lowByte back) bus₁ = .ok () bus₂ ∧
        Bus.write (wordOf (board.cpu.regs.s - 2) 1) (status board.cpu.regs.p) bus₂
          = .ok () bus₃ ∧
        Bus.read vector bus₃ = .ok low bus₄ ∧
        Bus.read (vector + 1) bus₄ = .ok high board'.bus ∧
        board'.cpu =
          ⟨{ board.cpu.regs with
              s := board.cpu.regs.s - 3
              p := board.cpu.regs.p.put Flag.interruptDisable true
              pc := wordOf low high },
            board.cpu.cycles⟩ := by
  have hs₃ : board.cpu.regs.s - 3 = board.cpu.regs.s - 2 - 1 := by grind
  have htwo (hs : 2 ≤ board.cpu.regs.s.toNat) :
      (board.cpu.regs.s - 2).toNat + 2 = board.cpu.regs.s.toNat := toNat_sub_add hs
  rw [hs₃]
  refine ⟨?_, ?_⟩
  · intro h
    obtain ⟨_, mid, hword, h⟩ := Attempt.bind_eq_ok.mp h
    obtain ⟨hs, bus₁, bus₂, hwrite₁, hwrite₂, rfl⟩ := pushWord_eq_ok.mp hword
    obtain ⟨regs, mid, hregs, h⟩ := Attempt.bind_eq_ok.mp h
    cases hregs
    obtain ⟨_, mid, hstatus, h⟩ := Attempt.bind_eq_ok.mp h
    obtain ⟨hs₂, bus₃, hwrite₃, rfl⟩ := push_eq_ok.mp hstatus
    obtain ⟨_, mid, hchange, h⟩ := Attempt.bind_eq_ok.mp h
    cases hchange
    obtain ⟨pc, mid, hvector, hjump⟩ := Attempt.bind_eq_ok.mp h
    obtain ⟨low, high, bus₄, bus₅, hread₁, hread₂, rfl, rfl⟩ := readPair_eq_ok.mp hvector
    cases hjump
    refine ⟨?_, bus₁, bus₂, bus₃, bus₄, low, high, hwrite₁, hwrite₂, hwrite₃, hread₁, hread₂, rfl⟩
    have h₂ := htwo hs
    have hroom : 1 ≤ (board.cpu.regs.s - 2).toNat := ne_zero_iff.mp hs₂
    omega
  · intro hparts
    obtain ⟨hs, bus₁, bus₂, bus₃, bus₄, low, high, hwrite₁, hwrite₂, hwrite₃, hread₁, hread₂, hcpu⟩
      := hparts
    have h₂ := htwo (by omega)
    have hs₂ : board.cpu.regs.s - 2 ≠ 0 := ne_zero_iff.mpr (by omega)
    obtain ⟨cpu', bus'⟩ := board'
    subst hcpu
    refine Attempt.bind_eq_ok.mpr ⟨(), _,
      pushWord_eq_ok.mpr ⟨by omega, bus₁, bus₂, hwrite₁, hwrite₂, rfl⟩, ?_⟩
    refine Attempt.bind_eq_ok.mpr ⟨_, _, rfl, ?_⟩
    refine Attempt.bind_eq_ok.mpr ⟨(), _, push_eq_ok.mpr ⟨hs₂, bus₃, hwrite₃, rfl⟩, ?_⟩
    refine Attempt.bind_eq_ok.mpr ⟨(), _, rfl, ?_⟩
    exact Attempt.bind_eq_ok.mpr ⟨_, _,
      readPair_eq_ok.mpr ⟨low, high, bus₄, bus', hread₁, hread₂, rfl, rfl⟩, rfl⟩

/-- An interrupt sequence pushes the program counter, high byte first, and the status. -/
theorem nmi_eq_ok :
    nmi board = .ok u board' ↔
      3 ≤ board.cpu.regs.s.toNat ∧ ∃ bus₁ bus₂ bus₃ bus₄ low high,
        Bus.write (wordOf board.cpu.regs.s 1) (highByte board.cpu.regs.pc) board.bus
          = .ok () bus₁ ∧
        Bus.write (wordOf (board.cpu.regs.s - 1) 1) (lowByte board.cpu.regs.pc) bus₁
          = .ok () bus₂ ∧
        Bus.write (wordOf (board.cpu.regs.s - 2) 1) board.cpu.regs.p.pushedByInterrupt bus₂
          = .ok () bus₃ ∧
        Bus.read nmiVector bus₃ = .ok low bus₄ ∧
        Bus.read (nmiVector + 1) bus₄ = .ok high board'.bus ∧
        board'.cpu =
          ⟨{ board.cpu.regs with
              s := board.cpu.regs.s - 3
              p := board.cpu.regs.p.put Flag.interruptDisable true
              pc := wordOf low high },
            board.cpu.cycles + interruptCycles⟩ := by
  rw [nmi_eq]
  refine ⟨?_, ?_⟩
  · intro h
    obtain ⟨regs, mid, hregs, h⟩ := Attempt.bind_eq_ok.mp h
    cases hregs
    obtain ⟨_, entered, henter, hspend⟩ := Attempt.bind_eq_ok.mp h
    obtain ⟨hs, bus₁, bus₂, bus₃, bus₄, low, high, hwrite₁, hwrite₂, hwrite₃, hread₁, hread₂, hcpu⟩
      := enterHandler_eq_ok.mp henter
    cases hspend
    refine ⟨hs, bus₁, bus₂, bus₃, bus₄, low, high, hwrite₁, hwrite₂, hwrite₃, hread₁, hread₂, ?_⟩
    rw [hcpu]
  · intro hparts
    obtain ⟨hs, bus₁, bus₂, bus₃, bus₄, low, high, hwrite₁, hwrite₂, hwrite₃, hread₁, hread₂, hcpu⟩
      := hparts
    obtain ⟨cpu', bus'⟩ := board'
    subst hcpu
    have hentered : enterHandler board.cpu.regs.pc Status.pushedByInterrupt nmiVector board =
        .ok () ⟨⟨{ board.cpu.regs with
            s := board.cpu.regs.s - 3
            p := board.cpu.regs.p.put Flag.interruptDisable true
            pc := wordOf low high }, board.cpu.cycles⟩, bus'⟩ :=
      enterHandler_eq_ok.mpr ⟨hs, bus₁, bus₂, bus₃, bus₄, low, high, hwrite₁, hwrite₂, hwrite₃,
        hread₁, hread₂, rfl⟩
    refine Attempt.bind_eq_ok.mpr ⟨_, _, rfl, ?_⟩
    exact Attempt.bind_eq_ok.mpr ⟨(), _, hentered, rfl⟩

/-- A break pushes the address two bytes behind its opcode, the padding byte included. -/
theorem softwareInterrupt_eq_ok :
    softwareInterrupt board = .ok u board' ↔
      3 ≤ board.cpu.regs.s.toNat ∧ ∃ bus₁ bus₂ bus₃ bus₄ low high,
        Bus.write (wordOf board.cpu.regs.s 1) (highByte (board.cpu.regs.pc + 1)) board.bus
          = .ok () bus₁ ∧
        Bus.write (wordOf (board.cpu.regs.s - 1) 1) (lowByte (board.cpu.regs.pc + 1)) bus₁
          = .ok () bus₂ ∧
        Bus.write (wordOf (board.cpu.regs.s - 2) 1) board.cpu.regs.p.pushedByProgram bus₂
          = .ok () bus₃ ∧
        Bus.read breakVector bus₃ = .ok low bus₄ ∧
        Bus.read (breakVector + 1) bus₄ = .ok high board'.bus ∧
        board'.cpu =
          ⟨{ board.cpu.regs with
              s := board.cpu.regs.s - 3
              p := board.cpu.regs.p.put Flag.interruptDisable true
              pc := wordOf low high },
            board.cpu.cycles⟩ := by
  rw [softwareInterrupt_eq, Attempt.bind_apply, registers_apply]
  exact enterHandler_eq_ok

theorem nmi_reaches (h : nmi board = .ok u board') :
    Reaches (· ∈ interruptFrame board.cpu.regs.s) board.bus board'.bus := by
  obtain ⟨-, bus₁, bus₂, bus₃, bus₄, low, high, hwrite₁, hwrite₂, hwrite₃, hread₁, hread₂, -⟩ :=
    nmi_eq_ok.mp h
  have hmem {a : UInt16} (ha : a ∈ interruptFrame board.cpu.regs.s) {bus bus' : β} {value : UInt8}
      (hwrite : Bus.write a value bus = .ok () bus') :
      Reaches (· ∈ interruptFrame board.cpu.regs.s) bus bus' := .single (.write ha hwrite)
  refine (hmem ?_ hwrite₁).trans ((hmem ?_ hwrite₂).trans ((hmem ?_ hwrite₃).trans ?_))
  · simp [interruptFrame]
  · simp [interruptFrame]
  · simp [interruptFrame]
  · exact .trans (.single (.read hread₁)) (.single (.read hread₂))

/-- A reset pushes nothing, however far down it puts the stack pointer. -/
theorem reset_eq_ok :
    reset board = .ok u board' ↔
      ∃ low high bus₁,
        Bus.read resetVector board.bus = .ok low bus₁ ∧
        Bus.read (resetVector + 1) bus₁ = .ok high board'.bus ∧
        board'.cpu =
          ⟨{ board.cpu.regs with
              s := 0xFD
              p := .ofByte (board.cpu.regs.p.byte ||| Flag.interruptDisable)
              pc := wordOf low high },
            board.cpu.cycles + interruptCycles⟩ := by
  refine ⟨?_, ?_⟩
  · intro h
    obtain ⟨_, mid, hchange, h⟩ := Attempt.bind_eq_ok.mp h
    cases hchange
    obtain ⟨pc, mid, hvector, h⟩ := Attempt.bind_eq_ok.mp h
    obtain ⟨low, high, bus₁, bus₂, hread₁, hread₂, rfl, rfl⟩ := readPair_eq_ok.mp hvector
    obtain ⟨_, mid, hjump, hspend⟩ := Attempt.bind_eq_ok.mp h
    cases hjump
    cases hspend
    exact ⟨low, high, bus₁, hread₁, hread₂, rfl⟩
  · intro hparts
    obtain ⟨low, high, bus₁, hread₁, hread₂, hcpu⟩ := hparts
    obtain ⟨cpu', bus'⟩ := board'
    subst hcpu
    refine Attempt.bind_eq_ok.mpr ⟨(), _, rfl, ?_⟩
    exact Attempt.bind_eq_ok.mpr ⟨_, _,
      readPair_eq_ok.mpr ⟨low, high, bus₁, bus', hread₁, hread₂, rfl, rfl⟩, rfl⟩

/-- The end of a handler pulls the status and then the program counter, low byte first. -/
theorem leaveInterrupt_eq_ok :
    leaveInterrupt board = .ok u board' ↔
      board.cpu.regs.s.toNat + 3 ≤ 255 ∧ ∃ status low high bus₁ bus₂,
        Bus.read (wordOf (board.cpu.regs.s + 1) 1) board.bus = .ok status bus₁ ∧
        Bus.read (wordOf (board.cpu.regs.s + 2) 1) bus₁ = .ok low bus₂ ∧
        Bus.read (wordOf (board.cpu.regs.s + 3) 1) bus₂ = .ok high board'.bus ∧
        board'.cpu =
          ⟨{ board.cpu.regs with
              s := board.cpu.regs.s + 3, pc := wordOf low high, p := .ofStack status },
            board.cpu.cycles⟩ := by
  have hs₂ : board.cpu.regs.s + 2 = board.cpu.regs.s + 1 + 1 := by grind
  have hs₃ : board.cpu.regs.s + 3 = board.cpu.regs.s + 1 + 2 := by grind
  rw [hs₂, hs₃]
  refine ⟨?_, ?_⟩
  · intro h
    obtain ⟨status, mid, hstatus, h⟩ := Attempt.bind_eq_ok.mp h
    obtain ⟨hs, bus₁, hread₁, rfl⟩ := pull_eq_ok.mp hstatus
    obtain ⟨_, mid, hchange, h⟩ := Attempt.bind_eq_ok.mp h
    cases hchange
    obtain ⟨pc, mid, hword, hjump⟩ := Attempt.bind_eq_ok.mp h
    obtain ⟨hs₁, low, high, bus₂, bus₃, hread₂, hread₃, rfl, rfl⟩ := pullWord_eq_ok.mp hword
    cases hjump
    refine ⟨?_, status, low, high, bus₁, bus₂, hread₁, hread₂, hread₃, rfl⟩
    have hsucc := toNat_succ hs
    have hroom : (board.cpu.regs.s + 1).toNat + 2 ≤ 255 := hs₁
    omega
  · intro hparts
    obtain ⟨hs, status, low, high, bus₁, bus₂, hread₁, hread₂, hread₃, hcpu⟩ := hparts
    have hs₀ : board.cpu.regs.s ≠ 0xFF := ne_top_iff.mpr (by omega)
    have hsucc := toNat_succ hs₀
    obtain ⟨cpu', bus'⟩ := board'
    subst hcpu
    refine Attempt.bind_eq_ok.mpr ⟨status, _, pull_eq_ok.mpr ⟨hs₀, bus₁, hread₁, rfl⟩, ?_⟩
    refine Attempt.bind_eq_ok.mpr ⟨(), _, rfl, ?_⟩
    refine Attempt.bind_eq_ok.mpr ⟨wordOf low high, _, pullWord_eq_ok.mpr ⟨?_, low, high, bus₂, bus',
      hread₂, hread₃, rfl, rfl⟩, rfl⟩
    show (board.cpu.regs.s + 1).toNat + 2 ≤ 255
    omega

/-! ### The instructions that return -/

/-- With a return address on the stack, the instruction that ends a routine succeeds. -/
theorem execute_rts {bus bus₁ bus₂ : β} {low high : UInt8}
    (hopcode : Bus.read board.cpu.regs.pc board.bus = .ok 0x60 bus)
    (hs : board.cpu.regs.s.toNat + 2 ≤ 255)
    (hread₁ : Bus.read (wordOf (board.cpu.regs.s + 1) 1) bus = .ok low bus₁)
    (hread₂ : Bus.read (wordOf (board.cpu.regs.s + 2) 1) bus₁ = .ok high bus₂) :
    execute board = .ok ⟨board.cpu.regs.pc, 0x60, .rts, .implicit, 6⟩
      ⟨⟨{ board.cpu.regs with s := board.cpu.regs.s + 2, pc := wordOf low high + 1 },
        board.cpu.cycles + 6⟩, bus₂⟩ := by
  have hdecode : Opcode.decode 0x60 = some ⟨0x60, .rts, .implicit, 6⟩ := by
    rw [Opcode.decode_eq_find?]
    rfl
  have hperform : perform .rts (.bare .implicit 0) (board.opened bus) = .ok 0 _ :=
    Attempt.bind_eq_ok.mpr ⟨(), _,
      leaveCall_eq_ok.mpr ⟨hs, low, high, bus₁, bus₂, hread₁, hread₂, rfl⟩, rfl⟩
  exact execute_eq_ok.mpr ⟨0x60, bus, _, .bare .implicit 0, _, 0, _, hopcode, hdecode, rfl, hperform,
    rfl, rfl⟩

/-- The instruction that ends a handler, from its opcode on. -/
theorem execute_rti_ok {step : Step} (h : execute board = .ok step board')
    (hstep : step.mnemonic = .rti) :
    ∃ bus byte status low high bus₁ bus₂,
      Bus.read board.cpu.regs.pc board.bus = .ok byte bus ∧
      Bus.read (wordOf (board.cpu.regs.s + 1) 1) bus = .ok status bus₁ ∧
      Bus.read (wordOf (board.cpu.regs.s + 2) 1) bus₁ = .ok low bus₂ ∧
      Bus.read (wordOf (board.cpu.regs.s + 3) 1) bus₂ = .ok high board'.bus ∧
      board'.cpu.regs =
        { board.cpu.regs with
          s := board.cpu.regs.s + 3, pc := wordOf low high, p := .ofStack status } := by
  obtain ⟨byte, bus, opcode, operand, resolved, extra, done, hread, hdecode, hresolve, hperform,
    rfl, rfl⟩ := execute_eq_ok.mp h
  have hrti : opcode.mnemonic = .rti := hstep
  have hmode := Opcode.implicit_of_stack hdecode (by rw [hrti]; decide)
  rw [hmode] at hresolve
  cases hresolve
  rw [hrti] at hperform
  rcases perform_ok hperform with ⟨mask, on, haction, -⟩ | ⟨-, hact⟩
  · cases haction
  · obtain ⟨-, status, low, high, bus₁, bus₂, h₁, h₂, h₃, hcpu⟩ := leaveInterrupt_eq_ok.mp hact
    refine ⟨bus, byte, status, low, high, bus₁, bus₂, hread, h₁, h₂, h₃, ?_⟩
    show done.cpu.regs = _
    rw [hcpu]
    rfl

/-- With the frame on the stack, that instruction succeeds. -/
theorem execute_rti {bus bus₁ bus₂ bus₃ : β} {status low high : UInt8}
    (hopcode : Bus.read board.cpu.regs.pc board.bus = .ok 0x40 bus)
    (hs : board.cpu.regs.s.toNat + 3 ≤ 255)
    (hread₁ : Bus.read (wordOf (board.cpu.regs.s + 1) 1) bus = .ok status bus₁)
    (hread₂ : Bus.read (wordOf (board.cpu.regs.s + 2) 1) bus₁ = .ok low bus₂)
    (hread₃ : Bus.read (wordOf (board.cpu.regs.s + 3) 1) bus₂ = .ok high bus₃) :
    execute board = .ok ⟨board.cpu.regs.pc, 0x40, .rti, .implicit, 6⟩
      ⟨⟨{ board.cpu.regs with
            s := board.cpu.regs.s + 3, pc := wordOf low high, p := .ofStack status },
        board.cpu.cycles + 6⟩, bus₃⟩ := by
  have hdecode : Opcode.decode 0x40 = some ⟨0x40, .rti, .implicit, 6⟩ := by
    rw [Opcode.decode_eq_find?]
    rfl
  have hleave : leaveInterrupt (board.opened bus) =
      .ok () ⟨⟨{ board.cpu.regs with
            s := board.cpu.regs.s + 3, pc := wordOf low high, p := .ofStack status },
        board.cpu.cycles⟩, bus₃⟩ :=
    leaveInterrupt_eq_ok.mpr ⟨hs, status, low, high, bus₁, bus₂, hread₁, hread₂, hread₃, rfl⟩
  have hperform : perform .rti (.bare .implicit 0) (board.opened bus) = .ok 0 _ :=
    Attempt.bind_eq_ok.mpr ⟨(), _, hleave, rfl⟩
  exact execute_eq_ok.mpr ⟨0x40, bus, _, .bare .implicit 0, _, 0, _, hopcode, hdecode, rfl, hperform,
    rfl, rfl⟩

end Board

end NesMachine
