import NesMachine.Proofs.Console.Idle
import NesMachine.Proofs.Cpu.Faults

/-!
# When a console faults

The system bus refuses no access, whatever has been written to it, so that `dueFault` tells when a
tick fails.  A step can fail in one more way: after an instruction that has succeeded, when an
interrupt is to be taken and its frame does not fit on the stack.

* `Console.tick_error_iff`, `Console.step_error_iff`: the faults of ticks and steps;
* `Console.faults_exactly`: both together, with what they exclude.
-/

namespace NesMachine

theorem SystemBus.bus_read (bus : SystemBus) (a : UInt16) :
    Bus.read a bus = .ok (bus.read a).1 (bus.read a).2 := rfl

namespace Console

variable {console left : Console} {fault : Fault}

theorem onBoard_eq_error {α : Type} {action : Run SystemBus α} :
    onBoard action console = .error fault left ↔
      ∃ board, action console.board = .error fault board ∧
        left = { console with board := board } := by
  rw [onBoard_apply]
  cases action console.board with
  | ok a board => simp
  | error e board => simp [eq_comm]

/-- A tick fails with its instruction, and changes nothing but the board. -/
theorem tick_eq_error :
    tick console = .error fault left ↔
      ∃ board, Board.execute console.board = .error fault board ∧
        left = { console with board := board } := by
  rw [← onBoard_eq_error, tick, Attempt.bind_apply]
  cases onBoard Board.execute console with
  | ok step mid => simp
  | error e mid => simp

/-- **When a tick fails**: exactly with the fault that is due. -/
theorem tick_error_iff :
    (∃ left, tick console = .error fault left) ↔
      dueFault console.cpu.regs (console.bus.read console.cpu.regs.pc).1 = some fault := by
  refine Iff.trans ?_ (Board.execute_error_iff (console.bus.bus_read console.cpu.regs.pc))
  simp only [tick_eq_error]
  refine ⟨?_, ?_⟩
  · intro h
    obtain ⟨left, board, hexecute, -⟩ := h
    exact ⟨board, hexecute⟩
  · intro h
    obtain ⟨board, hexecute⟩ := h
    exact ⟨_, board, hexecute, rfl⟩

/-- After an instruction that has succeeded, only the frame of an interrupt can be too much. -/
theorem stepEvents_error_iff {instruction : Step} {board : Board SystemBus}
    (h : Board.execute console.board = .ok instruction board) :
    (∃ left, stepEvents console = .error fault left) ↔
      fault = .stackOverflow 0 ∧ console.vblank.fires instruction.cycles = true ∧
        (console.rested instruction board).nmi.inFlight = false ∧ board.cpu.regs.s.toNat < 3 := by
  rw [stepEvents_of_execute h]
  by_cases hfires : console.vblank.fires instruction.cycles = true
  · rw [if_pos hfires]
    cases hbusy : (console.rested instruction board).nmi.inFlight with
    | true => simp
    | false =>
      rw [if_neg Bool.false_ne_true]
      by_cases hroom : board.cpu.regs.s.toNat < 3
      · obtain ⟨failed, herror⟩ :=
          Board.pushes_nmi.faults (flipVblank (console.rested instruction board)).board hroom
        rw [herror]
        simp [hfires, hroom, eq_comm]
      · obtain ⟨u, entered, hok, -⟩ := Board.pushes_nmi.succeeds
          (flipVblank (console.rested instruction board)).board (Nat.le_of_not_lt hroom)
        rw [hok]
        simp [hroom]
  · rw [if_neg hfires]
    simp [hfires]

/-- **When a step fails**: with its instruction, or else with the interrupt behind it. -/
theorem step_error_iff :
    (∃ left, step console = .error fault left) ↔
      (∃ left, tick console = .error fault left) ∨
        fault = .stackOverflow 0 ∧ ∃ cycles executed, tick console = .ok cycles executed ∧
          console.vblank.fires cycles = true ∧ (retire executed).nmi.inFlight = false ∧
          executed.cpu.regs.s.toNat < 3 := by
  have hstep (left : Console) :
      step console = .error fault left ↔ stepEvents console = .error fault left := by
    rw [step, Attempt.bind_apply]
    cases stepEvents console <;> simp
  simp only [hstep]
  cases hexecute : Board.execute console.board with
  | error e board =>
    have htick : tick console = .error e { console with board := board } :=
      tick_eq_error.mpr ⟨board, hexecute, rfl⟩
    rw [stepEvents, Attempt.bind_apply, htick]
    simp
  | ok instruction board =>
    rw [stepEvents_error_iff hexecute, tick_eq_ok.mpr ⟨instruction, board, hexecute, rfl, rfl⟩]
    refine ⟨?_, ?_⟩
    · intro h
      obtain ⟨hfault, hfires, hbusy, hroom⟩ := h
      exact .inr ⟨hfault, _, _, rfl, hfires, hbusy, hroom⟩
    · intro h
      obtain ⟨left, herror⟩ | ⟨hfault, cycles, executed, htick, hfires, hbusy, hroom⟩ := h
      · cases herror
      · cases htick
        exact ⟨hfault, hfires, hbusy, hroom⟩

/-- **Faults of a console.**  A tick fails exactly with the fault that the opcode byte and the stack
pointer make due, and a step fails in addition when an interrupt is to be taken and the stack has no
room for its frame.  The bus and the operand of an instruction give no reason for a fault, and an
undocumented opcode leaves the processor as it was. -/
theorem faults_exactly (console : Console) :
    (∀ fault, (∃ left, tick console = .error fault left) ↔
      dueFault console.cpu.regs (console.bus.read console.cpu.regs.pc).1 = some fault) ∧
    (∀ fault left, tick console = .error fault left →
      (∀ e, fault ≠ .bus e) ∧ (∀ m mode, fault ≠ .missingEffectiveAddress m mode) ∧
        (∀ byte pc, fault = .unknownOpcode byte pc → left.cpu = console.cpu)) ∧
    ∀ fault, (∃ left, step console = .error fault left) ↔
      (∃ left, tick console = .error fault left) ∨
        fault = .stackOverflow 0 ∧ ∃ cycles executed, tick console = .ok cycles executed ∧
          console.vblank.fires cycles = true ∧ (retire executed).nmi.inFlight = false ∧
          executed.cpu.regs.s.toNat < 3 := by
  refine ⟨fun fault => tick_error_iff, ?_, fun fault => step_error_iff⟩
  intro fault left htick
  obtain ⟨hdecode, rfl⟩ | rfl | rfl := dueFault_cases (tick_error_iff.mp ⟨left, htick⟩)
  · refine ⟨nofun, nofun, ?_⟩
    intro _ _ _
    obtain ⟨board, hexecute, rfl⟩ := tick_eq_error.mp htick
    rw [Board.execute_of_undocumented (console.bus.bus_read _) hdecode] at hexecute
    cases hexecute
    rfl
  · exact ⟨nofun, nofun, nofun⟩
  · exact ⟨nofun, nofun, nofun⟩

/-- A console about to execute a byte in its memory. -/
def poised (byte s : UInt8) : Console :=
  { powerOn Settings.default parkingCartridge with
    board := ⟨⟨{ Registers.powerOn with s := s, pc := 0x0200 }, 0⟩,
      (powerOn Settings.default parkingCartridge).bus.poke 0x0200 byte⟩ }

theorem read_poised (byte s : UInt8) :
    ((poised byte s).bus.read (poised byte s).cpu.regs.pc).1 = byte := by
  have hwired := wired_powerOn Settings.default parkingCartridge
  have hbus : (poised byte s).bus =
      (powerOn Settings.default parkingCartridge).bus.poke 0x0200 byte := rfl
  have hpc : (poised byte s).cpu.regs.pc = 0x0200 := rfl
  rw [hbus, hpc, (hwired.poke 0x0200 byte).read_of_storage (by decide), hwired.peek_poke,
    if_pos rfl]

/-- An undocumented opcode, a break with room for two bytes only, and two returns from an interrupt,
of which the first finds one byte too few. -/
theorem poised_consoles_fault :
    (∃ left, tick (poised 0x02 0xFF) = .error (.unknownOpcode 0x02 0x0200) left ∧
      left.cpu = (poised 0x02 0xFF).cpu) ∧
    (∃ left, tick (poised 0x00 2) = .error (.stackOverflow 0) left) ∧
    (∃ left, tick (poised 0x40 0xFD) = .error (.stackUnderflow 0xFF) left) ∧
    ¬ ∃ fault left, tick (poised 0x40 0xFC) = .error fault left := by
  have hdue (byte s : UInt8) (fault : Fault) :
      (∃ left, tick (poised byte s) = .error fault left) ↔
        dueFault (poised byte s).cpu.regs byte = some fault := by
    have hticks := (faults_exactly (poised byte s)).1 fault
    rw [read_poised] at hticks
    exact hticks
  refine ⟨?_, ?_, ?_, ?_⟩
  · obtain ⟨left, htick⟩ := (hdue 0x02 0xFF (.unknownOpcode 0x02 0x0200)).mpr (by
      unfold dueFault
      rw [Opcode.decode_eq_find?]
      rfl)
    exact ⟨left, htick, ((faults_exactly _).2.1 _ left htick).2.2 0x02 0x0200 rfl⟩
  · refine (hdue 0x00 2 _).mpr ?_
    unfold dueFault
    rw [Opcode.decode_eq_find?]
    rfl
  · refine (hdue 0x40 0xFD _).mpr ?_
    unfold dueFault
    rw [Opcode.decode_eq_find?]
    rfl
  · intro h
    obtain ⟨fault, htick⟩ := h
    have hnone := (hdue 0x40 0xFC fault).mp htick
    unfold dueFault at hnone
    rw [Opcode.decode_eq_find?] at hnone
    cases hnone

end Console

end NesMachine
