import NesMachine.Console.Idle
import NesMachine.Proofs.Console.Loading
import NesMachine.Proofs.Cpu.Operands

/-!
# Parked programs

A program that has nothing left to do jumps to itself.  Its steps then change nothing but the
counters, until vertical blanking takes an interrupt.

* `Board.execute_jump`: what a jump does, on any bus;
* `Parked.execute`: the jump of a parked program leads back to where it was;
* `Parked.exists_lingers`: a parked program runs on until the timer fires;
* `Lingers.enters_iff`: and there it is interrupted, unless a handler is running;
* `ShowsProgram`: the bus shows a small program, which the cartridge holds as a list of bytes;
* `parkingProgram`, `steadyProgram`: two programs that park, and whose handlers return or park too.
-/

namespace NesMachine

namespace Board

variable {β : Type} [Bus β] {board : Board β} {bus₁ bus₂ bus₃ : β}

/-- An absolute jump. -/
theorem execute_jump {low high : UInt8}
    (hopcode : Bus.read board.cpu.regs.pc board.bus = .ok 0x4C bus₁)
    (hlow : Bus.read (board.cpu.regs.pc + 1) bus₁ = .ok low bus₂)
    (hhigh : Bus.read (board.cpu.regs.pc + 1 + 1) bus₂ = .ok high bus₃) :
    execute board = .ok ⟨board.cpu.regs.pc, 0x4C, .jmp, .absolute, 3⟩
      ⟨⟨{ board.cpu.regs with pc := wordOf low high }, board.cpu.cycles + 3⟩, bus₃⟩ := by
  have hdecode : Opcode.decode 0x4C = some ⟨0x4C, .jmp, .absolute, 3⟩ := by
    rw [Opcode.decode_eq_find?]
    rfl
  have hresolve : resolve .absolute .addressOnly (board.opened bus₁) = .ok _ _ :=
    resolve_absolute_eq_ok.mpr ⟨low, high, bus₂, bus₃, hlow, hhigh, rfl, rfl⟩
  exact execute_eq_ok.mpr ⟨0x4C, bus₁, _, _, _, 0, _, hopcode, hdecode, hresolve, rfl, rfl, rfl⟩

end Board

namespace Console

variable {console : Console}

theorem isIdle_iff : console.isIdle = true ↔
    console.bus.peek console.cpu.regs.pc = jumpOpcode ∧
      wordOf (console.bus.peek (console.cpu.regs.pc + 1))
        (console.bus.peek (console.cpu.regs.pc + 2)) = console.cpu.regs.pc := by
  simp only [isIdle, Bool.and_eq_true, beq_iff_eq]

/-- The next instruction is a jump to itself, in storage. -/
structure Parked (console : Console) : Prop where
  wired : console.bus.Wired
  idle : console.isIdle = true
  opcode : SystemBus.IsStorage console.cpu.regs.pc
  low : SystemBus.IsStorage (console.cpu.regs.pc + 1)
  high : SystemBus.IsStorage (console.cpu.regs.pc + 2)

theorem Parked.congr {other : Console} (h : Parked console)
    (hregs : other.cpu.regs = console.cpu.regs) (hbus : other.bus = console.bus) :
    Parked other := by
  refine ⟨?_, ?_, ?_, ?_, ?_⟩
  · rw [hbus]
    exact h.wired
  · rw [isIdle, hbus, hregs]
    exact h.idle
  · rw [hregs]
    exact h.opcode
  · rw [hregs]
    exact h.low
  · rw [hregs]
    exact h.high

/-- A jump in storage. -/
theorem execute_jump (h : console.bus.Wired) (hopcode : SystemBus.IsStorage console.cpu.regs.pc)
    (hlow : SystemBus.IsStorage (console.cpu.regs.pc + 1))
    (hhigh : SystemBus.IsStorage (console.cpu.regs.pc + 2))
    (hjump : console.bus.peek console.cpu.regs.pc = jumpOpcode) :
    Board.execute console.board = .ok ⟨console.cpu.regs.pc, 0x4C, .jmp, .absolute, 3⟩
      ⟨⟨{ console.cpu.regs with
            pc := wordOf (console.bus.peek (console.cpu.regs.pc + 1))
              (console.bus.peek (console.cpu.regs.pc + 2)) },
        console.cpu.cycles + 3⟩, console.bus⟩ := by
  have hnext : console.cpu.regs.pc + 2 = console.cpu.regs.pc + 1 + 1 :=
    (UInt16.add_assoc _ 1 1).symm
  have hfirst := h.bus_read hopcode
  rw [hjump] at hfirst
  have hlast := h.bus_read hhigh
  rw [hnext] at hlast
  rw [hnext]
  exact Board.execute_jump hfirst (h.bus_read hlow) hlast

/-- A return from an interrupt, in storage. -/
theorem execute_return (h : console.bus.Wired) (hopcode : SystemBus.IsStorage console.cpu.regs.pc)
    (hreturn : console.bus.peek console.cpu.regs.pc = 0x40)
    (hs : console.cpu.regs.s.toNat + 3 ≤ 255) :
    Board.execute console.board = .ok ⟨console.cpu.regs.pc, 0x40, .rti, .implicit, 6⟩
      ⟨⟨{ console.cpu.regs with
            s := console.cpu.regs.s + 3
            p := .ofStack (console.bus.peek (wordOf (console.cpu.regs.s + 1) 1))
            pc := wordOf (console.bus.peek (wordOf (console.cpu.regs.s + 2) 1))
              (console.bus.peek (wordOf (console.cpu.regs.s + 3) 1)) },
        console.cpu.cycles + 6⟩, console.bus⟩ := by
  have hfirst := h.bus_read hopcode
  rw [hreturn] at hfirst
  have hslot (slot : UInt8) := h.bus_read (SystemBus.isStorage_slot slot)
  exact Board.execute_rti hfirst hs (hslot _) (hslot _) (hslot _)

theorem Parked.execute (h : Parked console) :
    Board.execute console.board =
      .ok ⟨console.cpu.regs.pc, 0x4C, .jmp, .absolute, 3⟩
        ⟨⟨console.cpu.regs, console.cpu.cycles + 3⟩, console.bus⟩ := by
  obtain ⟨hjump, htarget⟩ := isIdle_iff.mp h.idle
  rw [execute_jump h.wired h.opcode h.low h.high hjump, htarget]

/-- From the console, steps on which the timer does not fire lead to one on which it does.  Each of
them jumps back to where it was, with the registers and the bus that the console has had all along. -/
structure Lingers (console : Console) (waiting : List StepTaken) (last : StepTaken) : Prop where
  drives : Drives console (waiting ++ [last]) last.after
  /-- There are as many as the timer has room for. -/
  length : waiting.length = (console.vblank.threshold - console.vblank.elapsed) / 3
  quiet : ∀ taken ∈ waiting, ¬ taken.Fires
  fires : last.Fires
  vblank : last.after.vblank = ⟨0, console.vblank.threshold⟩
  jumps : ∀ taken ∈ waiting ++ [last],
    taken.instruction = ⟨console.cpu.regs.pc, 0x4C, .jmp, .absolute, 3⟩
  board : ∀ taken ∈ waiting ++ [last],
    taken.executed.cpu.regs = console.cpu.regs ∧ taken.executed.bus = console.bus

/-- **A parked program waits for the next vertical blanking.** -/
theorem Parked.exists_lingers (h : Parked console) (hs : 3 ≤ console.cpu.regs.s.toNat) :
    ∃ waiting last, Lingers console waiting last := by
  -- on the jumps that the timer has room for
  induction hroom : (console.vblank.threshold - console.vblank.elapsed) / 3
    generalizing console with
  | zero =>
    obtain ⟨last, rfl, hinstruction, hboard⟩ := exists_stepTaken_of_execute h.execute hs
    have hfires : last.Fires := by
      rw [StepTaken.Fires, hinstruction, VblankTimer.fires, decide_eq_true_iff]
      dsimp only
      omega
    refine ⟨[], last, .step last (.done _), hroom.symm, by simp, hfires, ?_, ?_, ?_⟩
    · rw [last.after_vblank, VblankTimer.advance]
      exact congrArg (VblankTimer.mk · _) (if_pos hfires)
    · simpa using hinstruction
    · simp [cpu, bus, hboard]
  | succ n ih =>
    obtain ⟨taken, rfl, hinstruction, hboard, hquiet, hafter, hvblank⟩ :=
      exists_stepTaken_of_room h.execute (by dsimp only; omega)
    -- the jump has led back to where it was, a little later
    have hregs : taken.after.cpu.regs = taken.before.cpu.regs := by rw [cpu, hafter]
    have hbus : taken.after.bus = taken.before.bus := by rw [bus, hafter]
    obtain ⟨waiting, last, hlater⟩ := ih (h.congr hregs hbus) (by rw [hregs]; exact hs)
      (by rw [hvblank]; dsimp only; omega)
    have hlength := hlater.length
    have hjumps := hlater.jumps
    have hboards := hlater.board
    rw [hvblank] at hlength
    rw [hregs] at hjumps
    rw [hregs, hbus] at hboards
    refine ⟨taken :: waiting, last, .step taken hlater.drives, ?_,
      List.forall_mem_cons.mpr ⟨hquiet, hlater.quiet⟩, hlater.fires, ?_,
      List.forall_mem_cons.mpr ⟨hinstruction, hjumps⟩,
      List.forall_mem_cons.mpr ⟨⟨?_, ?_⟩, hboards⟩⟩
    · rw [List.length_cons, hlength]
      dsimp only
      omega
    · rw [hlater.vblank, hvblank]
    · rw [cpu, hboard]
    · rw [bus, hboard]

namespace Lingers

variable {waiting : List StepTaken} {last : StepTaken}

theorem not_enters (h : Lingers console waiting last) : ∀ taken ∈ waiting, ¬ taken.Enters :=
  fun taken hmem henters => h.quiet taken hmem (taken.enters_iff.mp henters).1

/-- **The vertical blanking interrupts a parked program** unless a handler is running that started with
another stack pointer. -/
theorem enters_iff (h : Lingers console waiting last) : last.Enters ↔
    console.nmi.inFlight = false ∨ console.cpu.regs.s = console.nmi.capturedSp := by
  rw [h.drives.before.enters_iff_of_quiet h.not_enters h.fires]
  refine or_congr_right ⟨?_, ?_⟩
  · intro hback
    obtain ⟨taken, hmem, hs⟩ := hback
    rw [← hs, (h.board taken hmem).1]
  · intro hs
    have hlast : last ∈ waiting ++ [last] := by simp
    exact ⟨last, hlast, by rw [(h.board last hlast).1, hs]⟩

theorem wired_before (h : Lingers console waiting last) (hwired : console.bus.Wired) :
    last.before.bus.Wired :=
  h.drives.wired hwired (by simp)

end Lingers

/-! ### Small programs -/

/-- The byte at an offset of a bank that holds a program, given as bytes with their offsets. -/
def bankByte (program : List (Nat × UInt8)) (i : Nat) : UInt8 := (program.lookup i).getD 0

/-- A cartridge with a program alone. -/
def cartridgeOf (program : List (Nat × UInt8)) : Cartridge where
  header := ⟨1, 0, 0, .horizontal, false, false⟩
  banks := ⟨#[Vector.ofFn fun i => bankByte program i], #[], Nat.one_pos⟩

/-- The bus shows a program, in both halves of the program window. -/
structure ShowsProgram (program : List (Nat × UInt8)) (bus : SystemBus) : Prop where
  wired : bus.Wired
  byte : ∀ a : UInt16, 0x8000 ≤ a.toNat → bus.peek a = bankByte program (a.toNat % 0x4000)

theorem showsProgram_powerOn (settings : Settings) (program : List (Nat × UInt8)) :
    ShowsProgram program (powerOn settings (cartridgeOf program)).bus := by
  refine ⟨wired_powerOn settings (cartridgeOf program), fun a ha => ?_⟩
  refine peek_powerOn_of_bank settings ?_ ?_ ha
  · exact fun i hi => Vector.getElem_ofFn hi
  · exact fun i hi => Vector.getElem_ofFn hi

variable {program : List (Nat × UInt8)}

/-- An instruction that leaves the bus alone leaves the program in place, whatever its step does
afterwards. -/
theorem ShowsProgram.after {taken : StepTaken} (h : ShowsProgram program taken.executed.bus)
    (hwired : taken.before.bus.Wired) : ShowsProgram program taken.after.bus := by
  refine ⟨StepTaken.after_wired hwired, ?_⟩
  intro a ha
  rw [StepTaken.peek_after_of_program hwired ha]
  exact h.byte a ha

/-- A handler starts where the program says. -/
theorem ShowsProgram.pc_after {taken : StepTaken} (h : ShowsProgram program taken.executed.bus)
    (hwired : taken.before.bus.Wired) (henters : taken.Enters) : taken.after.cpu.regs.pc =
      wordOf (bankByte program 0x3FFA) (bankByte program 0x3FFB) := by
  have hafter := h.after hwired
  rw [StepTaken.regs_after_of_enters hwired henters, hafter.byte nmiVector (by decide),
    hafter.byte (nmiVector + 1) (by decide)]
  rfl

/-- Three bytes of the program that jump to themselves park it there. -/
theorem ShowsProgram.parked (h : ShowsProgram program console.bus) {a : UInt16}
    (hpc : console.cpu.regs.pc = a) (ha : 0x8000 ≤ a.toNat ∧ a.toNat ≤ 0xFFF0)
    (hopcode : bankByte program (a.toNat % 0x4000) = jumpOpcode)
    (htarget : wordOf (bankByte program ((a + 1).toNat % 0x4000))
      (bankByte program ((a + 2).toNat % 0x4000)) = a) : Parked console := by
  have hplace (i : UInt16) (hi : i.toNat ≤ 2) : 0x8000 ≤ (a + i).toNat := by
    rw [UInt16.toNat_add]
    omega
  have hlow := hplace 1 (by decide)
  have hhigh := hplace 2 (by decide)
  refine ⟨h.wired, ?_, ?_, ?_, ?_⟩
  · rw [isIdle_iff, hpc, h.byte a ha.1, h.byte _ hlow, h.byte _ hhigh]
    exact ⟨hopcode, htarget⟩
  · rw [hpc]
    exact SystemBus.isStorage_program ha.1
  · rw [hpc]
    exact SystemBus.isStorage_program hlow
  · rw [hpc]
    exact SystemBus.isStorage_program hhigh

/-! ### A parked program and its handler -/

/-- A jump to itself at `$8000`, a handler at `$9000` that jumps to its return at `$9003`, and the
interrupt vector. -/
def parkingProgram : List (Nat × UInt8) :=
  [(0x0000, 0x4C), (0x0002, 0x80), (0x1000, 0x4C), (0x1001, 0x03), (0x1002, 0x90), (0x1003, 0x40),
    (0x3FFB, 0x90)]

/-- A cartridge with that program alone. -/
def parkingCartridge : Cartridge := cartridgeOf parkingProgram

theorem parked_parkingProgram (h : ShowsProgram parkingProgram console.bus)
    (hpc : console.cpu.regs.pc = 0x8000) : Parked console :=
  h.parked hpc (by decide) (by decide) (by decide)

/-! ### A program that is not interrupted again -/

/-- A jump to itself at `$8000`, where a reset leads too, and a handler at `$9000` that jumps to
itself. -/
def steadyProgram : List (Nat × UInt8) :=
  [(0x0000, 0x4C), (0x0002, 0x80), (0x1000, 0x4C), (0x1002, 0x90), (0x3FFB, 0x90), (0x3FFD, 0x80)]

/-- A cartridge with that program alone. -/
def steadyCartridge : Cartridge := cartridgeOf steadyProgram

theorem parked_steadyProgram (h : ShowsProgram steadyProgram console.bus)
    (hpc : console.cpu.regs.pc = 0x8000) : Parked console :=
  h.parked hpc (by decide) (by decide) (by decide)

/-- It waits for the first vertical blanking, which parks it in its handler. -/
theorem exists_steady_entry (settings : Settings) :
    ∃ waiting first, Lingers (powerOn settings steadyCartridge) waiting first ∧ first.Enters ∧
      first.before.bus.Wired ∧ first.executed.cpu.regs.s = 0xFF ∧
      ShowsProgram steadyProgram first.after.bus ∧ Parked first.after ∧
      first.after.cpu.regs.s = 0xFC := by
  have hshows := showsProgram_powerOn settings steadyProgram
  have hroom : 3 ≤ Registers.powerOn.s.toNat := by decide
  obtain ⟨waiting, first, hwaits⟩ := (parked_steadyProgram hshows rfl).exists_lingers hroom
  have hwired := hwaits.wired_before hshows.wired
  have henters : first.Enters := hwaits.enters_iff.mpr (.inl rfl)
  obtain ⟨hregs, hbus⟩ := hwaits.board first (by simp)
  have hs : first.executed.cpu.regs.s = 0xFF := by
    rw [hregs]
    rfl
  have hshown : ShowsProgram steadyProgram first.executed.bus := by
    rw [hbus]
    exact hshows
  refine ⟨waiting, first, hwaits, henters, hwired, hs, hshown.after hwired, ?_, ?_⟩
  · exact (hshown.after hwired).parked (hshown.pc_after hwired henters) (by decide) (by decide)
      (by decide)
  · rw [StepTaken.regs_after_of_enters hwired henters]
    show first.executed.cpu.regs.s - 3 = 0xFC
    rw [hs]
    rfl

end Console

end NesMachine
