import NesMachine.Proofs.Console.Idle
import NesMachine.Proofs.Cpu.StackRoom
import NesMachine.Proofs.Device.Accesses

/-!
# When idle detection is right

A console counts as idle if the bytes at its program counter are those of a jump to itself.  To find
out, it looks at what is stored there; the processor reads them over the bus, and at the port of a
controller it gets the state of a button instead.

* `execute_idle`: away from the ports, an idle console executes the jump to itself;
* `idle_ticks`: so it stays as it is under any number of ticks;
* `execute_before_port` and `not_jump_at_port`: if the jump reaches into a port, it leads elsewhere or
  is not a jump;
* `idle_detection`: idle detection is right exactly if the jump does not reach into a port;
* `portProgram`: a program that parks there.
-/

namespace NesMachine

namespace SystemBus

variable {bus bus' : SystemBus} {a : UInt16} {value : UInt8}

/-! ### Reads and stored bytes -/

/-- The ports of the two controllers. -/
def controllerPorts : List UInt16 := [0x4016, 0x4017]

/-- Away from the controllers, a read delivers what is stored and changes nothing. -/
theorem Wired.bus_read_of_not_port (h : bus.Wired) (ha : a ∉ controllerPorts) :
    Bus.read a bus = .ok (bus.peek a) bus := by
  simp only [controllerPorts, List.mem_cons, List.not_mem_nil, or_false, not_or] at ha
  show EStateM.Result.ok (bus.read a).1 (bus.read a).2 = .ok (bus.peek a) bus
  rw [h.read_cases, if_neg ha.1, if_neg ha.2]

/-- At a controller, a read delivers the state of a button. -/
theorem Wired.read_port_le (h : bus.Wired) (ha : a ∈ controllerPorts)
    (hread : Bus.read a bus = .ok value bus') : value = 0 ∨ value = 1 := by
  have hbit (byte : UInt8) : byte &&& 1 = 0 ∨ byte &&& 1 = 1 := by
    obtain ⟨bits⟩ := byte
    revert bits
    decide +kernel
  have hvalue : value = (bus.read a).1 := by
    cases hread
    rfl
  rw [hvalue, h.read_cases]
  simp only [controllerPorts, List.mem_cons, List.not_mem_nil, or_false] at ha
  rcases ha with rfl | rfl
  · exact hbit _
  · exact hbit _

/-- The bytes of a jump to `$4014`, stored there, are there to be seen, though the last one is at a
port. -/
theorem Wired.peek_stored_jump (h : bus.Wired) :
    let stored := ((bus.write (wordOf 0x14 0x40) 0x4C).write (wordOf 0x15 0x40) 0x14).write
      (wordOf 0x16 0x40) 0x40
    stored.peek 0x4014 = 0x4C ∧ stored.peek 0x4015 = 0x14 ∧ stored.peek 0x4016 = 0x40 := by
  have hfirst := h.write (wordOf 0x14 0x40) 0x4C
  have hsecond := hfirst.write (wordOf 0x15 0x40) 0x14
  refine ⟨?_, ?_, ?_⟩
  · rw [hsecond.peek_write, if_neg (by decide), if_neg (by decide), hfirst.peek_write,
      if_neg (by decide), if_neg (by decide), h.peek_write, if_pos (by decide)]
  · rw [hsecond.peek_write, if_neg (by decide), if_neg (by decide), hfirst.peek_write,
      if_pos (by decide)]
  · rw [hsecond.peek_write, if_pos (by decide)]

end SystemBus

namespace Board

variable {β : Type} [Bus β] {board : Board β} {bus₁ bus₂ bus₃ bus₄ : β}

/-- A load of a constant. -/
theorem execute_load {value : UInt8}
    (hopcode : Bus.read board.cpu.regs.pc board.bus = .ok 0xA9 bus₁)
    (hvalue : Bus.read (board.cpu.regs.pc + 1) bus₁ = .ok value bus₂) :
    execute board = .ok ⟨board.cpu.regs.pc, 0xA9, .lda, .immediate, 2⟩
      ⟨⟨{ board.cpu.regs with pc := board.cpu.regs.pc + 1 + 1 }.load .a value,
        board.cpu.cycles + 2⟩, bus₂⟩ := by
  have hdecode : Opcode.decode 0xA9 = some ⟨0xA9, .lda, .immediate, 2⟩ := by
    rw [Opcode.decode_eq_find?]
    rfl
  have hresolve : resolve .immediate .value (board.opened bus₁) = .ok _ _ :=
    Attempt.bind_eq_ok.mpr ⟨value, _, fetch_eq_ok.mpr ⟨bus₂, hvalue, rfl⟩, rfl⟩
  exact execute_eq_ok.mpr ⟨0xA9, bus₁, _, _, _, 0, _, hopcode, hdecode, hresolve, rfl, rfl, rfl⟩

/-- A store of A at an absolute address. -/
theorem execute_store {low high : UInt8}
    (hopcode : Bus.read board.cpu.regs.pc board.bus = .ok 0x8D bus₁)
    (hlow : Bus.read (board.cpu.regs.pc + 1) bus₁ = .ok low bus₂)
    (hhigh : Bus.read (board.cpu.regs.pc + 1 + 1) bus₂ = .ok high bus₃)
    (hwrite : Bus.write (wordOf low high) board.cpu.regs.a bus₃ = .ok () bus₄) :
    execute board = .ok ⟨board.cpu.regs.pc, 0x8D, .sta, .absolute, 4⟩
      ⟨⟨{ board.cpu.regs with pc := board.cpu.regs.pc + 1 + 1 + 1 }, board.cpu.cycles + 4⟩,
        bus₄⟩ := by
  have hdecode : Opcode.decode 0x8D = some ⟨0x8D, .sta, .absolute, 4⟩ := by
    rw [Opcode.decode_eq_find?]
    rfl
  have hresolve : resolve .absolute .addressOnly (board.opened bus₁) = .ok _ _ :=
    resolve_absolute_eq_ok.mpr ⟨low, high, bus₂, bus₃, hlow, hhigh, rfl, rfl⟩
  have hstore : storeReg .sta (.located .absolute 0 (wordOf low high) false) .a
      (((board.opened bus₁).opened bus₂).opened bus₃) = .ok () ⟨_, bus₄⟩ :=
    Attempt.bind_eq_ok.mpr ⟨_, _, requireAddress_eq_ok.mpr ⟨rfl, rfl⟩,
      Attempt.bind_eq_ok.mpr ⟨_, _, rfl, onBus_eq_ok.mpr ⟨bus₄, hwrite, rfl⟩⟩⟩
  have hperform : perform .sta (.located .absolute 0 (wordOf low high) false)
      (((board.opened bus₁).opened bus₂).opened bus₃) = .ok 0 _ :=
    Attempt.bind_eq_ok.mpr ⟨(), _, hstore, rfl⟩
  exact execute_eq_ok.mpr
    ⟨0x8D, bus₁, _, _, _, 0, _, hopcode, hdecode, hresolve, hperform, rfl, rfl⟩

end Board

namespace Console

open Attempt

variable {console : Console}

/-- The program counters from which an instruction of three bytes reaches into the port of a
controller. -/
def portWindow : List UInt16 := [0x4014, 0x4015, 0x4016, 0x4017]

theorem not_mem_ports_of_window {pc : UInt16} (h : pc ∉ portWindow) :
    pc ∉ SystemBus.controllerPorts ∧ pc + 1 ∉ SystemBus.controllerPorts ∧
      pc + 1 + 1 ∉ SystemBus.controllerPorts := by
  simp only [portWindow, SystemBus.controllerPorts, List.mem_cons, List.not_mem_nil, or_false,
    not_or] at h ⊢
  grind

theorem port_of_mem_window {pc : UInt16} (h : pc ∈ portWindow) :
    0x0200 ≤ pc.toNat ∧
      (pc ∈ SystemBus.controllerPorts ∨ pc + 1 + 1 ∈ SystemBus.controllerPorts) := by
  simp only [portWindow, List.mem_cons, List.not_mem_nil, or_false] at h
  rcases h with rfl | rfl | rfl | rfl <;> decide

/-! ### Away from the ports -/

/-- An idle console executes the jump to itself. -/
theorem execute_idle (hwired : console.bus.Wired) (hidle : console.isIdle = true)
    (hpc : console.cpu.regs.pc ∉ portWindow) :
    Board.execute console.board = .ok ⟨console.cpu.regs.pc, 0x4C, .jmp, .absolute, 3⟩
      ⟨⟨console.cpu.regs, console.cpu.cycles + 3⟩, console.bus⟩ := by
  obtain ⟨hjump, htarget⟩ := isIdle_iff.mp hidle
  obtain ⟨hfirst, hsecond, hthird⟩ := not_mem_ports_of_window hpc
  have hopcode := hwired.bus_read_of_not_port hfirst
  rw [hjump] at hopcode
  rw [show console.cpu.regs.pc + 2 = console.cpu.regs.pc + 1 + 1 from
    (UInt16.add_assoc _ 1 1).symm] at htarget
  have hexecute : Board.execute console.board = .ok ⟨console.cpu.regs.pc, 0x4C, .jmp, .absolute, 3⟩
      ⟨⟨{ console.cpu.regs with
            pc := wordOf (console.bus.peek (console.cpu.regs.pc + 1))
              (console.bus.peek (console.cpu.regs.pc + 1 + 1)) },
        console.cpu.cycles + 3⟩, console.bus⟩ :=
    Board.execute_jump hopcode (hwired.bus_read_of_not_port hsecond)
      (hwired.bus_read_of_not_port hthird)
  rw [htarget] at hexecute
  exact hexecute

/-- Executes the given number of instructions and nothing else. -/
def ticks : Nat → Attempt Fault Console Unit
  | 0 => return ()
  | n + 1 => do
    let _ ← tick
    ticks n

/-- **An idle console stays idle** under any number of ticks, with its registers and its bus as they
were. -/
theorem idle_ticks (hwired : console.bus.Wired) (hidle : console.isIdle = true)
    (hpc : console.cpu.regs.pc ∉ portWindow) (n : Nat) :
    ∃ later, ticks n console = .ok () later ∧ later.cpu.regs = console.cpu.regs ∧
      later.bus = console.bus ∧ later.isIdle = true := by
  induction n generalizing console with
  | zero => exact ⟨console, rfl, rfl, rfl, hidle⟩
  | succ n ih =>
    obtain ⟨next, htick, hregs, hbus⟩ : ∃ next, tick console = .ok 3 next ∧
        next.cpu.regs = console.cpu.regs ∧ next.bus = console.bus :=
      ⟨_, tick_eq_ok.mpr ⟨_, _, execute_idle hwired hidle hpc, rfl, rfl⟩, rfl, rfl⟩
    have hnext : next.isIdle = true := by
      rw [isIdle, hregs, hbus]
      exact hidle
    rw [← hbus] at hwired
    rw [← hregs] at hpc
    obtain ⟨later, hticks, hlaterRegs, hlaterBus, hlater⟩ := ih hwired hnext hpc
    exact ⟨later, bind_eq_ok.mpr ⟨3, next, htick, hticks⟩, hlaterRegs.trans hregs,
      hlaterBus.trans hbus, hlater⟩

/-! ### At the ports -/

/-- If the last byte of the jump is read from a port, the jump leads to the lowest two pages. -/
theorem execute_before_port (hwired : console.bus.Wired) (hidle : console.isIdle = true)
    (hpc : console.cpu.regs.pc ∉ SystemBus.controllerPorts)
    (hport : console.cpu.regs.pc + 1 + 1 ∈ SystemBus.controllerPorts) :
    ∃ board, Board.execute console.board =
        .ok ⟨console.cpu.regs.pc, 0x4C, .jmp, .absolute, 3⟩ board ∧
      board.cpu.regs.pc.toNat < 0x0200 := by
  obtain ⟨hjump, -⟩ := isIdle_iff.mp hidle
  have hopcode := hwired.bus_read_of_not_port hpc
  rw [hjump] at hopcode
  obtain ⟨low, bus₁, hlow⟩ := TotalBus.read_ok (console.cpu.regs.pc + 1) console.bus
  obtain ⟨high, bus₂, hhigh⟩ := TotalBus.read_ok (console.cpu.regs.pc + 1 + 1) bus₁
  have hread : bus₁.Wired := by
    cases hlow
    exact hwired.read _
  refine ⟨_, Board.execute_jump hopcode hlow hhigh, ?_⟩
  have hlt := low.toNat_lt
  show (wordOf low high).toNat < 0x0200
  rw [toNat_wordOf]
  rcases hread.read_port_le hport hhigh with rfl | rfl
  · show 256 * 0 + low.toNat < 0x0200
    omega
  · show 256 * 1 + low.toNat < 0x0200
    omega

/-- If the opcode is read from a port, it is not that of a jump. -/
theorem not_jump_at_port (hwired : console.bus.Wired)
    (hport : console.cpu.regs.pc ∈ SystemBus.controllerPorts) {instruction : Step}
    {board : Board SystemBus} (h : Board.execute console.board = .ok instruction board) :
    instruction.mnemonic ≠ .jmp := by
  obtain ⟨byte, bus, o, -, -, -, -, hread, hdecode, -, -, rfl, -⟩ := Board.execute_eq_ok.mp h
  show o.mnemonic ≠ .jmp
  rcases hwired.read_port_le hport hread with rfl | rfl
  · have hbreak : Opcode.decode 0x00 = some ⟨0x00, .brk, .implicit, 7⟩ := by
      rw [Opcode.decode_eq_find?]
      rfl
    rw [hbreak] at hdecode
    cases hdecode
    decide
  · have hor : Opcode.decode 0x01 = some ⟨0x01, .ora, .indexedIndirect, 6⟩ := by
      rw [Opcode.decode_eq_find?]
      rfl
    rw [hor] at hdecode
    cases hdecode
    decide

/-- An idle console at a port does not jump to itself. -/
theorem leaves_at_port (hwired : console.bus.Wired) (hidle : console.isIdle = true)
    (hpc : console.cpu.regs.pc ∈ portWindow) {instruction : Step} {board : Board SystemBus}
    (h : Board.execute console.board = .ok instruction board)
    (hjmp : instruction.mnemonic = .jmp) : board.cpu.regs.pc ≠ console.cpu.regs.pc := by
  obtain ⟨hhigh, hwindow⟩ := port_of_mem_window hpc
  by_cases hport : console.cpu.regs.pc ∈ SystemBus.controllerPorts
  · exact absurd hjmp (not_jump_at_port hwired hport h)
  · have hthird : console.cpu.regs.pc + 1 + 1 ∈ SystemBus.controllerPorts :=
      hwindow.resolve_left hport
    obtain ⟨board', hexecute, hlow⟩ := execute_before_port hwired hidle hport hthird
    rw [h] at hexecute
    cases hexecute
    intro hstays
    rw [hstays] at hlow
    omega

/-! ### A program that parks at a port -/

/-- The step of a load. -/
theorem exists_load_step {value : UInt8}
    (hopcode : Bus.read console.cpu.regs.pc console.bus = .ok 0xA9 console.bus)
    (hoperand : Bus.read (console.cpu.regs.pc + 1) console.bus = .ok value console.bus)
    (hroom : console.vblank.elapsed + 2 ≤ console.vblank.threshold) :
    ∃ load : StepTaken, load.before = console ∧
      load.after.cpu.regs.pc = console.cpu.regs.pc + 2 ∧ load.after.cpu.regs.a = value ∧
      load.after.bus = console.bus ∧
      load.after.vblank = ⟨console.vblank.elapsed + 2, console.vblank.threshold⟩ := by
  obtain ⟨load, rfl, -, -, -, hloaded, hclock⟩ :=
    exists_stepTaken_of_room (Board.execute_load hopcode hoperand) hroom
  have hregs : load.after.cpu.regs = _ := congrArg (fun board => board.cpu.regs) hloaded
  have hbus : load.after.bus = load.before.bus := congrArg (fun board => board.bus) hloaded
  refine ⟨load, rfl, ?_⟩
  rw [hregs]
  exact ⟨UInt16.add_assoc _ 1 1, rfl, hbus, hclock⟩

/-- The step of a store at an absolute address. -/
theorem exists_store_step {low high : UInt8}
    (hopcode : Bus.read console.cpu.regs.pc console.bus = .ok 0x8D console.bus)
    (hlow : Bus.read (console.cpu.regs.pc + 1) console.bus = .ok low console.bus)
    (hhigh : Bus.read (console.cpu.regs.pc + 1 + 1) console.bus = .ok high console.bus)
    (hroom : console.vblank.elapsed + 4 ≤ console.vblank.threshold) :
    ∃ store : StepTaken, store.before = console ∧
      store.after.cpu.regs.pc = console.cpu.regs.pc + 3 ∧
      store.after.bus = console.bus.write (wordOf low high) console.cpu.regs.a ∧
      store.after.vblank = ⟨console.vblank.elapsed + 4, console.vblank.threshold⟩ := by
  obtain ⟨store, rfl, -, -, -, hstored, hclock⟩ :=
    exists_stepTaken_of_room (Board.execute_store hopcode hlow hhigh rfl) hroom
  have hregs : store.after.cpu.regs = _ := congrArg (fun board => board.cpu.regs) hstored
  have hbus : store.after.bus = _ := congrArg (fun board => board.bus) hstored
  have hpc : store.before.cpu.regs.pc + 1 + 1 + 1 = store.before.cpu.regs.pc + 3 := by
    rw [UInt16.add_assoc, UInt16.add_assoc]
    rfl
  refine ⟨store, rfl, ?_⟩
  rw [hregs]
  exact ⟨hpc, hbus, hclock⟩

/-- Two instructions that store a byte: a load of its value and a store at an absolute address. -/
theorem exists_feed {value low high : UInt8} (hwired : console.bus.Wired)
    (hroom : console.vblank.elapsed + 6 ≤ console.vblank.threshold)
    (hfrom : 0x8000 ≤ console.cpu.regs.pc.toNat) (hto : console.cpu.regs.pc.toNat ≤ 0xFFF0)
    (hcode : [0, 1, 2, 3, 4].map (fun i => console.bus.peek (console.cpu.regs.pc + i)) =
      [0xA9, value, 0x8D, low, high]) :
    ∃ load store : StepTaken, Drives console [load, store] store.after ∧
      store.after.cpu.regs.pc = console.cpu.regs.pc + 5 ∧
      store.after.bus = console.bus.write (wordOf low high) value ∧
      store.after.vblank = ⟨console.vblank.elapsed + 6, console.vblank.threshold⟩ := by
  have hread (i : UInt16) (hi : i.toNat ≤ 4) :
      Bus.read (console.cpu.regs.pc + i) console.bus =
        .ok (console.bus.peek (console.cpu.regs.pc + i)) console.bus := by
    refine hwired.bus_read (SystemBus.isStorage_program ?_)
    rw [UInt16.toNat_add]
    omega
  simp only [List.map_cons, List.map_nil, List.cons.injEq, and_true] at hcode
  obtain ⟨hload, hvalue, hstore, hlow, hhigh⟩ := hcode
  have hopcode := hread 0 (by decide)
  have hoperand := hread 1 (by decide)
  rw [hload, UInt16.add_zero] at hopcode
  rw [hvalue] at hoperand
  obtain ⟨load, rfl, hpc, ha, hbus, hclock⟩ := exists_load_step hopcode hoperand (by omega)
  have hnext : Bus.read load.after.cpu.regs.pc load.after.bus = .ok 0x8D load.after.bus := by
    rw [hbus, hpc, hread 2 (by decide), hstore]
  have hfirst : Bus.read (load.after.cpu.regs.pc + 1) load.after.bus = .ok low load.after.bus := by
    rw [hbus, hpc, UInt16.add_assoc, show (2 : UInt16) + 1 = 3 from rfl, hread 3 (by decide), hlow]
  have hsecond : Bus.read (load.after.cpu.regs.pc + 1 + 1) load.after.bus
      = .ok high load.after.bus := by
    rw [hbus, hpc, UInt16.add_assoc, UInt16.add_assoc, show (2 : UInt16) + (1 + 1) = 4 from rfl,
      hread 4 (by decide), hhigh]
  have hroom' : load.after.vblank.elapsed + 4 ≤ load.after.vblank.threshold := by
    rw [hclock]
    dsimp only
    omega
  obtain ⟨store, hbefore, hpc', hbus', hclock'⟩ :=
    exists_store_step hnext hfirst hsecond hroom'
  refine ⟨load, store, .step load ?_, ?_, ?_, ?_⟩
  · rw [← hbefore]
    exact .step store (.done _)
  · rw [hpc', hpc, UInt16.add_assoc]
    rfl
  · rw [hbus', hbus, ha]
  · rw [hclock', hclock]

/-- A program that stores the three bytes of a jump to `$4014` there, and goes to it. -/
def portProgram : List UInt8 :=
  [0xA9, 0x4C, 0x8D, 0x14, 0x40, 0xA9, 0x14, 0x8D, 0x15, 0x40, 0xA9, 0x40, 0x8D, 0x16, 0x40,
    0x4C, 0x14, 0x40]

/-- A cartridge with that program alone. -/
def portCartridge : Cartridge where
  header := ⟨1, 0, 0, .horizontal, false, false⟩
  banks := ⟨#[Vector.ofFn fun i => portProgram.getD i 0], #[], by decide⟩

/-- The bus shows that program from `$8000` on. -/
structure ShowsPortProgram (bus : SystemBus) : Prop where
  wired : bus.Wired
  program : ∀ i < 18, bus.peek (lowerWindow + UInt16.ofNat i) = portProgram.getD i 0

theorem showsPortProgram_powerOn (settings : Settings) :
    ShowsPortProgram (powerOn settings portCartridge).bus := by
  refine ⟨wired_powerOn settings portCartridge, ?_⟩
  intro i hi
  have hbank : i < 0x4000 := by omega
  rw [(peek_powerOn settings portCartridge hbank).1]
  exact Vector.getElem_ofFn hbank

/-- A store to the registers above the video registers leaves the program in place. -/
theorem ShowsPortProgram.write {bus : SystemBus} (h : ShowsPortProgram bus) {a : UInt16}
    (ha : SystemBus.fold a = a) (hlow : a.toNat < 0x8000) (hdata : a ≠ SystemBus.oamDataAddress)
    (value : UInt8) : ShowsPortProgram (bus.write a value) := by
  refine ⟨h.wired.write a value, ?_⟩
  intro i hi
  have hnumber := toNat_lowerWindow_add (i := i) (by omega)
  have hstorage : SystemBus.IsStorage (lowerWindow + UInt16.ofNat i) :=
    SystemBus.isStorage_program (by omega)
  rw [h.wired.peek_write, hstorage.fold_eq, ha, if_neg ?_, if_neg fun h => hdata h.1, h.program i hi]
  intro hsame
  rw [← hsame] at hnumber
  omega

/-- Before the program stores the byte with the given number. -/
structure PortStage (n : Nat) (console : Console) : Prop where
  shows : ShowsPortProgram console.bus
  pc : console.cpu.regs.pc = lowerWindow + UInt16.ofNat (5 * n)
  clock : console.vblank = ⟨6 * n, Region.ntsc.cyclesPerFrame⟩

/-- The bytes of the load and the store. -/
theorem PortStage.code {n : Nat} (h : PortStage n console) (hn : n < 3) :
    [0, 1, 2, 3, 4].map (fun i => console.bus.peek (console.cpu.regs.pc + i)) =
      (List.range 5).map fun i => portProgram.getD (5 * n + i) 0 := by
  rw [show [0, 1, 2, 3, 4] = (List.range 5).map UInt16.ofNat from rfl, List.map_map]
  refine List.map_congr_left fun i hi => ?_
  have hlt := List.mem_range.mp hi
  rw [Function.comp_apply, ← h.shows.program (5 * n + i) (by omega), h.pc, UInt16.add_assoc,
    ← UInt16.ofNat_add]

/-- The program stores a byte at a port or a register beside it. -/
theorem PortStage.exists_next {n : Nat} (h : PortStage n console) (hn : n < 3) (value low : UInt8)
    (hcode : (List.range 5).map (fun i => portProgram.getD (5 * n + i) 0) =
      [0xA9, value, 0x8D, low, 0x40])
    (hfold : SystemBus.fold (wordOf low 0x40) = wordOf low 0x40)
    (hregister : 0x4000 ≤ (wordOf low 0x40).toNat ∧ (wordOf low 0x40).toNat < 0x8000) :
    ∃ records next, Drives console records next ∧ PortStage (n + 1) next ∧
      next.bus = console.bus.write (wordOf low 0x40) value := by
  have hpc : console.cpu.regs.pc.toNat = 0x8000 + 5 * n := by
    rw [h.pc]
    exact toNat_lowerWindow_add (by omega)
  have hframe : Region.ntsc.cyclesPerFrame = 29781 := rfl
  have hdata : wordOf low 0x40 ≠ SystemBus.oamDataAddress := by
    intro hsame
    rw [hsame] at hregister
    exact absurd hregister.1 (by decide)
  have hroom : console.vblank.elapsed + 6 ≤ console.vblank.threshold := by
    rw [h.clock, hframe]
    dsimp only
    omega
  obtain ⟨load, store, hdrives, hnext, hbus, hclock⟩ :=
    exists_feed h.shows.wired hroom (by omega) (by omega) ((h.code hn).trans hcode)
  refine ⟨[load, store], store.after, hdrives, ⟨?_, ?_, ?_⟩, hbus⟩
  · rw [hbus]
    exact h.shows.write hfold hregister.2 hdata value
  · rw [hnext, h.pc, UInt16.add_assoc, Nat.mul_succ, UInt16.ofNat_add]
    rfl
  · rw [hclock, h.clock, Nat.mul_succ]

/-- Once its three bytes are stored, the program goes to the jump. -/
theorem PortStage.exists_jump (h : PortStage 3 console) : ∃ jump : StepTaken,
    Drives console [jump] jump.after ∧ jump.after.bus = console.bus ∧
      jump.after.cpu.regs.pc = 0x4014 := by
  have hpc : console.cpu.regs.pc = 0x800F := h.pc
  have hstorage (i : UInt16) (hi : i.toNat ≤ 2) :
      SystemBus.IsStorage (console.cpu.regs.pc + i) := by
    rw [hpc]
    refine SystemBus.isStorage_program ?_
    rw [UInt16.toNat_add]
    show 0x8000 ≤ (0x800F + i.toNat) % 65536
    omega
  have hbyte (i : Nat) (hi : i < 3) :
      console.bus.peek (console.cpu.regs.pc + UInt16.ofNat i) = portProgram.getD (15 + i) 0 := by
    rw [← h.shows.program (15 + i) (by omega), h.pc, UInt16.add_assoc, ← UInt16.ofNat_add]
  have hexecute := execute_jump h.shows.wired (by rw [hpc]; decide) (hstorage 1 (by decide))
    (hstorage 2 (by decide)) ((congrArg console.bus.peek (UInt16.add_zero _).symm).trans
      (hbyte 0 (by decide)))
  have hroom : console.vblank.elapsed + 3 ≤ console.vblank.threshold := by
    rw [h.clock]
    decide
  obtain ⟨jump, rfl, -, -, -, hboard, -⟩ := exists_stepTaken_of_room hexecute hroom
  refine ⟨jump, .step jump (.done _), congrArg (fun board => board.bus) hboard, ?_⟩
  refine (congrArg (fun board => board.cpu.regs.pc) hboard).trans ?_
  show wordOf (jump.before.bus.peek (jump.before.cpu.regs.pc + 1))
    (jump.before.bus.peek (jump.before.cpu.regs.pc + 2)) = 0x4014
  rw [show (1 : UInt16) = UInt16.ofNat 1 from rfl, show (2 : UInt16) = UInt16.ofNat 2 from rfl,
    hbyte 1 (by decide), hbyte 2 (by decide)]
  decide

/-! ### Idle consoles -/

theorem Drives.wired_final {start final : Console} {records : List StepTaken}
    (h : Drives start records final) (hstart : start.bus.Wired) : final.bus.Wired := by
  induction h with
  | done console => exact hstart
  | button pad button on hpressed _ ih =>
    obtain ⟨-, hspace, -⟩ := setButton_eq_some hpressed
    refine ih ?_
    rw [SystemBus.Wired, hspace]
    exact hstart
  | step taken _ ih => exact ih (StepTaken.after_wired hstart)

/-- **When idle detection is right.**  Let a console that has run since it was switched on count as
idle.  If its jump does not reach into the port of a controller, it is executed by the next tick, and
under any number of ticks the registers and the bus stay as they are, so that the console stays idle.
If it does reach into a port, then what is executed is not a jump to itself. -/
theorem idle_detection {settings : Settings} {cartridge : Cartridge} {records : List StepTaken}
    (h : Drives (powerOn settings cartridge) records console) (hidle : console.isIdle = true) :
    (console.cpu.regs.pc ∉ portWindow →
      (∃ after, tick console = .ok 3 after ∧
        Board.execute console.board =
          .ok ⟨console.cpu.regs.pc, 0x4C, .jmp, .absolute, 3⟩ after.board) ∧
      ∀ n, ∃ later, ticks n console = .ok () later ∧ later.cpu.regs = console.cpu.regs ∧
        later.bus = console.bus ∧ later.isIdle = true) ∧
    (console.cpu.regs.pc ∈ portWindow → ∀ instruction board,
      Board.execute console.board = .ok instruction board → instruction.mnemonic = .jmp →
        board.cpu.regs.pc ≠ console.cpu.regs.pc) := by
  have hwired := h.wired_final (wired_powerOn settings cartridge)
  refine ⟨?_, ?_⟩
  · intro hpc
    have hexecute := execute_idle hwired hidle hpc
    exact ⟨⟨_, tick_eq_ok.mpr ⟨_, _, hexecute, rfl, rfl⟩, hexecute⟩, idle_ticks hwired hidle hpc⟩
  · intro hpc instruction board hexecute hjmp
    exact leaves_at_port hwired hidle hpc hexecute hjmp

/-- The parked program, from the start on. -/
theorem parked_program_detected :
    let console := powerOn Settings.default parkingCartridge
    console.isIdle = true ∧ console.cpu.regs.pc ∉ portWindow ∧
      ∀ n, ∃ later, ticks n console = .ok () later ∧ later.isIdle = true := by
  intro console
  have hidle : console.isIdle = true :=
    (parked_parkingProgram (showsProgram_powerOn Settings.default _) rfl).idle
  have hpc : console.cpu.regs.pc ∉ portWindow := by
    show (0x8000 : UInt16) ∉ portWindow
    decide
  refine ⟨hidle, hpc, fun n => ?_⟩
  obtain ⟨later, hticks, -, -, hlater⟩ := ((idle_detection (.done console) hidle).1 hpc).2 n
  exact ⟨later, hticks, hlater⟩

/-- **A program that is not parked where it seems to be.**  It counts as idle at `$4014`, and the next
tick takes it away from there. -/
theorem port_program_leaves :
    ∃ records console after, Drives (powerOn Settings.default portCartridge) records console ∧
      console.cpu.regs.pc = 0x4014 ∧ console.isIdle = true ∧
      tick console = .ok 3 after ∧ after.cpu.regs.pc ≠ 0x4014 := by
  have hstart : PortStage 0 (powerOn Settings.default portCartridge) :=
    ⟨showsPortProgram_powerOn Settings.default, rfl, rfl⟩
  obtain ⟨first, mid₁, hdrives₁, hstage₁, hbus₁⟩ :=
    hstart.exists_next (by decide) 0x4C 0x14 rfl (by decide) (by decide)
  obtain ⟨second, mid₂, hdrives₂, hstage₂, hbus₂⟩ :=
    hstage₁.exists_next (by decide) 0x14 0x15 rfl (by decide) (by decide)
  obtain ⟨third, mid₃, hdrives₃, hstage₃, hbus₃⟩ :=
    hstage₂.exists_next (by decide) 0x40 0x16 rfl (by decide) (by decide)
  obtain ⟨jump, hdrives, hbus, hpc⟩ := hstage₃.exists_jump
  have hwired : jump.after.bus.Wired := by
    rw [hbus]
    exact hstage₃.shows.wired
  have hidle : jump.after.isIdle = true := by
    have hstored := hstart.shows.wired.peek_stored_jump
    rw [← hbus₁, ← hbus₂, ← hbus₃, ← hbus] at hstored
    obtain ⟨hopcode, hlow, hhigh⟩ := hstored
    rw [isIdle_iff, hpc]
    refine ⟨hopcode, ?_⟩
    rw [show (0x4014 : UInt16) + 1 = 0x4015 from rfl, show (0x4014 : UInt16) + 2 = 0x4016 from rfl,
      hlow, hhigh]
    decide
  obtain ⟨board, hexecute, hlow⟩ := execute_before_port hwired hidle (by rw [hpc]; decide)
    (by rw [hpc]; decide)
  refine ⟨_, jump.after, _, hdrives₁.append (hdrives₂.append (hdrives₃.append hdrives)), hpc, hidle,
    tick_eq_ok.mpr ⟨_, board, hexecute, rfl, rfl⟩, ?_⟩
  intro hstays
  replace hstays : board.cpu.regs.pc = 0x4014 := hstays
  rw [hstays] at hlow
  exact absurd hlow (by decide)

end Console

end NesMachine
