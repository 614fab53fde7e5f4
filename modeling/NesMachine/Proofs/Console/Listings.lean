import NesMachine.Proofs.Console.Undisturbed
import NesMachine.Proofs.Cpu.Destinations

/-!
# Listings

A program that works on page zero is a list of lines, each an opcode with the byte behind it.  Where
such a line lies in the program window, a console's processor does with its board what the effect of
the line on a flat memory tells, so that the program can be followed there.

* `Opcode.Simple`: the opcodes that neither index nor follow a pointer, nor use the stack;
* `Line.apply`: the effect of a line on registers and memory;
* `Line.execute_eq`: on the system bus, a line has this effect and no other;
* `Line.works`: a list of lines without a branch has the effects of its lines, one after the other.
-/

namespace NesMachine

/-! ### Storage as a flat memory -/

namespace SystemBus

variable {bus : SystemBus} {a : UInt16}

/-- The bus with other bytes in the processor's address space. -/
def withBytes (bus : SystemBus) (bytes : Memory) : SystemBus :=
  { bus with space := ⟨bytes, bus.space.routes⟩ }

theorem bytes_withBytes (bus : SystemBus) (bytes : Memory) :
    (bus.withBytes bytes).space.bytes = bytes := rfl

theorem withBytes_bytes (bus : SystemBus) : bus.withBytes bus.space.bytes = bus := rfl

theorem Wired.withBytes (h : bus.Wired) (bytes : Memory) : (bus.withBytes bytes).Wired := h

theorem Wired.peek_of_storage (h : bus.Wired) (ha : IsStorage a) :
    bus.peek a = bus.space.bytes[a] := by
  rw [peek, AddressSpace.peek, h.owner_of_storage ha]

theorem Wired.bus_read_bytes (h : bus.Wired) (ha : IsStorage a) :
    Bus.read a bus = .ok bus.space.bytes[a] bus := by
  rw [h.bus_read ha, h.peek_of_storage ha]

theorem Wired.bus_write_bytes (h : bus.Wired) (ha : IsStorage a) (value : UInt8) :
    Bus.write a value bus = .ok () (bus.withBytes (bus.space.bytes.set a value)) := by
  have hpoke : bus.poke a value =
      bus.withBytes (bus.space.bytes.set (bus.space.owner a) value) := rfl
  show EStateM.Result.ok () (bus.write a value) = _
  rw [h.write_of_storage ha, hpoke, h.owner_of_storage ha]

theorem isStorage_zeroPage (cell : UInt8) : IsStorage cell.toUInt16 := by
  have hlt := cell.toNat_lt
  refine .inl ?_
  rw [UInt8.toNat_toUInt16]
  omega

end SystemBus

/-! ### Code in the program window -/

namespace SystemBus

variable {bus : SystemBus} {a : UInt16} {code later : List UInt8} {i : Nat}

/-- The bus shows code in the program window, from an address on. -/
def Shows (bus : SystemBus) (a : UInt16) (code : List UInt8) : Prop :=
  ∀ (i : Nat) (hi : i < code.length),
    0x8000 ≤ (a + UInt16.ofNat i).toNat ∧ bus.peek (a + UInt16.ofNat i) = code[i]

theorem Shows.front (h : bus.Shows a (code ++ later)) : bus.Shows a code := by
  intro i hi
  obtain ⟨hplace, hbyte⟩ := h i (by rw [List.length_append]; omega)
  rw [List.getElem_append_left hi] at hbyte
  exact ⟨hplace, hbyte⟩

theorem Shows.back (h : bus.Shows a (code ++ later)) :
    bus.Shows (a + UInt16.ofNat code.length) later := by
  intro i hi
  obtain ⟨hplace, hbyte⟩ := h (code.length + i) (by rw [List.length_append]; omega)
  rw [List.getElem_append_right (Nat.le_add_right _ _)] at hbyte
  rw [UInt16.add_assoc, ← UInt16.ofNat_add]
  refine ⟨hplace, hbyte.trans ?_⟩
  congr 1
  omega

theorem Shows.first (h : bus.Shows a code) {byte : UInt8} (hbyte : code[0]? = some byte) :
    0x8000 ≤ a.toNat ∧ bus.peek a = byte := by
  obtain ⟨hpos, hbyte⟩ := List.getElem?_eq_some_iff.mp hbyte
  obtain ⟨hplace, hpeek⟩ := h 0 hpos
  rw [show a + UInt16.ofNat 0 = a from UInt16.add_zero a] at hplace hpeek
  exact ⟨hplace, hpeek.trans hbyte⟩

/-- The processor reads what it is shown. -/
theorem Shows.bus_read (h : bus.Shows a code) (hwired : bus.Wired) {byte : UInt8}
    (hbyte : code[i]? = some byte) : Bus.read (a + UInt16.ofNat i) bus = .ok byte bus := by
  obtain ⟨hi, hbyte⟩ := List.getElem?_eq_some_iff.mp hbyte
  obtain ⟨hplace, hpeek⟩ := h i hi
  rw [hwired.bus_read (isStorage_program hplace), hpeek, hbyte]

/-- Bytes that agree in the program window show the same code. -/
theorem Shows.withBytes (h : bus.Shows a code) (hwired : bus.Wired) {bytes : Memory}
    (hsame : ∀ b : UInt16, 0x8000 ≤ b.toNat → bytes[b] = bus.space.bytes[b]) :
    (bus.withBytes bytes).Shows a code := by
  intro i hi
  obtain ⟨hplace, hpeek⟩ := h i hi
  have hstorage := isStorage_program hplace
  refine ⟨hplace, ?_⟩
  rw [(hwired.withBytes bytes).peek_of_storage hstorage, bytes_withBytes, hsame _ hplace,
    ← hwired.peek_of_storage hstorage, hpeek]

end SystemBus

/-! ### Simple opcodes -/

/-- The actions that work on the registers, the operand and the program counter alone. -/
def Action.simple : Action → Bool
  | .load _ | .store _ | .transfer _ _ | .fromStackPointer | .toStackPointer | .add | .subtract
  | .compare _ | .combine _ | .bitTest | .adjust _ | .adjustReg _ _ | .branch _ _ | .putFlag _ _
  | .nothing => true
  | _ => false

/-- The opcodes of such actions whose operand is the byte behind them or lies in page zero where this
byte tells. -/
structure Opcode.Simple (o : Opcode) : Prop where
  listed : o ∈ Opcode.all
  mode : o.mode ∈ [Mode.implicit, .immediate, .zeroPage, .relative]
  action : o.mnemonic.action.simple = true

instance (o : Opcode) : Decidable o.Simple :=
  decidable_of_iff (o ∈ Opcode.all ∧ o.mode ∈ [Mode.implicit, .immediate, .zeroPage, .relative] ∧
    o.mnemonic.action.simple = true)
    ⟨fun h => ⟨h.1, h.2.1, h.2.2⟩, fun h => ⟨h.listed, h.mode, h.action⟩⟩

/-- What stores is in page zero, and what branches is relative. -/
theorem Opcode.Simple.modes {o : Opcode} (h : o.Simple) :
    (o.mnemonic.action.stores = true → o.mode = .zeroPage) ∧
      (o.mnemonic.action.branches = true → o.mode = .relative) :=
  (by decide +kernel : ∀ o ∈ Opcode.all, o.mode ∈ [Mode.implicit, .immediate, .zeroPage, .relative] →
    o.mnemonic.action.simple = true → (o.mnemonic.action.stores = true → o.mode = .zeroPage) ∧
      (o.mnemonic.action.branches = true → o.mode = .relative)) o h.listed h.mode h.action

namespace Board

variable {m : Mnemonic} {op : Operand} {regs : Registers} {cycles : Nat} {bus : SystemBus}

/-- The board with the registers and the bytes that an instruction leaves. -/
def left (bus : SystemBus) (cycles : Nat) (state : Registers × Memory) : Board SystemBus :=
  ⟨⟨state.1, cycles⟩, bus.withBytes state.2⟩

/-- A simple action has its effect, if what it stores goes to storage. -/
theorem act_simple {action : Action} (haction : action.simple = true)
    (hbranches : action.branches = false) (hwired : bus.Wired)
    (hstores : action.stores = true → ∃ a, op.address = some a ∧ SystemBus.IsStorage a) :
    act m op action ⟨⟨regs, cycles⟩, bus⟩ =
      .ok () (left bus cycles (action.effect op regs bus.space.bytes)) := by
  cases action with
  | load | transfer | fromStackPointer | toStackPointer | add | subtract | compare | combine | bitTest
  | adjustReg | putFlag | nothing => rfl
  | store src =>
    obtain ⟨a, haddress, ha⟩ := hstores rfl
    refine Attempt.bind_eq_ok.mpr ⟨a, _, requireAddress_eq_ok.mpr ⟨haddress, rfl⟩, ?_⟩
    refine Attempt.bind_eq_ok.mpr ⟨_, _, rfl, ?_⟩
    rw [Action.effect, Operand.target_of_some haddress]
    exact onBus_eq_ok.mpr ⟨_, hwired.bus_write_bytes ha _, rfl⟩
  | adjust delta =>
    obtain ⟨a, haddress, ha⟩ := hstores rfl
    refine Attempt.bind_eq_ok.mpr ⟨a, _, requireAddress_eq_ok.mpr ⟨haddress, rfl⟩, ?_⟩
    rw [Action.effect, Operand.target_of_some haddress]
    exact Attempt.bind_eq_ok.mpr ⟨(), _, onBus_eq_ok.mpr ⟨_, hwired.bus_write_bytes ha _, rfl⟩, rfl⟩
  | branch => cases hbranches
  | pushA | pushStatus | pullA | pullStatus | shift | jump | call | leaveCall | leaveInterrupt
  | softwareInterrupt => cases haction

theorem branch_simple {mask : UInt8} {on : Bool} {a : UInt16} (haddress : op.address = some a) :
    branch m op mask on ⟨⟨regs, cycles⟩, bus⟩ = .ok (regs.p.has mask == on).toNat
      (left bus cycles ((Action.branch mask on).effect op regs bus.space.bytes)) := by
  refine Attempt.bind_eq_ok.mpr ⟨_, _, rfl, ?_⟩
  rw [Action.effect, Operand.target_of_some haddress]
  by_cases htaken : (regs.p.has mask == on) = true
  · rw [if_pos htaken, if_pos htaken, htaken]
    exact Attempt.bind_eq_ok.mpr ⟨a, _, requireAddress_eq_ok.mpr ⟨haddress, rfl⟩, rfl⟩
  · rw [if_neg htaken, if_neg htaken, Bool.eq_false_iff.mpr htaken]
    rfl

/-- The same for whole instructions; a branch that is taken adds a cycle. -/
theorem perform_simple (haction : m.action.simple = true) (hwired : bus.Wired)
    (hstores : m.action.stores = true → ∃ a, op.address = some a ∧ SystemBus.IsStorage a)
    (hbranches : m.action.branches = true → ∃ a, op.address = some a) :
    perform m op ⟨⟨regs, cycles⟩, bus⟩ = .ok (m.taken regs.p).toNat
      (left bus cycles (m.action.effect op regs bus.space.bytes)) := by
  unfold perform
  cases hm : m.action with
  | branch mask on =>
    obtain ⟨a, haddress⟩ := hbranches (by rw [hm]; rfl)
    rw [Mnemonic.taken_of_branch hm]
    exact branch_simple haddress
  | _ =>
    rw [Mnemonic.taken_of_not_branches (by rw [hm]; rfl)]
    rw [hm] at haction hstores
    exact Attempt.bind_eq_ok.mpr ⟨(), _, act_simple haction rfl hwired hstores, rfl⟩

end Board

/-! ### Lines -/

/-- A line of a listing: an opcode and the byte behind it, which some opcodes do without. -/
structure Line where
  opcode : Opcode
  operand : UInt8 := 0

namespace Line

variable {line : Line} {regs : Registers} {memory : Memory}

/-- The bytes of a line. -/
def code (line : Line) : List UInt8 :=
  match line.opcode.mode with
  | .implicit => [line.opcode.byte]
  | _ => [line.opcode.byte, line.operand]

/-- The registers once a line has been read. -/
def behind (line : Line) (regs : Registers) : Registers :=
  { regs with pc := regs.pc + UInt16.ofNat line.code.length }

/-- The operand that a line names. -/
def operandOf (line : Line) (regs : Registers) (memory : Memory) : Operand :=
  match line.opcode.mode with
  | .immediate => .bare .immediate line.operand
  | .zeroPage =>
    let value :=
      match line.opcode.fetch with
      | .value => memory[line.operand.toUInt16]
      | .addressOnly => 0
    .located .zeroPage value line.operand.toUInt16 false
  | .relative =>
    .located .relative line.operand ((line.behind regs).pc + signedOffset line.operand) false
  | mode => .bare mode 0

/-- The registers and the memory that a line leaves. -/
def apply (line : Line) : Registers × Memory → Registers × Memory
  | (regs, memory) =>
    line.opcode.mnemonic.action.effect (line.operandOf regs memory) (line.behind regs) memory

/-- The record of a line that is executed. -/
def step (line : Line) (regs : Registers) : Step where
  pc := regs.pc
  opcode := line.opcode.byte
  mnemonic := line.opcode.mnemonic
  mode := line.opcode.mode
  cycles := line.opcode.cycles + (line.opcode.mnemonic.taken regs.p).toNat

/-! ### Executing a line -/

theorem code_zero (line : Line) : line.code[0]? = some line.opcode.byte := by
  unfold code
  split <;> rfl

variable {board : Board SystemBus}

/-- The opcode of a line. -/
theorem read_opcode (hwired : board.bus.Wired)
    (hcode : board.bus.Shows board.cpu.regs.pc line.code) :
    Bus.read board.cpu.regs.pc board.bus = .ok line.opcode.byte board.bus := by
  obtain ⟨hplace, hpeek⟩ := hcode.first line.code_zero
  rw [hwired.bus_read (SystemBus.isStorage_program hplace), hpeek]

/-- The byte behind an opcode. -/
theorem fetch_eq {byte operand : UInt8} (hwired : board.bus.Wired)
    (hcode : board.bus.Shows board.cpu.regs.pc [byte, operand]) :
    Board.fetch (board.opened board.bus) = .ok operand
      ⟨⟨{ board.cpu.regs with pc := board.cpu.regs.pc + UInt16.ofNat 2 }, board.cpu.cycles⟩,
        board.bus⟩ := by
  have hread : Bus.read (board.cpu.regs.pc + UInt16.ofNat 1) board.bus = .ok operand board.bus :=
    hcode.bus_read hwired rfl
  rw [AddressSpace.add_ofNat_succ]
  exact Board.fetch_eq_ok.mpr ⟨board.bus, hread, rfl⟩

/-- Reading a line leads behind it, to the operand that it names. -/
theorem resolve_eq (hsimple : line.opcode.Simple) (hwired : board.bus.Wired)
    (hcode : board.bus.Shows board.cpu.regs.pc line.code) :
    Board.resolve line.opcode.mode line.opcode.fetch (board.opened board.bus) =
      .ok (line.operandOf board.cpu.regs board.bus.space.bytes)
        ⟨⟨line.behind board.cpu.regs, board.cpu.cycles⟩, board.bus⟩ := by
  have hmode := hsimple.mode
  obtain ⟨⟨byte, m, mode, cycles⟩, operand⟩ := line
  simp only [List.mem_cons, List.not_mem_nil, or_false] at hmode
  obtain rfl | rfl | rfl | rfl := hmode
  · rfl
  · exact Attempt.bind_eq_ok.mpr ⟨operand, _, fetch_eq hwired hcode, rfl⟩
  · refine Attempt.bind_eq_ok.mpr ⟨operand, _, fetch_eq hwired hcode, ?_⟩
    refine Attempt.bind_eq_ok.mpr ⟨_, _, rfl, ?_⟩
    rw [UInt8.add_zero]
    refine Board.locate_eq_ok.mpr ?_
    unfold operandOf
    dsimp only [Opcode.fetch]
    cases m.fetch with
    | value =>
      exact ⟨_, _, hwired.bus_read_bytes (SystemBus.isStorage_zeroPage operand), rfl, rfl⟩
    | addressOnly => exact ⟨rfl, rfl⟩
  · refine Attempt.bind_eq_ok.mpr ⟨operand, _, fetch_eq hwired hcode, ?_⟩
    exact Attempt.bind_eq_ok.mpr ⟨_, _, rfl, rfl⟩

theorem address_of_zeroPage (hmode : line.opcode.mode = .zeroPage) (regs : Registers)
    (memory : Memory) : (line.operandOf regs memory).address = some line.operand.toUInt16 := by
  rw [operandOf, hmode]
  rfl

theorem address_of_relative (hmode : line.opcode.mode = .relative) (regs : Registers)
    (memory : Memory) : (line.operandOf regs memory).address =
      some ((line.behind regs).pc + signedOffset line.operand) := by
  rw [operandOf, hmode]
  rfl

theorem pageCrossed_operandOf (line : Line) (regs : Registers) (memory : Memory) :
    (line.operandOf regs memory).pageCrossed = false := by
  unfold operandOf
  split <;> rfl

/-- **A line on the system bus** has its effect on the registers and on the stored bytes, and no other. -/
theorem execute_eq (hsimple : line.opcode.Simple) (hwired : board.bus.Wired)
    (hcode : board.bus.Shows board.cpu.regs.pc line.code) :
    Board.execute board = .ok (line.step board.cpu.regs)
      (Board.left board.bus (board.cpu.cycles + (line.step board.cpu.regs).cycles)
        (line.apply (board.cpu.regs, board.bus.space.bytes))) := by
  obtain ⟨hstores, hbranches⟩ := hsimple.modes
  have hperform : Board.perform line.opcode.mnemonic
      (line.operandOf board.cpu.regs board.bus.space.bytes)
      ⟨⟨line.behind board.cpu.regs, board.cpu.cycles⟩, board.bus⟩ = .ok _ _ :=
    Board.perform_simple hsimple.action hwired
      (fun h => ⟨_, address_of_zeroPage (hstores h) _ _, SystemBus.isStorage_zeroPage _⟩)
      (fun h => ⟨_, address_of_relative (hbranches h) _ _⟩)
  refine Board.execute_eq_ok.mpr ⟨_, _, _, _, _, _, _, read_opcode hwired hcode,
    Opcode.decode_byte hsimple.listed, resolve_eq hsimple hwired hcode, hperform, ?_, rfl⟩
  rw [pageCrossed_operandOf, Bool.and_false]
  rfl

theorem not_idle (hsimple : line.opcode.Simple)
    (hcode : board.bus.Shows board.cpu.regs.pc line.code) : ¬ board.Idle := by
  have hjump : ∀ o ∈ Opcode.all, o.mnemonic.action.simple = true → o.byte ≠ Console.jumpOpcode := by
    decide +kernel
  obtain ⟨-, hpeek⟩ := hcode.first line.code_zero
  intro hidle
  exact hjump _ hsimple.listed hsimple.action (hpeek.symm.trans hidle.1)

/-! ### Effects one after the other -/

/-- The lines never branch. -/
def Straight (lines : List Line) : Prop :=
  ∀ line ∈ lines, line.opcode.Simple ∧ line.opcode.mnemonic.action.branches = false

instance : DecidablePred Straight := fun lines =>
  inferInstanceAs (Decidable (∀ line ∈ lines, _))

/-- The bytes of lines. -/
def codeOf (lines : List Line) : List UInt8 := lines.flatMap code

/-- The base cycles of lines. -/
def cyclesOf (lines : List Line) : Nat := (lines.map (·.opcode.cycles)).sum

/-- The registers and the memory that lines leave. -/
def applyAll (lines : List Line) (state : Registers × Memory) : Registers × Memory :=
  lines.foldl (fun state line => line.apply state) state

variable {lines : List Line} {state : Registers × Memory} {a : UInt16}

theorem pc_apply (hsimple : line.opcode.Simple)
    (hstraight : line.opcode.mnemonic.action.branches = false) :
    (line.apply state).1.pc = state.1.pc + UInt16.ofNat line.code.length := by
  have hdeparts : ∀ o ∈ Opcode.all, o.mnemonic.action.simple = true →
      o.mnemonic ∉ Mnemonic.departs := by decide +kernel
  exact Action.pc_effect (hdeparts _ hsimple.listed hsimple.action)
    (Mnemonic.taken_of_not_branches hstraight _)

/-- A line writes to page zero alone. -/
theorem memory_apply (hsimple : line.opcode.Simple) (ha : 0x0100 ≤ a.toNat) :
    (line.apply state).2[a] = state.2[a] := by
  have htarget (h : line.opcode.mnemonic.action.stores = true) :
      (line.operandOf state.1 state.2).target ≠ a := by
    rw [Operand.target_of_some (address_of_zeroPage (hsimple.modes.1 h) _ _)]
    intro heq
    have hlt := line.operand.toNat_lt
    rw [← heq, UInt8.toNat_toUInt16] at ha
    omega
  have haction := hsimple.action
  unfold apply
  dsimp only
  generalize line.opcode.mnemonic.action = action at haction htarget
  cases action with
  | store | adjust => exact Cells.getElem_set_of_ne _ (htarget rfl) _
  | load | transfer | fromStackPointer | toStackPointer | add | subtract | compare | combine | bitTest
  | adjustReg | putFlag | branch | nothing => rfl
  | pushA | pushStatus | pullA | pullStatus | shift | jump | call | leaveCall | leaveInterrupt
  | softwareInterrupt => cases haction

theorem pc_applyAll (hlines : Straight lines) :
    (applyAll lines state).1.pc = state.1.pc + UInt16.ofNat (codeOf lines).length := by
  induction lines generalizing state with
  | nil => exact (UInt16.add_zero _).symm
  | cons line lines ih =>
    obtain ⟨⟨hsimple, hstraight⟩, hrest⟩ := List.forall_mem_cons.mp hlines
    have hlength : (codeOf (line :: lines)).length = line.code.length + (codeOf lines).length :=
      List.length_append
    rw [hlength, UInt16.ofNat_add, ← UInt16.add_assoc, ← pc_apply hsimple hstraight]
    exact ih hrest

theorem memory_applyAll (hlines : Straight lines) (ha : 0x0100 ≤ a.toNat) :
    (applyAll lines state).2[a] = state.2[a] := by
  induction lines generalizing state with
  | nil => rfl
  | cons line lines ih =>
    obtain ⟨⟨hsimple, -⟩, hrest⟩ := List.forall_mem_cons.mp hlines
    exact (ih hrest).trans (memory_apply hsimple ha)

/-- **Lines one after the other.**  Where lines without a branch stand in the program window, the
processor goes through them in their base cycles, and they have their effects one after the other. -/
theorem works (hlines : Straight lines) (hwired : board.bus.Wired)
    (hcode : board.bus.Shows board.cpu.regs.pc (codeOf lines)) :
    ∃ instructions, Board.Works board instructions
        (Board.left board.bus (board.cpu.cycles + cyclesOf lines)
          (applyAll lines (board.cpu.regs, board.bus.space.bytes))) ∧
      instructions.length = lines.length ∧ Board.cyclesOf instructions = cyclesOf lines := by
  induction lines generalizing board with
  | nil => exact ⟨[], .done board, rfl, rfl⟩
  | cons line lines ih =>
    obtain ⟨⟨hsimple, hstraight⟩, hrest⟩ := List.forall_mem_cons.mp hlines
    have hexecute := execute_eq hsimple hwired hcode.front
    have hcycles : (line.step board.cpu.regs).cycles = line.opcode.cycles := by
      rw [step, Mnemonic.taken_of_not_branches hstraight]
      rfl
    obtain ⟨mid, hmid⟩ : ∃ mid, mid = Board.left board.bus
        (board.cpu.cycles + (line.step board.cpu.regs).cycles)
        (line.apply (board.cpu.regs, board.bus.space.bytes)) := ⟨_, rfl⟩
    have hmidWired : mid.bus.Wired := by
      rw [hmid]
      exact hwired.withBytes _
    -- the effect of the line has left the rest of the code where it was
    have hmidCode : mid.bus.Shows mid.cpu.regs.pc (codeOf lines) := by
      have hpc : mid.cpu.regs.pc = board.cpu.regs.pc + UInt16.ofNat line.code.length := by
        rw [hmid]
        exact pc_apply hsimple hstraight
      rw [hpc, hmid]
      exact hcode.back.withBytes hwired fun b hb => memory_apply hsimple (by omega)
    obtain ⟨instructions, hworks, hlength, hsum⟩ := ih hrest hmidWired hmidCode
    refine ⟨line.step board.cpu.regs :: instructions, ?_, ?_, ?_⟩
    · have htotal : board.cpu.cycles + cyclesOf (line :: lines) =
          mid.cpu.cycles + cyclesOf lines := by
        rw [hmid]
        show _ = board.cpu.cycles + _ + _
        rw [hcycles, Nat.add_assoc]
        rfl
      rw [← hmid] at hexecute
      refine .step (not_idle hsimple hcode.front) hexecute ?_
      rw [htotal]
      rw [hmid] at hworks ⊢
      exact hworks
    · rw [List.length_cons, List.length_cons, hlength]
    · rw [Board.cyclesOf, hcycles, hsum]
      rfl

end Line

end NesMachine
