import NesMachine.Bus.Memory
import NesMachine.Bus.Recorder
import NesMachine.Proofs.Cpu.Frames
import NesMachine.Proofs.Cpu.Operands

/-!
# The traffic of an instruction

Reads can have effects, so it matters which addresses an instruction reads, how often and in which
order.  `Opcode.traffic` lists its accesses from the registers and the memory at the start alone;
`execute_traffic` says that a recorder in front of a flat memory sees this list and nothing else.

* `Mode.effectiveAddress`: where the operand of a mode lies, with all wraps written out;
* `resolve_recorded`: resolving an operand reads its bytes, then its pointer and then, if at all,
  its value;
* `perform_touches`: carrying an instruction out makes the accesses that `Mnemonic.stackTraffic`
  and the stores of the instruction call for.
-/

namespace NesMachine

/-! ### Accesses without their bytes -/

/-- The kind and the address of an access. -/
inductive Touch where
  | read (a : UInt16)
  | write (a : UInt16)
deriving DecidableEq

def BusAccess.touch : BusAccess → Touch
  | .read a _ => .read a
  | .write a _ => .write a

namespace Recorder

variable {β : Type}

/-- The accesses made so far, in their order. -/
def touches (recorder : Recorder β) : List Touch := recorder.log.map BusAccess.touch

theorem touches_cons (bus bus' : β) (faults : List UInt32) (entry : BusAccess)
    (history : List BusAccess) :
    touches ⟨bus', faults, entry :: history⟩ =
      touches ⟨bus, faults, history⟩ ++ [entry.touch] := by
  simp [touches, log]

variable [Bus β]

theorem touches_read {recorder recorder' : Recorder β} {a : UInt16} {value : UInt8}
    (h : Bus.read a recorder = .ok value recorder') :
    recorder'.touches = recorder.touches ++ [.read a] := by
  obtain ⟨-, bus, -, rfl⟩ := access_eq_ok.mp h
  exact touches_cons _ _ _ _ _

theorem touches_write {recorder recorder' : Recorder β} {a : UInt16} {value : UInt8} {u : Unit}
    (h : Bus.write a value recorder = .ok u recorder') :
    recorder'.touches = recorder.touches ++ [.write a] := by
  obtain ⟨-, bus, -, rfl⟩ := access_eq_ok.mp h
  exact touches_cons _ _ _ _ _

/-- The recorder of a flat memory after reads. -/
def reading (recorder : Recorder Memory) (addresses : List UInt16) : Recorder Memory :=
  ⟨recorder.bus, recorder.faults,
    (addresses.map fun a => .read a recorder.bus[a]).reverse ++ recorder.history⟩

theorem bus_reading (recorder : Recorder Memory) (addresses : List UInt16) :
    (recorder.reading addresses).bus = recorder.bus := rfl

theorem reading_append (recorder : Recorder Memory) (addresses later : List UInt16) :
    recorder.reading (addresses ++ later) = (recorder.reading addresses).reading later := by
  simp [reading]

theorem touches_reading (recorder : Recorder Memory) (addresses : List UInt16) :
    (recorder.reading addresses).touches = recorder.touches ++ addresses.map .read := by
  have hread : BusAccess.touch ∘ (fun a => .read a recorder.bus[a]) = Touch.read := rfl
  simp [touches, log, reading, hread]

theorem read_memory_eq_ok {recorder recorder' : Recorder Memory} {a : UInt16} {value : UInt8} :
    Bus.read a recorder = .ok value recorder' ↔
      recorder.faults.contains a.toUInt32 = false ∧ value = recorder.bus[a] ∧
        recorder' = recorder.reading [a] := by
  refine access_eq_ok.trans (and_congr_right fun _ => ⟨?_, ?_⟩)
  · intro hparts
    obtain ⟨bus, hread, rfl⟩ := hparts
    cases hread
    exact ⟨rfl, rfl⟩
  · intro hparts
    obtain ⟨rfl, rfl⟩ := hparts
    exact ⟨recorder.bus, rfl, rfl⟩

end Recorder

/-! ### What an instruction accesses -/

namespace Mode

/-- The addresses of the bytes behind an opcode. -/
def operandBytes (mode : Mode) (pc : UInt16) : List UInt16 :=
  (List.range mode.operandLength.toNat).map fun i => pc + 1 + UInt16.ofNat i

/-- The address of the second byte of a pointer. A pointer at the end of a page goes on at the start
of that page. -/
def secondByte (pointer : UInt16) : UInt16 :=
  if pointer % 0x100 = 0xFF then pointer - 0xFF else pointer + 1

/-- The address that a pointer holds. -/
def pointed (memory : Memory) (pointer : UInt16) : UInt16 :=
  wordOf memory[pointer] memory[secondByte pointer]

variable (mode : Mode) (regs : Registers) (memory : Memory)

/-- The addresses of the pointer that a mode goes through, if any. -/
def pointerBytes : List UInt16 :=
  let byte := memory[regs.pc + 1]
  let both (pointer : UInt16) := [pointer, secondByte pointer]
  match mode with
  | .indirect => both (wordOf byte memory[regs.pc + 2])
  | .indexedIndirect => both (byte + regs.x).toUInt16
  | .indirectIndexed => both byte.toUInt16
  | _ => []

/-- Where in memory the operand of a mode lies, if anywhere. -/
def effectiveAddress : Option UInt16 :=
  let byte := memory[regs.pc + 1]
  let word := wordOf byte memory[regs.pc + 2]
  match mode with
  | .implicit | .accumulator | .immediate | .relative => none
  | .zeroPage => some byte.toUInt16
  | .zeroPageX => some (byte + regs.x).toUInt16
  | .zeroPageY => some (byte + regs.y).toUInt16
  | .absolute => some word
  | .absoluteX => some (word + regs.x.toUInt16)
  | .absoluteY => some (word + regs.y.toUInt16)
  | .indirect => some (pointed memory word)
  | .indexedIndirect => some (pointed memory (byte + regs.x).toUInt16)
  | .indirectIndexed => some (pointed memory byte.toUInt16 + regs.y.toUInt16)

end Mode

/-- What an instruction does to the stack, and the vector that a break goes through. -/
def Mnemonic.stackTraffic (m : Mnemonic) (s : UInt8) : List Touch :=
  match m with
  | .pha | .php => [.write (slotAddress s)]
  | .pla | .plp => [.read (slotAddress (s + 1))]
  | .jsr => [.write (slotAddress s), .write (slotAddress (s - 1))]
  | .rts => [.read (slotAddress (s + 1)), .read (slotAddress (s + 2))]
  | .rti => [.read (slotAddress (s + 1)), .read (slotAddress (s + 2)), .read (slotAddress (s + 3))]
  | .brk =>
    [.write (slotAddress s), .write (slotAddress (s - 1)), .write (slotAddress (s - 2)), .read 0xFFFE,
      .read 0xFFFF]
  | _ => []

/-- The stores and jumps, which leave their operand unread. -/
def Mnemonic.unread : List Mnemonic := [sta, stx, sty, jmp, jsr]

/-- The instructions that write at their effective address. -/
def Mnemonic.storing : List Mnemonic := [sta, stx, sty, asl, lsr, rol, ror, inc, dec]

/-- The accesses of an instruction: the opcode, the operand bytes, the pointer, the value unless
the instruction is a store or a jump, the result of a store, a shift or a count in memory, and the
stack. -/
def Opcode.traffic (o : Opcode) (regs : Registers) (memory : Memory) : List Touch :=
  let a := (o.mode.effectiveAddress regs memory).toList
  .read regs.pc
    :: (o.mode.operandBytes regs.pc ++ o.mode.pointerBytes regs memory).map .read
    ++ (if o.mnemonic ∈ Mnemonic.unread then [] else a.map .read)
    ++ (if o.mnemonic ∈ Mnemonic.storing then a.map .write else [])
    ++ o.mnemonic.stackTraffic regs.s

namespace Board

variable {board board' : Board (Recorder Memory)}

/-! ### Resolving an operand -/

theorem nextInPage_eq (a : UInt16) : nextInPage a = Mode.secondByte a := by
  have hlast : a % 0x100 = 0xFF ↔ a.toNat % 256 = 255 := by
    rw [← UInt16.toNat_inj, UInt16.toNat_mod]
    rfl
  have hone : (1 : UInt8).toNat = 1 := rfl
  apply UInt16.toNat_inj.mp
  rw [nextInPage, Mode.secondByte, toNat_wordOf, toNat_highByte, UInt8.toNat_add, toNat_lowByte,
    hone]
  by_cases hpage : a.toNat % 256 = 255
  · have hsub : (a - 0xFF).toNat = a.toNat - 255 :=
      UInt16.toNat_sub_of_le a 0xFF (UInt16.le_iff_toNat_le.mpr (by simp; omega))
    rw [if_pos (hlast.mpr hpage), hsub]
    omega
  · have hlt := a.toNat_lt
    have hadd : (a + 1).toNat = a.toNat + 1 := by
      rw [UInt16.toNat_add]
      exact Nat.mod_eq_of_lt (by simp; omega)
    rw [if_neg fun hlow => hpage (hlast.mp hlow), hadd]
    omega

/-- In page zero, that is the wrap of the pointer's own byte. -/
theorem toUInt16_next (pointer : UInt8) :
    (pointer + 1).toUInt16 = Mode.secondByte pointer.toUInt16 := by
  have hlt := pointer.toNat_lt
  rw [← nextInPage_eq]
  apply UInt16.toNat_inj.mp
  rw [nextInPage, toNat_wordOf, toNat_highByte, UInt8.toNat_toUInt16, UInt8.toNat_toUInt16,
    UInt8.toNat_add, UInt8.toNat_add, toNat_lowByte, UInt8.toNat_toUInt16]
  omega

theorem fetch_recorded {value : UInt8} (h : fetch board = .ok value board') :
    value = board.bus.bus[board.cpu.regs.pc] ∧
      board' = board.opened (board.bus.reading [board.cpu.regs.pc]) := by
  obtain ⟨bus, hread, rfl⟩ := fetch_eq_ok.mp h
  obtain ⟨-, hvalue, rfl⟩ := Recorder.read_memory_eq_ok.mp hread
  exact ⟨hvalue, rfl⟩

/-- The word behind an opcode. -/
theorem fetchWord_recorded {r : Recorder Memory} {value : UInt16}
    (h : fetchWord (board.opened r) = .ok value board') :
    value = wordOf r.bus[board.cpu.regs.pc + 1] r.bus[board.cpu.regs.pc + 2] ∧
      ∃ pc, board' = ⟨⟨{ board.cpu.regs with pc := pc }, board.cpu.cycles⟩,
        r.reading [board.cpu.regs.pc + 1, board.cpu.regs.pc + 2]⟩ := by
  obtain ⟨low, high, bus₁, bus₂, hlow, hhigh, hvalue, rfl⟩ := fetchWord_eq_ok.mp h
  rw [show (board.opened r).cpu.regs.pc + 1 = board.cpu.regs.pc + 2 from UInt16.add_assoc _ 1 1]
    at hhigh
  obtain ⟨-, rfl, rfl⟩ := Recorder.read_memory_eq_ok.mp hlow
  obtain ⟨-, rfl, rfl⟩ := Recorder.read_memory_eq_ok.mp hhigh
  exact ⟨hvalue, _, rfl⟩

theorem readPair_recorded {low high value : UInt16} (h : readPair low high board = .ok value board') :
    value = wordOf board.bus.bus[low] board.bus.bus[high] ∧
      board' = ⟨board.cpu, board.bus.reading [low, high]⟩ := by
  obtain ⟨first, second, bus₁, bus₂, hfirst, hsecond, hvalue, rfl⟩ := readPair_eq_ok.mp h
  obtain ⟨-, rfl, rfl⟩ := Recorder.read_memory_eq_ok.mp hfirst
  obtain ⟨-, rfl, rfl⟩ := Recorder.read_memory_eq_ok.mp hsecond
  exact ⟨hvalue, rfl⟩

theorem locate_recorded {mode : Mode} {a : UInt16} {crossed : Bool} {kind : Fetch} {op : Operand}
    (h : locate mode a crossed kind board = .ok op board') :
    op.address = some a ∧ op.accumulator = false ∧
      board' = ⟨board.cpu, board.bus.reading (if kind = .value then [a] else [])⟩ := by
  cases kind with
  | addressOnly =>
    obtain ⟨rfl, rfl⟩ := locate_eq_ok.mp h
    exact ⟨rfl, rfl, rfl⟩
  | value =>
    obtain ⟨value, bus, hread, rfl, rfl⟩ := locate_eq_ok.mp h
    obtain ⟨-, -, rfl⟩ := Recorder.read_memory_eq_ok.mp hread
    exact ⟨rfl, rfl, rfl⟩

/-- A pointer is read at its two bytes. -/
theorem readPointer_recorded {pointer value : UInt16}
    (h : readPair pointer (Mode.secondByte pointer) board = .ok value board') :
    value = Mode.pointed board.bus.bus pointer ∧
      board' = ⟨board.cpu, board.bus.reading [pointer, Mode.secondByte pointer]⟩ :=
  readPair_recorded h

variable {r r' : Recorder Memory} {mode : Mode} {kind : Fetch} {op : Operand} {regs : Registers}

/-- The operand lies where the mode says, and its bytes, its pointer and, if it is asked for, its
value have been read. -/
structure Resolves (mode : Mode) (kind : Fetch) (regs : Registers) (op : Operand)
    (r r' : Recorder Memory) : Prop where
  recorder : r' = r.reading (mode.operandBytes regs.pc ++ mode.pointerBytes regs r.bus
    ++ if kind = .value then (mode.effectiveAddress regs r.bus).toList else [])
  address : mode ≠ .relative → op.address = mode.effectiveAddress regs r.bus
  accumulator : op.accumulator = true → mode.effectiveAddress regs r.bus = none

/-- A mode without an effective address reads nothing but the bytes of its operand. -/
theorem Resolves.of_none (hnone : mode.effectiveAddress regs r.bus = none)
    (hreads : r' = r.reading (mode.operandBytes regs.pc ++ mode.pointerBytes regs r.bus))
    (haddress : mode ≠ .relative → op.address = none) : Resolves mode kind regs op r r' := by
  refine ⟨?_, ?_, fun _ => hnone⟩
  · rw [hnone, Option.toList_none, ite_self, List.append_nil]
    exact hreads
  · rw [hnone]
    exact haddress

/-- A mode with an effective address ends by locating the operand there. -/
theorem Resolves.of_locate {a : UInt16} {crossed : Bool} {mode' : Mode}
    (ha : mode.effectiveAddress regs r.bus = some a)
    (hreads : board.bus = r.reading (mode.operandBytes regs.pc ++ mode.pointerBytes regs r.bus))
    (h : locate mode' a crossed kind board = .ok op board') :
    Resolves mode kind regs op r board'.bus := by
  obtain ⟨haddress, hacc, rfl⟩ := locate_recorded h
  refine ⟨?_, fun _ => haddress.trans ha.symm, ?_⟩
  · rw [ha, Option.toList_some, Recorder.reading_append, ← hreads]
  · intro htrue
    rw [hacc] at htrue
    cases htrue

/-- An index register keeps its value while the operand bytes are fetched. -/
theorem resolveZeroPage_recorded {index : Registers → UInt8} {i : UInt8}
    (hindex : ∀ pc, index { board.cpu.regs with pc := pc } = i)
    (ha : mode.effectiveAddress board.cpu.regs r.bus =
      some (r.bus[board.cpu.regs.pc + 1] + i).toUInt16)
    (hreads : mode.operandBytes board.cpu.regs.pc ++ mode.pointerBytes board.cpu.regs r.bus =
      [board.cpu.regs.pc + 1])
    (h : resolveZeroPage mode index kind (board.opened r) = .ok op board') :
    Resolves mode kind board.cpu.regs op r board'.bus := by
  obtain ⟨base, mid, hfetch, h⟩ := Attempt.bind_eq_ok.mp h
  obtain ⟨rfl, rfl⟩ := fetch_recorded hfetch
  obtain ⟨regs, mid, hregs, hlocate⟩ := Attempt.bind_eq_ok.mp h
  cases hregs
  simp only [opened, hindex] at hlocate
  refine .of_locate ha ?_ hlocate
  rw [hreads]

theorem resolveAbsolute_recorded {index : Registers → UInt8} {i : UInt8}
    (hindex : ∀ pc, index { board.cpu.regs with pc := pc } = i)
    (ha : mode.effectiveAddress board.cpu.regs r.bus =
      some (wordOf r.bus[board.cpu.regs.pc + 1] r.bus[board.cpu.regs.pc + 2] + i.toUInt16))
    (hreads : mode.operandBytes board.cpu.regs.pc ++ mode.pointerBytes board.cpu.regs r.bus =
      [board.cpu.regs.pc + 1, board.cpu.regs.pc + 2])
    (h : resolveAbsolute mode index kind (board.opened r) = .ok op board') :
    Resolves mode kind board.cpu.regs op r board'.bus := by
  obtain ⟨base, mid, hfetch, h⟩ := Attempt.bind_eq_ok.mp h
  obtain ⟨rfl, pc, rfl⟩ := fetchWord_recorded hfetch
  obtain ⟨regs, mid, hregs, hlocate⟩ := Attempt.bind_eq_ok.mp h
  cases hregs
  rw [hindex] at hlocate
  refine .of_locate ha ?_ hlocate
  rw [hreads]

theorem operandBytes_one (pc : UInt16) (hmode : mode.operandLength = 1) :
    mode.operandBytes pc = [pc + 1] := by
  simp [Mode.operandBytes, hmode, List.range_succ]

theorem operandBytes_two (pc : UInt16) (hmode : mode.operandLength = 2) :
    mode.operandBytes pc = [pc + 1, pc + 2] := by
  have hnext : pc + 1 + 1 = pc + 2 := UInt16.add_assoc pc 1 1
  simp [Mode.operandBytes, hmode, List.range_succ, hnext]

/-- **Resolving an operand** reads its bytes, its pointer and, if it is asked for, its value. -/
theorem resolve_recorded (hkind : mode = .indirect → kind = .addressOnly)
    (h : resolve mode kind (board.opened r) = .ok op board') :
    Resolves mode kind board.cpu.regs op r board'.bus := by
  cases mode with
  | implicit =>
    cases h
    exact .of_none rfl rfl fun _ => rfl
  | accumulator =>
    cases h
    exact .of_none rfl rfl fun _ => rfl
  | immediate =>
    obtain ⟨value, mid, hfetch, h⟩ := Attempt.bind_eq_ok.mp h
    obtain ⟨-, rfl⟩ := fetch_recorded hfetch
    cases h
    refine .of_none rfl ?_ fun _ => rfl
    rw [operandBytes_one _ rfl]
    rfl
  | relative =>
    obtain ⟨value, mid, hfetch, h⟩ := Attempt.bind_eq_ok.mp h
    obtain ⟨-, rfl⟩ := fetch_recorded hfetch
    cases h
    refine .of_none rfl ?_ fun hne => absurd rfl hne
    rw [operandBytes_one _ rfl]
    rfl
  | zeroPage =>
    refine resolveZeroPage_recorded (fun _ => rfl) ?_ (by rw [operandBytes_one _ rfl]; rfl) h
    rw [UInt8.add_zero]
    rfl
  | zeroPageX | zeroPageY =>
    exact resolveZeroPage_recorded (fun _ => rfl) rfl (by rw [operandBytes_one _ rfl]; rfl) h
  | absolute =>
    refine resolveAbsolute_recorded (fun _ => rfl) ?_ (by rw [operandBytes_two _ rfl]; rfl) h
    exact congrArg some (UInt16.add_zero _).symm
  | absoluteX | absoluteY =>
    exact resolveAbsolute_recorded (fun _ => rfl) rfl (by rw [operandBytes_two _ rfl]; rfl) h
  | indirect =>
    obtain ⟨pointer, mid, hword, h⟩ := Attempt.bind_eq_ok.mp h
    obtain ⟨rfl, pc, rfl⟩ := fetchWord_recorded hword
    obtain ⟨target, mid, hpair, hlocate⟩ := Attempt.bind_eq_ok.mp h
    rw [readJumpPointer, nextInPage_eq] at hpair
    obtain ⟨rfl, rfl⟩ := readPointer_recorded hpair
    rw [hkind rfl]
    refine .of_locate rfl ?_ hlocate
    rw [operandBytes_two _ rfl]
    exact (r.reading_append _ _).symm
  | indexedIndirect =>
    obtain ⟨base, mid, hfetch, h⟩ := Attempt.bind_eq_ok.mp h
    obtain ⟨rfl, rfl⟩ := fetch_recorded hfetch
    obtain ⟨regs, mid, hregs, h⟩ := Attempt.bind_eq_ok.mp h
    cases hregs
    obtain ⟨a, mid, hpair, hlocate⟩ := Attempt.bind_eq_ok.mp h
    rw [readZeroPagePointer, toUInt16_next] at hpair
    obtain ⟨rfl, rfl⟩ := readPointer_recorded hpair
    refine .of_locate rfl ?_ hlocate
    rw [operandBytes_one _ rfl]
    exact (r.reading_append _ _).symm
  | indirectIndexed =>
    obtain ⟨pointer, mid, hfetch, h⟩ := Attempt.bind_eq_ok.mp h
    obtain ⟨rfl, rfl⟩ := fetch_recorded hfetch
    obtain ⟨base, mid, hpair, h⟩ := Attempt.bind_eq_ok.mp h
    rw [readZeroPagePointer, toUInt16_next] at hpair
    obtain ⟨rfl, rfl⟩ := readPointer_recorded hpair
    obtain ⟨regs, mid, hregs, hlocate⟩ := Attempt.bind_eq_ok.mp h
    cases hregs
    refine .of_locate rfl ?_ hlocate
    rw [operandBytes_one _ rfl]
    exact (r.reading_append _ _).symm

/-! ### Carrying an instruction out -/

theorem write_touches {a : UInt16} {value : UInt8} {u : Unit}
    (h : write a value board = .ok u board') :
    board'.bus.touches = board.bus.touches ++ [.write a] := by
  obtain ⟨bus, hwrite, rfl⟩ := onBus_eq_ok.mp h
  exact Recorder.touches_write hwrite

/-- A write at the address of the operand. -/
theorem storeReg_touches {m : Mnemonic} {src : Reg} {u : Unit}
    (h : storeReg m op src board = .ok u board') :
    board'.bus.touches = board.bus.touches ++ op.address.toList.map .write := by
  obtain ⟨a, mid, haddress, h⟩ := Attempt.bind_eq_ok.mp h
  obtain ⟨ha, rfl⟩ := requireAddress_eq_ok.mp haddress
  obtain ⟨regs, mid, hregs, hwrite⟩ := Attempt.bind_eq_ok.mp h
  cases hregs
  rw [write_touches hwrite, ha]
  rfl

theorem adjustMemory_touches {m : Mnemonic} {delta : UInt8} {u : Unit}
    (h : adjustMemory m op delta board = .ok u board') :
    board'.bus.touches = board.bus.touches ++ op.address.toList.map .write := by
  obtain ⟨a, mid, haddress, h⟩ := Attempt.bind_eq_ok.mp h
  obtain ⟨ha, rfl⟩ := requireAddress_eq_ok.mp haddress
  obtain ⟨_, mid, hwrite, hchange⟩ := Attempt.bind_eq_ok.mp h
  cases hchange
  show mid.bus.touches = _
  rw [write_touches hwrite, ha]
  rfl

/-- A shift of the accumulator writes nothing. -/
theorem shiftOperand_touches {m : Mnemonic} {shift : Shift} {u : Unit}
    (h : shiftOperand m op shift board = .ok u board') :
    board'.bus.touches =
      board.bus.touches ++ if op.accumulator then [] else op.address.toList.map .write := by
  obtain ⟨regs, mid, hregs, h⟩ := Attempt.bind_eq_ok.mp h
  cases hregs
  obtain ⟨_, mid, hchange, h⟩ := Attempt.bind_eq_ok.mp h
  cases hchange
  rw [writeBack] at h
  by_cases hacc : op.accumulator = true
  · rw [if_pos hacc] at h
    cases h
    rw [if_pos hacc, List.append_nil]
  · rw [if_neg hacc] at h
    obtain ⟨a, mid, haddress, hwrite⟩ := Attempt.bind_eq_ok.mp h
    obtain ⟨ha, rfl⟩ := requireAddress_eq_ok.mp haddress
    rw [write_touches hwrite, if_neg hacc, ha]
    rfl

theorem branch_touches {m : Mnemonic} {mask : UInt8} {on : Bool} {extra : Nat}
    (h : branch m op mask on board = .ok extra board') :
    board'.bus.touches = board.bus.touches := by
  obtain ⟨regs, mid, hregs, h⟩ := Attempt.bind_eq_ok.mp h
  cases hregs
  split at h
  · obtain ⟨a, mid, haddress, h⟩ := Attempt.bind_eq_ok.mp h
    obtain ⟨-, rfl⟩ := requireAddress_eq_ok.mp haddress
    obtain ⟨_, mid, hjump, hpure⟩ := Attempt.bind_eq_ok.mp h
    cases hjump
    cases hpure
    rfl
  · cases h
    rfl

theorem push_touches {value : UInt8} {u : Unit} (h : push value board = .ok u board') :
    board'.bus.touches = board.bus.touches ++ [.write (slotAddress board.cpu.regs.s)] := by
  obtain ⟨-, bus, hwrite, rfl⟩ := push_eq_ok.mp h
  exact Recorder.touches_write hwrite

theorem pull_touches {value : UInt8} (h : pull board = .ok value board') :
    board'.bus.touches = board.bus.touches ++ [.read (slotAddress (board.cpu.regs.s + 1))] := by
  obtain ⟨-, bus, hread, rfl⟩ := pull_eq_ok.mp h
  exact Recorder.touches_read hread

theorem call_touches {m : Mnemonic} {u : Unit} (h : call m op board = .ok u board') :
    board'.bus.touches = board.bus.touches ++ Mnemonic.jsr.stackTraffic board.cpu.regs.s := by
  obtain ⟨-, target, bus₁, bus₂, -, hhigh, hlow, rfl⟩ := call_eq_ok.mp h
  show bus₂.touches = _
  rw [Recorder.touches_write hlow, Recorder.touches_write hhigh, List.append_assoc]
  rfl

theorem leaveCall_touches {u : Unit} (h : leaveCall board = .ok u board') :
    board'.bus.touches = board.bus.touches ++ Mnemonic.rts.stackTraffic board.cpu.regs.s := by
  obtain ⟨-, low, high, bus₁, bus₂, hlow, hhigh, rfl⟩ := leaveCall_eq_ok.mp h
  show bus₂.touches = _
  rw [Recorder.touches_read hhigh, Recorder.touches_read hlow, List.append_assoc]
  rfl

theorem leaveInterrupt_touches {u : Unit} (h : leaveInterrupt board = .ok u board') :
    board'.bus.touches = board.bus.touches ++ Mnemonic.rti.stackTraffic board.cpu.regs.s := by
  obtain ⟨-, status, low, high, bus₁, bus₂, hstatus, hlow, hhigh, -⟩ := leaveInterrupt_eq_ok.mp h
  rw [Recorder.touches_read hhigh, Recorder.touches_read hlow, Recorder.touches_read hstatus,
    List.append_assoc, List.append_assoc]
  rfl

theorem softwareInterrupt_touches {u : Unit} (h : softwareInterrupt board = .ok u board') :
    board'.bus.touches = board.bus.touches ++ Mnemonic.brk.stackTraffic board.cpu.regs.s := by
  obtain ⟨-, bus₁, bus₂, bus₃, bus₄, low, high, hhigh, hlow, hstatus, hvector, hvector', -⟩ :=
    softwareInterrupt_eq_ok.mp h
  rw [Recorder.touches_read hvector', Recorder.touches_read hvector,
    Recorder.touches_write hstatus, Recorder.touches_write hlow, Recorder.touches_write hhigh,
    List.append_assoc, List.append_assoc, List.append_assoc, List.append_assoc]
  rfl

/-- **Carrying an instruction out** writes the result of a store, a shift or a count in memory, and
works on the stack. -/
theorem perform_touches {m : Mnemonic} {a : Option UInt16} {extra : Nat}
    (haddress : m ∈ Mnemonic.storing → op.address = a) (hacc : op.accumulator = true → a = none)
    (h : perform m op board = .ok extra board') :
    board'.bus.touches = board.bus.touches ++
      ((if m ∈ Mnemonic.storing then a.toList.map .write else []) ++ m.stackTraffic board.cpu.regs.s) := by
  cases m with
  | lda | ldx | ldy | tax | tay | txa | tya | tsx | txs | adc | sbc | cmp | cpx | cpy | and | ora
  | eor | bit | inx | dex | iny | dey | clc | sec | cli | sei | cld | sed | clv | nop =>
    cases h
    exact (List.append_nil _).symm
  | sta | stx | sty =>
    obtain ⟨u, mid, hstore, hpure⟩ := Attempt.bind_eq_ok.mp h
    cases hpure
    rw [storeReg_touches hstore, haddress (by decide)]
    exact congrArg _ (List.append_nil _).symm
  | inc | dec =>
    obtain ⟨u, mid, hadjust, hpure⟩ := Attempt.bind_eq_ok.mp h
    cases hpure
    rw [adjustMemory_touches hadjust, haddress (by decide)]
    exact congrArg _ (List.append_nil _).symm
  | asl | lsr | rol | ror =>
    obtain ⟨u, mid, hshift, hpure⟩ := Attempt.bind_eq_ok.mp h
    cases hpure
    rw [shiftOperand_touches hshift, haddress (by decide)]
    refine congrArg _ (Eq.trans ?_ (List.append_nil _).symm)
    split
    · rename_i htrue
      rw [hacc htrue]
      rfl
    · rfl
  | pha | php =>
    obtain ⟨u, mid, hact, hpure⟩ := Attempt.bind_eq_ok.mp h
    cases hpure
    obtain ⟨regs, mid, hregs, hpush⟩ := Attempt.bind_eq_ok.mp hact
    cases hregs
    exact push_touches hpush
  | pla | plp =>
    obtain ⟨u, mid, hact, hpure⟩ := Attempt.bind_eq_ok.mp h
    cases hpure
    obtain ⟨value, mid, hpull, hchange⟩ := Attempt.bind_eq_ok.mp hact
    have htouches := pull_touches hpull
    cases hchange
    exact htouches
  | bcc | bcs | bne | beq | bpl | bmi | bvc | bvs =>
    rw [branch_touches h]
    exact (List.append_nil _).symm
  | jmp =>
    obtain ⟨u, mid, hact, hpure⟩ := Attempt.bind_eq_ok.mp h
    cases hpure
    obtain ⟨target, mid, haddress, hjump⟩ := Attempt.bind_eq_ok.mp hact
    obtain ⟨-, rfl⟩ := requireAddress_eq_ok.mp haddress
    cases hjump
    exact (List.append_nil _).symm
  | jsr =>
    obtain ⟨u, mid, hcall, hpure⟩ := Attempt.bind_eq_ok.mp h
    cases hpure
    exact call_touches hcall
  | rts =>
    obtain ⟨u, mid, hleave, hpure⟩ := Attempt.bind_eq_ok.mp h
    cases hpure
    exact leaveCall_touches hleave
  | rti =>
    obtain ⟨u, mid, hleave, hpure⟩ := Attempt.bind_eq_ok.mp h
    cases hpure
    exact leaveInterrupt_touches hleave
  | brk =>
    obtain ⟨u, mid, hbreak, hpure⟩ := Attempt.bind_eq_ok.mp h
    cases hpure
    exact softwareInterrupt_touches hbreak

/-! ### The whole instruction -/

/-- Indirect operands are those of jumps, and no store names its operand relative to itself. -/
theorem modes_of_decode {byte : UInt8} {o : Opcode} (h : Opcode.decode byte = some o) :
    (o.mode = .indirect → o.fetch = .addressOnly) ∧ (o.mnemonic ∈ Mnemonic.storing → o.mode ≠ .relative) :=
  (by decide +kernel : ∀ o ∈ Opcode.all, (o.mode = .indirect → o.fetch = .addressOnly) ∧
    (o.mnemonic ∈ Mnemonic.storing → o.mode ≠ .relative)) o (Opcode.mem_of_decode h)

theorem fetch_eq_value_iff (o : Opcode) :
    o.fetch = .value ↔ o.mnemonic ∉ Mnemonic.unread := by
  unfold Opcode.fetch
  cases o.mnemonic <;> decide

/-- **The traffic of an instruction.**  On a flat memory behind a recorder, an instruction that
succeeds has a documented opcode, and the accesses that it adds to the log are those of its
traffic, in this order and no others. -/
theorem execute_traffic {step : Step} (h : execute board = .ok step board') :
    ∃ o, Opcode.decode board.bus.bus[board.cpu.regs.pc] = some o ∧
      board'.bus.log.map BusAccess.touch =
        board.bus.log.map BusAccess.touch ++ o.traffic board.cpu.regs board.bus.bus := by
  obtain ⟨byte, bus, o, op, resolved, extra, done, hread, hdecode, hresolve, hperform, -, rfl⟩ :=
    execute_eq_ok.mp h
  obtain ⟨-, rfl, rfl⟩ := Recorder.read_memory_eq_ok.mp hread
  obtain ⟨hindirect, hrelative⟩ := modes_of_decode hdecode
  have hresolved := resolve_recorded hindirect hresolve
  obtain ⟨pc, hcpu⟩ := (onlyReads_resolve (β := Recorder Memory) o.mode o.fetch).cpu_eq hresolve
  have hdone := perform_touches (fun hstore => hresolved.address (hrelative hstore))
    hresolved.accumulator hperform
  refine ⟨o, hdecode, ?_⟩
  have hvalue (addresses : List UInt16) :
      (if o.fetch = .value then addresses else []).map Touch.read =
        if o.mnemonic ∈ Mnemonic.unread then [] else addresses.map .read := by
    by_cases hunread : o.mnemonic ∈ Mnemonic.unread
    · rw [if_neg fun hfetch => (fetch_eq_value_iff o).mp hfetch hunread, if_pos hunread]
      rfl
    · rw [if_pos ((fetch_eq_value_iff o).mpr hunread), if_neg hunread]
  show done.bus.touches = board.bus.touches ++ _
  simp only [hdone, hresolved.recorder, Recorder.touches_reading, Recorder.bus_reading, hcpu, hvalue,
    Opcode.traffic, List.map_append, List.map_cons, List.map_nil, List.append_assoc,
    List.cons_append, List.nil_append]
  rfl

/-- A store through a pointer at the end of page zero, with the opcode in the last cell of the
memory: the operand byte is read at `$0000`, and again as the high byte of the pointer; the indexed
address wraps to `$0010`, where the store writes without a read. -/
theorem store_through_wrapped_pointer :
    let memory := ((Memory.zeros.set 0xFFFF 0x91).set 0x0000 0xFF).set 0x00FF 0xF0
    let regs := { Registers.powerOn with pc := 0xFFFF, y := 0x20 }
    ∃ step board', execute (⟨⟨regs, 0⟩, ⟨memory, [], []⟩⟩ : Board (Recorder Memory))
        = .ok step board' ∧
      board'.bus.log.map BusAccess.touch =
        [.read 0xFFFF, .read 0x0000, .read 0x00FF, .read 0x0000, .write 0x0010] := by
  intro memory regs
  have hopcode : memory[(0xFFFF : UInt16)] = 0x91 := by
    simp [memory, Cells.getElem_set]
  have hoperand : memory[(0x0000 : UInt16)] = 0xFF := by
    simp [memory, Cells.getElem_set]
  have hlow : memory[(0x00FF : UInt16)] = 0xF0 := by
    simp [memory, Cells.getElem_set]
  have hdecode : Opcode.decode 0x91 = some ⟨0x91, .sta, .indirectIndexed, 6⟩ := by
    rw [Opcode.decode_eq_find?]
    rfl
  clear_value memory
  have hread : Bus.read (0xFFFF : UInt16) (⟨memory, [], []⟩ : Recorder Memory) =
      .ok 0x91 (Recorder.reading ⟨memory, [], []⟩ [0xFFFF]) :=
    Recorder.read_memory_eq_ok.mpr ⟨rfl, hopcode.symm, rfl⟩
  obtain ⟨step, board', h⟩ : ∃ step board',
      execute (⟨⟨regs, 0⟩, ⟨memory, [], []⟩⟩ : Board (Recorder Memory)) = .ok step board' :=
    ⟨_, _, execute_eq_ok.mpr ⟨0x91, _, _, _, _, 0, _, hread, hdecode, rfl, rfl, rfl, rfl⟩⟩
  have hnext : regs.pc + 1 = 0x0000 := by decide
  have hbytes : Mode.indirectIndexed.operandBytes regs.pc = [0x0000] := by decide
  have hpointer : Mode.indirectIndexed.pointerBytes regs memory = [0x00FF, 0x0000] := by
    simp only [Mode.pointerBytes, hnext, hoperand]
    decide
  have hlast : (0xFF : UInt8).toUInt16 = 0x00FF := by decide
  have hfirst : Mode.secondByte 0x00FF = 0x0000 := by decide
  have haddress : Mode.indirectIndexed.effectiveAddress regs memory = some 0x0010 := by
    simp only [Mode.effectiveAddress, Mode.pointed, hnext, hoperand, hlast, hfirst, hlow]
    decide
  obtain ⟨o, ho, htraffic⟩ := execute_traffic h
  replace ho : Opcode.decode memory[(0xFFFF : UInt16)] = some o := ho
  rw [hopcode, hdecode] at ho
  cases ho
  refine ⟨step, board', h, htraffic.trans ?_⟩
  simp only [Opcode.traffic, hbytes, hpointer, haddress]
  rfl

end Board

end NesMachine
