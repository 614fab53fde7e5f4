import NesMachine.Bus.Memory
import NesMachine.Proofs.Cpu.Operands

/-!
# Where operands lie

The documentation gives the addresses of the thirteen modes as sums of numbers, with the wrap of
each written as a remainder.  `Mode.place` and `Mode.indexed` say the same, from the registers when
the opcode has been read and a flat memory.

* `Memory.byteAt`, `Memory.wordAt`, `Memory.pageWord`: the numbers that stored bytes write;
* `Mode.operand`: the operand that the documentation promises;
* `Board.resolve_memory`: it is the one that is resolved, and only the program counter moves;
* `Board.resolve_documented`: the same fact by fact, for both kinds of resolution.
-/

namespace NesMachine

/-! ### Numbers in memory -/

namespace Memory

/-- The byte at an address. Addresses go on at zero after `$FFFF`. -/
def byteAt (memory : Memory) (a : Nat) : Nat := memory[UInt16.ofNat a].toNat

/-- The number with its low byte and its high byte at the given addresses. -/
def wordAt (memory : Memory) (low high : Nat) : Nat := memory.byteAt low + 256 * memory.byteAt high

/-- The number at an offset in a page. Offsets go on at the start of the page after its end. -/
def pageWord (memory : Memory) (page offset : Nat) : Nat :=
  memory.wordAt (256 * page + offset % 256) (256 * page + (offset + 1) % 256)

variable (memory : Memory)

theorem byteAt_toNat (a : UInt16) : memory.byteAt a.toNat = memory[a].toNat := by
  rw [byteAt, UInt16.ofNat_toNat]

theorem byteAt_lt (a : Nat) : memory.byteAt a < 256 := UInt8.toNat_lt _

theorem wordAt_lt (low high : Nat) : memory.wordAt low high < 65536 := by
  have hlow := memory.byteAt_lt low
  have hhigh := memory.byteAt_lt high
  rw [wordAt]
  omega

theorem pageWord_lt (page offset : Nat) : memory.pageWord page offset < 65536 :=
  memory.wordAt_lt _ _

/-- An offset counts modulo the length of a page. -/
theorem pageWord_mod (page offset : Nat) :
    memory.pageWord page (offset % 256) = memory.pageWord page offset := by
  rw [pageWord, pageWord, Nat.mod_mod, Nat.mod_add_mod]

theorem wordOf_eq_ofNat (low high : UInt16) :
    wordOf memory[low] memory[high] = UInt16.ofNat (memory.wordAt low.toNat high.toNat) := by
  have hlt := memory.wordAt_lt low.toNat high.toNat
  apply UInt16.toNat_inj.mp
  rw [toNat_wordOf, UInt16.toNat_ofNat', Nat.mod_eq_of_lt hlt, wordAt, byteAt_toNat, byteAt_toNat,
    Nat.add_comm]

end Memory

namespace Mode

/-! ### The documented operand -/

variable (mode : Mode) (kind : Fetch) (regs : Registers) (memory : Memory)

/-- The byte behind an opcode. -/
def operandByte : Nat := memory.byteAt regs.pc.toNat

/-- The two bytes behind an opcode. -/
def operandWord : Nat := memory.wordAt regs.pc.toNat ((regs.pc.toNat + 1) % 65536)

theorem operandByte_lt : operandByte regs memory < 256 := memory.byteAt_lt _

theorem operandWord_lt : operandWord regs memory < 65536 := memory.wordAt_lt _ _

/-- The base and the index of the modes whose sum may lie on another page than the base. -/
def indexed : Option (Nat × Nat) :=
  match mode with
  | .absoluteX => some (operandWord regs memory, regs.x.toNat)
  | .absoluteY => some (operandWord regs memory, regs.y.toNat)
  | .indirectIndexed => some (memory.pageWord 0 (operandByte regs memory), regs.y.toNat)
  | _ => none

/-- The effective address of a mode, if it has one. -/
def place : Option Nat :=
  let byte := operandByte regs memory
  let word := operandWord regs memory
  match mode with
  | .implicit | .accumulator | .immediate => none
  | .zeroPage => some byte
  | .zeroPageX => some ((byte + regs.x.toNat) % 256)
  | .zeroPageY => some ((byte + regs.y.toNat) % 256)
  | .relative => some (((regs.pc.toNat + 1 : Int) + (byte : Int).bmod 256) % 65536).toNat
  | .absolute => some word
  | .absoluteX => some ((word + regs.x.toNat) % 65536)
  | .absoluteY => some ((word + regs.y.toNat) % 65536)
  | .indirect => some (memory.pageWord (word / 256) (word % 256))
  | .indexedIndirect => some (memory.pageWord 0 (byte + regs.x.toNat))
  | .indirectIndexed => some ((memory.pageWord 0 byte + regs.y.toNat) % 65536)

/-- The modes whose operand is the byte at the effective address. -/
def reads : Bool :=
  match mode with
  | .implicit | .accumulator | .immediate | .relative | .indirect => false
  | _ => true

/-- The operand byte that is delivered. -/
def delivered : UInt8 :=
  match mode with
  | .implicit | .indirect => 0
  | .accumulator => regs.a
  | .immediate | .relative => memory[regs.pc]
  | _ =>
    match kind, mode.place regs memory with
    | .value, some a => memory[UInt16.ofNat a]
    | _, _ => 0

/-- Whether the low byte of the base and the index add up to more than a byte. -/
def carries : Bool := (mode.indexed regs memory).any fun (base, index) => 0xFF < base % 256 + index

/-- The operand that the documentation promises. -/
def operand : Operand where
  mode := mode
  value := mode.delivered kind regs memory
  address := (mode.place regs memory).map UInt16.ofNat
  accumulator := mode == .accumulator
  pageCrossed := mode.carries regs memory

/-- The registers behind the operand. -/
def behind : Registers := { regs with pc := regs.pc + mode.operandLength }

end Mode

namespace Mode

variable {mode : Mode} {kind : Fetch} {regs : Registers} {memory : Memory}

theorem behind_of_length (h : mode.operandLength = 0) : mode.behind regs = regs := by
  rw [behind, h, UInt16.add_zero]

theorem place_lt {a : Nat} (h : mode.place regs memory = some a) : a < 65536 := by
  have hbyte := operandByte_lt regs memory
  have hword := operandWord_lt regs memory
  have hpage := memory.pageWord_lt
  unfold place at h
  cases mode with
  | implicit | accumulator | immediate => cases h
  | indirect | indexedIndirect =>
    rw [← Option.some.inj h]
    exact hpage _ _
  | _ =>
    have ha := Option.some.inj h
    omega

theorem exists_place (h : mode.reads = true) : ∃ a, mode.place regs memory = some a := by
  cases mode <;> first | exact absurd h Bool.false_ne_true | exact ⟨_, rfl⟩

theorem carries_iff : mode.carries regs memory = true ↔
    ∃ base index, mode.indexed regs memory = some (base, index) ∧ 0xFF < base % 256 + index := by
  simp only [carries, Option.any_eq_true, Prod.exists, decide_eq_true_iff]

theorem delivered_of_reads (h : mode.reads = true) {a : Nat}
    (hplace : mode.place regs memory = some a) :
    mode.delivered kind regs memory = if kind = .value then memory[UInt16.ofNat a] else 0 := by
  unfold delivered
  rw [hplace]
  cases mode <;> first | exact absurd h Bool.false_ne_true | (cases kind <;> rfl)

/-- In the other modes it makes no difference whether the operand is to be read. -/
theorem delivered_of_not_reads (h : mode.reads = false) (kind' : Fetch) :
    mode.delivered kind' regs memory = mode.delivered kind regs memory := by
  cases mode <;> first | rfl | exact absurd h.symm Bool.false_ne_true

end Mode

namespace Board

variable {cpu : Cpu} {regs : Registers} {cycles : Nat} {memory : Memory}

/-! ### Steps on a flat memory -/

theorem fetch_memory : fetch (⟨⟨regs, cycles⟩, memory⟩ : Board Memory) =
    .ok memory[regs.pc] ⟨⟨{ regs with pc := regs.pc + 1 }, cycles⟩, memory⟩ :=
  fetch_eq_ok.mpr ⟨memory, Memory.read_eq .., rfl⟩

theorem fetchWord_memory : fetchWord (⟨⟨regs, cycles⟩, memory⟩ : Board Memory) =
    .ok (UInt16.ofNat (Mode.operandWord regs memory))
      ⟨⟨{ regs with pc := regs.pc + 2 }, cycles⟩, memory⟩ := by
  have hnext : (regs.pc + 1).toNat = (regs.pc.toNat + 1) % 65536 := UInt16.toNat_add _ _
  refine fetchWord_eq_ok.mpr ⟨_, _, _, _, Memory.read_eq .., Memory.read_eq .., ?_, ?_⟩
  · rw [Memory.wordOf_eq_ofNat, hnext, Mode.operandWord]
  · rw [opened, opened]
    simp only [UInt16.add_assoc]
    rfl

theorem readPair_memory (low high : UInt16) : readPair low high (⟨cpu, memory⟩ : Board Memory) =
    .ok (UInt16.ofNat (memory.wordAt low.toNat high.toNat)) ⟨cpu, memory⟩ :=
  readPair_eq_ok.mpr ⟨_, _, _, _, Memory.read_eq .., Memory.read_eq ..,
    (memory.wordOf_eq_ofNat low high).symm, rfl⟩

theorem readZeroPagePointer_memory (pointer : UInt8) :
    readZeroPagePointer pointer (⟨cpu, memory⟩ : Board Memory) =
      .ok (UInt16.ofNat (memory.pageWord 0 pointer.toNat)) ⟨cpu, memory⟩ := by
  have hlow : pointer.toUInt16.toNat = 256 * 0 + pointer.toNat % 256 := by
    have hlt := pointer.toNat_lt
    rw [UInt8.toNat_toUInt16]
    omega
  have hhigh : (pointer + 1).toUInt16.toNat = 256 * 0 + (pointer.toNat + 1) % 256 := by
    rw [UInt8.toNat_toUInt16, UInt8.toNat_add, Nat.mul_zero, Nat.zero_add]
    rfl
  rw [readZeroPagePointer, readPair_memory, hlow, hhigh, Memory.pageWord]

/-- The high byte of a jump pointer lies on the page of the low one. -/
theorem readJumpPointer_memory {pointer : Nat} (hlt : pointer < 65536) :
    readJumpPointer (UInt16.ofNat pointer) (⟨cpu, memory⟩ : Board Memory) =
      .ok (UInt16.ofNat (memory.pageWord (pointer / 256) (pointer % 256))) ⟨cpu, memory⟩ := by
  have hpointer : (UInt16.ofNat pointer).toNat = pointer := by
    rw [UInt16.toNat_ofNat', Nat.mod_eq_of_lt hlt]
  have hlow : pointer = 256 * (pointer / 256) + pointer % 256 % 256 := by omega
  have hhigh : (nextInPage (UInt16.ofNat pointer)).toNat =
      256 * (pointer / 256) + (pointer % 256 + 1) % 256 := by
    rw [nextInPage, toNat_wordOf, toNat_highByte, UInt8.toNat_add, toNat_lowByte, hpointer]
    rfl
  rw [readJumpPointer, readPair_memory, hhigh, hpointer, Memory.pageWord, ← hlow]

theorem locate_memory (mode : Mode) (a : UInt16) (crossed : Bool) (kind : Fetch) :
    locate mode a crossed kind (⟨cpu, memory⟩ : Board Memory) =
      .ok (.located mode (if kind = .value then memory[a] else 0) a crossed) ⟨cpu, memory⟩ := by
  cases kind <;> rfl

/-! ### Sums of addresses -/

theorem toUInt16_add (byte index : UInt8) :
    (byte + index).toUInt16 = UInt16.ofNat ((byte.toNat + index.toNat) % 256) := by
  apply UInt16.toNat_inj.mp
  rw [UInt8.toNat_toUInt16, UInt8.toNat_add, UInt16.toNat_ofNat']
  omega

theorem ofNat_add_index (base : Nat) (index : UInt8) :
    UInt16.ofNat base + index.toUInt16 = UInt16.ofNat ((base + index.toNat) % 65536) := by
  apply UInt16.toNat_inj.mp
  rw [UInt16.toNat_add, UInt16.toNat_ofNat', UInt16.toNat_ofNat', UInt8.toNat_toUInt16]
  omega

/-- The sum lies on another page than the base just if the low byte carries, even where it wraps. -/
theorem crossesPage_index {base : Nat} (hlt : base < 65536) (index : UInt8) :
    crossesPage (UInt16.ofNat base) (UInt16.ofNat base + index.toUInt16) =
      decide (0xFF < base % 256 + index.toNat) := by
  have hindex := index.toNat_lt
  have hbase : (UInt16.ofNat base).toNat = base := by
    rw [UInt16.toNat_ofNat', Nat.mod_eq_of_lt hlt]
  rw [Bool.eq_iff_iff, decide_eq_true_iff, crossesPage, bne_iff_ne, ne_eq, ← UInt8.toNat_inj,
    toNat_highByte, toNat_highByte, ofNat_add_index, hbase, UInt16.toNat_ofNat']
  omega

theorem toNat_signedOffset (offset : UInt8) :
    ((signedOffset offset).toNat : Int) = (offset.toNat : Int).bmod 256 % 65536 := by
  obtain ⟨bits⟩ := offset
  revert bits
  decide +kernel

/-- The offset of a branch counts as a signed byte, from behind it. -/
theorem relative_target (pc : UInt16) (offset : UInt8) :
    pc + 1 + signedOffset offset =
      UInt16.ofNat (((pc.toNat + 1 : Int) + (offset.toNat : Int).bmod 256) % 65536).toNat := by
  have hoffset := toNat_signedOffset offset
  have hone : (1 : UInt16).toNat = 1 := rfl
  apply UInt16.toNat_inj.mp
  rw [UInt16.toNat_add, UInt16.toNat_add, UInt16.toNat_ofNat', hone]
  omega

/-! ### Resolving -/

/-- An operand in memory is the documented one if it lies where it should. -/
theorem locate_documented {mode : Mode} {kind : Fetch} {pc : UInt16} {a : Nat} {crossed : Bool}
    (hreads : mode.reads = true) (hpc : pc = regs.pc + mode.operandLength)
    (hplace : mode.place regs memory = some a) (hcarries : mode.carries regs memory = crossed) :
    locate mode (UInt16.ofNat a) crossed kind
        (⟨⟨{ regs with pc := pc }, cycles⟩, memory⟩ : Board Memory) =
      .ok (mode.operand kind regs memory) ⟨⟨mode.behind regs, cycles⟩, memory⟩ := by
  have haccumulator : (mode == .accumulator) = false := by
    cases mode <;> first | rfl | cases hreads
  rw [locate_memory, Mode.operand, hplace, hcarries, haccumulator,
    Mode.delivered_of_reads hreads hplace, Mode.behind, hpc]
  rfl

theorem resolveZeroPage_memory {mode : Mode} {index : Registers → UInt8} {i : UInt8} {kind : Fetch}
    (hreads : mode.reads = true) (hlength : mode.operandLength = 1)
    (hindex : index { regs with pc := regs.pc + 1 } = i)
    (hplace : mode.place regs memory = some ((Mode.operandByte regs memory + i.toNat) % 256))
    (hcarries : mode.carries regs memory = false) :
    resolveZeroPage mode index kind (⟨⟨regs, cycles⟩, memory⟩ : Board Memory) =
      .ok (mode.operand kind regs memory) ⟨⟨mode.behind regs, cycles⟩, memory⟩ := by
  simp only [resolveZeroPage, Attempt.bind_apply, fetch_memory, registers_apply]
  rw [hindex, toUInt16_add, ← Memory.byteAt_toNat]
  exact locate_documented hreads (by rw [hlength]) hplace hcarries

theorem resolveAbsolute_memory {mode : Mode} {index : Registers → UInt8} {i : UInt8} {kind : Fetch}
    (hreads : mode.reads = true) (hlength : mode.operandLength = 2)
    (hindex : index { regs with pc := regs.pc + 2 } = i)
    (hplace : mode.place regs memory = some ((Mode.operandWord regs memory + i.toNat) % 65536))
    (hcarries : mode.carries regs memory =
      decide (0xFF < Mode.operandWord regs memory % 256 + i.toNat)) :
    resolveAbsolute mode index kind (⟨⟨regs, cycles⟩, memory⟩ : Board Memory) =
      .ok (mode.operand kind regs memory) ⟨⟨mode.behind regs, cycles⟩, memory⟩ := by
  simp only [resolveAbsolute, Attempt.bind_apply, fetchWord_memory, registers_apply]
  rw [hindex, crossesPage_index (Mode.operandWord_lt _ _), ofNat_add_index]
  exact locate_documented hreads (by rw [hlength]) hplace hcarries

/-- **Resolving an operand** on a flat memory delivers the documented one and moves nothing but the
program counter. -/
theorem resolve_memory (mode : Mode) (kind : Fetch) (regs : Registers) (cycles : Nat)
    (memory : Memory) :
    resolve mode kind (⟨⟨regs, cycles⟩, memory⟩ : Board Memory) =
      .ok (mode.operand kind regs memory) ⟨⟨mode.behind regs, cycles⟩, memory⟩ := by
  cases mode with
  | implicit => rw [resolve, Attempt.pure_apply, Mode.behind_of_length rfl]; rfl
  | accumulator => rw [Mode.behind_of_length rfl]; rfl
  | immediate =>
    simp only [resolve, Attempt.bind_apply, fetch_memory]
    rfl
  | zeroPage =>
    have hbyte : Mode.operandByte regs memory % 256 = Mode.operandByte regs memory :=
      Nat.mod_eq_of_lt (Mode.operandByte_lt _ _)
    refine resolveZeroPage_memory (i := 0) rfl rfl rfl ?_ rfl
    rw [Mode.place, show (0 : UInt8).toNat = 0 from rfl, Nat.add_zero, hbyte]
  | zeroPageX => exact resolveZeroPage_memory rfl rfl rfl rfl rfl
  | zeroPageY => exact resolveZeroPage_memory rfl rfl rfl rfl rfl
  | relative =>
    simp only [resolve, Attempt.bind_apply, fetch_memory, registers_apply]
    rw [relative_target, ← Memory.byteAt_toNat]
    rfl
  | absolute =>
    have hword : Mode.operandWord regs memory % 65536 = Mode.operandWord regs memory :=
      Nat.mod_eq_of_lt (Mode.operandWord_lt _ _)
    refine resolveAbsolute_memory (i := 0) rfl rfl rfl ?_ ?_
    · rw [Mode.place, show (0 : UInt8).toNat = 0 from rfl, Nat.add_zero, hword]
    · rw [show (0 : UInt8).toNat = 0 from rfl, decide_eq_false (by omega)]
      rfl
  | absoluteX => exact resolveAbsolute_memory rfl rfl rfl rfl rfl
  | absoluteY => exact resolveAbsolute_memory rfl rfl rfl rfl rfl
  | indirect =>
    simp only [resolve, Attempt.bind_apply, fetchWord_memory]
    rw [readJumpPointer_memory (Mode.operandWord_lt _ _)]
    rfl
  | indexedIndirect =>
    simp only [resolve, Attempt.bind_apply, fetch_memory, registers_apply,
      readZeroPagePointer_memory]
    have hpointer : memory.pageWord 0 (memory[regs.pc] + regs.x).toNat =
        memory.pageWord 0 (Mode.operandByte regs memory + regs.x.toNat) := by
      rw [← Memory.pageWord_mod, UInt8.toNat_add, Nat.mod_mod, Memory.pageWord_mod,
        Mode.operandByte, Memory.byteAt_toNat]
    rw [hpointer]
    exact locate_documented rfl rfl rfl rfl
  | indirectIndexed =>
    simp only [resolve, Attempt.bind_apply, fetch_memory, readZeroPagePointer_memory,
      registers_apply]
    rw [crossesPage_index (memory.pageWord_lt _ _), ofNat_add_index, ← Memory.byteAt_toNat]
    exact locate_documented rfl rfl rfl rfl

/-- **Addressing.**  In each mode an operand is resolved, read or not, to the documented address and
page crossing, and the program counter advances by the length of the operand while nothing else
changes. Reading it adds the byte at the address, in the modes that name one. -/
theorem resolve_documented (mode : Mode) (regs : Registers) (cycles : Nat) (memory : Memory) :
    ∃ read addressed : Operand, ∃ pc : UInt16,
      resolve mode .value (⟨⟨regs, cycles⟩, memory⟩ : Board Memory) =
        .ok read ⟨⟨{ regs with pc := pc }, cycles⟩, memory⟩ ∧
      resolve mode .addressOnly (⟨⟨regs, cycles⟩, memory⟩ : Board Memory) =
        .ok addressed ⟨⟨{ regs with pc := pc }, cycles⟩, memory⟩ ∧
      pc.toNat = (regs.pc.toNat + mode.operandLength.toNat) % 65536 ∧
      read.address.map UInt16.toNat = mode.place regs memory ∧
      (read.pageCrossed = true ↔
        ∃ base index, mode.indexed regs memory = some (base, index) ∧ 0xFF < base % 256 + index) ∧
      (read.accumulator = true ↔ mode = .accumulator) ∧
      addressed = { read with value := addressed.value } ∧
      (mode.reads = true →
        ∃ a, read.address = some a ∧ read.value = memory[a] ∧ addressed.value = 0) ∧
      (mode.reads = false → addressed.value = read.value) := by
  refine ⟨mode.operand .value regs memory, mode.operand .addressOnly regs memory, _,
    resolve_memory .., resolve_memory .., UInt16.toNat_add _ _, ?_, Mode.carries_iff, beq_iff_eq,
    rfl, ?_, fun h => Mode.delivered_of_not_reads h .addressOnly⟩
  · show ((mode.place regs memory).map UInt16.ofNat).map UInt16.toNat = _
    cases hplace : mode.place regs memory with
    | none => rfl
    | some a =>
      rw [Option.map_some, Option.map_some, UInt16.toNat_ofNat',
        Nat.mod_eq_of_lt (Mode.place_lt hplace)]
  · intro hreads
    obtain ⟨a, hplace⟩ : ∃ a, mode.place regs memory = some a := Mode.exists_place hreads
    refine ⟨UInt16.ofNat a, ?_, Mode.delivered_of_reads hreads hplace, ?_⟩
    · rw [Mode.operand, hplace]
      rfl
    · show mode.delivered .addressOnly regs memory = 0
      rw [Mode.delivered_of_reads hreads hplace]
      rfl

/-- An operand word across the end of memory holds a pointer at the end of a page: the program
counter goes on at zero, and the high byte of the target comes from the start of the page. -/
theorem indirect_jump_stays_in_page :
    let memory := (((Memory.zeros.set 0xFFFF 0xFF).set 0x0000 0x10).set 0x10FF 0x34).set 0x1000 0x12
    ∃ op pc, resolve .indirect .value
        (⟨⟨{ Registers.powerOn with pc := 0xFFFF }, 0⟩, memory⟩ : Board Memory) =
        .ok op ⟨⟨{ Registers.powerOn with pc := pc }, 0⟩, memory⟩ ∧
      pc.toNat = 1 ∧ op.address.map UInt16.toNat = some 0x1234 := by
  intro memory
  obtain ⟨op, -, pc, hresolve, -, hpc, haddress, -⟩ :=
    resolve_documented .indirect { Registers.powerOn with pc := 0xFFFF } 0 memory
  refine ⟨op, pc, hresolve, hpc, haddress.trans ?_⟩
  have hbyte (a : UInt16) : memory[a] =
      if 0x1000 = a then 0x12 else if 0x10FF = a then 0x34 else if 0x0000 = a then 0x10
        else if 0xFFFF = a then 0xFF else 0 := by
    simp only [memory, Cells.getElem_set, Memory.zeros, Cells.getElem_fill]
  simp [Mode.place, Mode.operandWord, Memory.pageWord, Memory.wordAt, Memory.byteAt, hbyte]

end Board

end NesMachine
