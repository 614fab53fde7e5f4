import NesMachine.Proofs.Console.Listings
import NesMachine.Proofs.Console.PowerOn

/-!
# Multiplication by repeated addition

A program multiplies two bytes: it adds the one to a sum as often as the other tells, and parks with
the sum in memory and in A.  A count of zero wraps around, so that there are 256 rounds, which come to
the same sum.

* `Multiplication.program`: its bytes, and the lines that they are made of;
* `Multiplication.Stage`: how far the program has come, in the cells that it uses;
* `Multiplication.Stage.round`: one round of its loop, and by induction `Multiplication.Stage.loop`;
* `Console.multiplication_completes`: a console with the program ends its run with the product.
-/

namespace NesMachine

namespace Multiplication

variable {m k : UInt8}

/-! ### The program -/

/-- The program, at `$8000`. -/
def program (m k : UInt8) : List UInt8 :=
  [0xA9, m,           -- LDA #m
   0x85, 0x00,        -- STA $00
   0xA9, k,           -- LDA #k
   0x85, 0x01,        -- STA $01
   0xA9, 0x00,        -- LDA #0
   0x85, 0x02,        -- STA $02
   0x85, 0x03,        -- STA $03
   0xA5, 0x03,        -- loop: LDA $03
   0x18,              -- CLC
   0x65, 0x00,        -- ADC $00
   0x85, 0x03,        -- STA $03
   0xE6, 0x02,        -- INC $02
   0xA5, 0x02,        -- LDA $02
   0xC5, 0x01,        -- CMP $01
   0xD0, 0xF1,        -- BNE loop
   0xA5, 0x03,        -- LDA $03
   0x4C, 0x1F, 0x80]  -- JMP $801F

/-- The summand, the number of rounds, the rounds so far and the sum so far. -/
def setup (m k : UInt8) : List Line :=
  [⟨⟨0xA9, .lda, .immediate, 2⟩, m⟩, ⟨⟨0x85, .sta, .zeroPage, 3⟩, 0x00⟩,
    ⟨⟨0xA9, .lda, .immediate, 2⟩, k⟩, ⟨⟨0x85, .sta, .zeroPage, 3⟩, 0x01⟩,
    ⟨⟨0xA9, .lda, .immediate, 2⟩, 0⟩, ⟨⟨0x85, .sta, .zeroPage, 3⟩, 0x02⟩,
    ⟨⟨0x85, .sta, .zeroPage, 3⟩, 0x03⟩]

/-- A round up to its branch. -/
def round : List Line :=
  [⟨⟨0xA5, .lda, .zeroPage, 3⟩, 0x03⟩, ⟨⟨0x18, .clc, .implicit, 2⟩, 0⟩,
    ⟨⟨0x65, .adc, .zeroPage, 3⟩, 0x00⟩, ⟨⟨0x85, .sta, .zeroPage, 3⟩, 0x03⟩,
    ⟨⟨0xE6, .inc, .zeroPage, 5⟩, 0x02⟩, ⟨⟨0xA5, .lda, .zeroPage, 3⟩, 0x02⟩,
    ⟨⟨0xC5, .cmp, .zeroPage, 3⟩, 0x01⟩]

/-- The branch back to the loop. -/
def again : Line := ⟨⟨0xD0, .bne, .relative, 2⟩, 0xF1⟩

/-- The sum goes to A. -/
def finish : List Line := [⟨⟨0xA5, .lda, .zeroPage, 3⟩, 0x03⟩]

theorem program_eq (m k : UInt8) : program m k =
    Line.codeOf (setup m k) ++
      (Line.codeOf round ++ (again.code ++ (Line.codeOf finish ++ [0x4C, 0x1F, 0x80]))) := rfl

theorem straight_setup (m k : UInt8) : Line.Straight (setup m k) := by
  unfold Line.Straight setup
  simp only [List.forall_mem_cons, List.not_mem_nil, false_implies, implies_true, and_true]
  decide

theorem straight_round : Line.Straight round := by decide

theorem straight_finish : Line.Straight finish := by decide

/-! ### The cells -/

/-- How often the summand is added. -/
def rounds (k : UInt8) : Nat := if k = 0 then 256 else k.toNat

/-- What the cells of the program tell after so many rounds. -/
structure Tally (m k : UInt8) (i : Nat) (memory : Memory) : Prop where
  summand : memory[(0x0000 : UInt16)] = m
  count : memory[(0x0001 : UInt16)] = k
  counter : memory[(0x0002 : UInt16)] = UInt8.ofNat i
  sum : memory[(0x0003 : UInt16)] = UInt8.ofNat (i * m.toNat)

variable {i : Nat} {regs : Registers} {memory : Memory}

theorem tally_setup (m k : UInt8) (regs : Registers) (memory : Memory) :
    Tally m k 0 (Line.applyAll (setup m k) (regs, memory)).2 := by
  have hmemory : (Line.applyAll (setup m k) (regs, memory)).2 =
      (((memory.set 0x0000 m).set 0x0001 k).set 0x0002 0).set 0x0003 0 := rfl
  rw [hmemory]
  constructor <;> simp [Cells.getElem_set]

/-- The registers before the addition. -/
def cleared (regs : Registers) (memory : Memory) : Registers :=
  (Line.applyAll (round.take 2) (regs, memory)).1

/-- Nothing is carried into the addition. -/
theorem a_add_cleared (regs : Registers) (memory : Memory) (value : UInt8) :
    ((cleared regs memory).add value).a = memory[(0x0003 : UInt16)] + value := by
  have hsum := (cleared regs memory).add_value value
  have hcarry : (cleared regs memory).p.has Flag.carry = false := Status.has_put_self (by decide)
  have ha : (cleared regs memory).a = memory[(0x0003 : UInt16)] := rfl
  rw [hcarry, ha, Bool.toNat_false, Nat.add_zero] at hsum
  have hlt := ((cleared regs memory).add value).a.toNat_lt
  apply UInt8.toNat_inj.mp
  rw [UInt8.toNat_add]
  omega

theorem memory_round (regs : Registers) (memory : Memory) :
    (Line.applyAll round (regs, memory)).2 =
      (memory.set 0x0003 (memory[(0x0003 : UInt16)] + memory[(0x0000 : UInt16)])).set 0x0002
        (memory[(0x0002 : UInt16)] + 1) := by
  have hapart : (0x0003 : UInt16) ≠ 0x0002 := by decide
  rw [← a_add_cleared regs memory, ← Cells.getElem_set_of_ne memory hapart
    ((cleared regs memory).add memory[(0x0000 : UInt16)]).a]
  rfl

/-- The comparison at the end of a round is that of the cells. -/
theorem registers_round (regs : Registers) (memory : Memory) :
    let after := (Line.applyAll round (regs, memory)).2
    ∃ r : Registers, (Line.applyAll round (regs, memory)).1 =
      r.compare after[(0x0002 : UInt16)] after[(0x0001 : UInt16)] := ⟨_, rfl⟩

/-- A round adds the summand once more, and compares the rounds with their number. -/
theorem Tally.round (h : Tally m k i memory) (regs : Registers) :
    Tally m k (i + 1) (Line.applyAll round (regs, memory)).2 ∧
      (Line.applyAll round (regs, memory)).1.p.has Flag.zero = (UInt8.ofNat (i + 1) == k) := by
  have htally : Tally m k (i + 1) (Line.applyAll Multiplication.round (regs, memory)).2 := by
    have hcounter : UInt8.ofNat (i + 1) = UInt8.ofNat i + 1 := UInt8.ofNat_add i 1
    have hsum : UInt8.ofNat ((i + 1) * m.toNat) = UInt8.ofNat (i * m.toNat) + m := by
      rw [Nat.succ_mul, UInt8.ofNat_add, UInt8.ofNat_toNat]
    rw [memory_round, h.summand, h.counter, h.sum, ← hcounter, ← hsum]
    constructor
    · simp [Cells.getElem_set, h.summand]
    · simp [Cells.getElem_set, h.count]
    · simp [Cells.getElem_set]
    · simp [Cells.getElem_set]
  obtain ⟨r, hregs⟩ := registers_round regs memory
  refine ⟨htally, ?_⟩
  rw [hregs, htally.counter, htally.count, (r.shows_compare _ _).1]
  rw [Bool.eq_iff_iff, beq_iff_eq, beq_iff_eq]
  grind

/-! ### The count -/

theorem rounds_pos (k : UInt8) : 0 < rounds k := by
  unfold rounds
  split
  · decide
  · rename_i hk
    rw [← UInt8.toNat_inj] at hk
    exact Nat.pos_of_ne_zero hk

theorem rounds_mod (k : UInt8) : rounds k % 256 = k.toNat := by
  unfold rounds
  split
  · rename_i hk
    rw [hk]
    rfl
  · exact Nat.mod_eq_of_lt k.toNat_lt

theorem rounds_le (k : UInt8) : rounds k ≤ 256 := by
  have hlt := k.toNat_lt
  unfold rounds
  split <;> omega

/-- Only the last round finds the counter at the count. -/
theorem counter_eq (hi : i < rounds k) : UInt8.ofNat (i + 1) = k ↔ i + 1 = rounds k := by
  have hpos := rounds_pos k
  have hmod := rounds_mod k
  have hle := rounds_le k
  rw [← UInt8.toNat_inj, UInt8.toNat_ofNat']
  omega

/-- So many rounds make the product. -/
theorem product_eq (m k : UInt8) :
    (UInt8.ofNat (rounds k * m.toNat)).toNat = m.toNat * k.toNat % 256 := by
  rw [UInt8.toNat_ofNat', Nat.mul_comm m.toNat, ← rounds_mod k, Nat.mod_mul_mod]

/-! ### The run of the processor -/

/-- Where the lines of the program are. -/
theorem places {bus : SystemBus} (h : bus.Shows 0x8000 (program m k)) :
    bus.Shows 0x8000 (Line.codeOf (setup m k)) ∧ bus.Shows 0x800E (Line.codeOf round) ∧
      bus.Shows 0x801B again.code ∧ bus.Shows 0x801D (Line.codeOf finish) ∧
      bus.Shows 0x801F [0x4C, 0x1F, 0x80] := by
  rw [program_eq] at h
  exact ⟨h.front, h.back.front, h.back.back.front, h.back.back.back.front, h.back.back.back.back⟩

/-- The program has come to an address, after so many rounds. -/
structure Stage (m k : UInt8) (i : Nat) (pc : UInt16) (board : Board SystemBus) : Prop where
  wired : board.bus.Wired
  code : board.bus.Shows 0x8000 (program m k)
  pc : board.cpu.regs.pc = pc
  tally : Tally m k i board.bus.space.bytes

variable {board : Board SystemBus} {pc : UInt16} {lines : List Line}

/-- Lines of the program lead to the stage behind them, if the cells are then as they should be. -/
theorem exists_stage (hlines : Line.Straight lines) (hwired : board.bus.Wired)
    (hcode : board.bus.Shows 0x8000 (program m k)) (hpc : board.cpu.regs.pc = pc)
    (hplace : board.bus.Shows pc (Line.codeOf lines))
    (htally : Tally m k i (Line.applyAll lines (board.cpu.regs, board.bus.space.bytes)).2) :
    ∃ instructions mid, Board.Works board instructions mid ∧
      instructions.length = lines.length ∧ Board.cyclesOf instructions = Line.cyclesOf lines ∧
      Stage m k i (pc + UInt16.ofNat (Line.codeOf lines).length) mid ∧
      mid.cpu.regs = (Line.applyAll lines (board.cpu.regs, board.bus.space.bytes)).1 := by
  subst hpc
  obtain ⟨instructions, hworks, hlength, hcycles⟩ := Line.works hlines hwired hplace
  refine ⟨instructions, _, hworks, hlength, hcycles, ⟨hwired.withBytes _, ?_, ?_, htally⟩, rfl⟩
  · exact hcode.withBytes hwired fun b hb => Line.memory_applyAll hlines (by omega)
  · exact Line.pc_applyAll hlines

theorem exists_stage_loop (hwired : board.bus.Wired) (hcode : board.bus.Shows 0x8000 (program m k))
    (hpc : board.cpu.regs.pc = 0x8000) :
    ∃ instructions mid, Board.Works board instructions mid ∧ instructions.length = 7 ∧
      Board.cyclesOf instructions = 18 ∧ Stage m k 0 0x800E mid := by
  obtain ⟨hplace, -⟩ := places hcode
  obtain ⟨instructions, mid, hworks, hlength, hcycles, hstage, -⟩ :=
    exists_stage (straight_setup m k) hwired hcode hpc hplace (tally_setup m k _ _)
  exact ⟨instructions, mid, hworks, hlength, hcycles, hstage⟩

theorem simple_again : again.opcode.Simple := by decide

/-- The branch goes back unless the comparison has found equality. -/
theorem apply_again (regs : Registers) (memory : Memory) :
    again.apply (regs, memory) =
      ({ regs with
          pc := if regs.p.has Flag.zero then regs.pc + 2 else regs.pc + 2 + signedOffset 0xF1 },
        memory) := by
  show (({ regs with
    pc := if regs.p.has Flag.zero == false then _ else _ } : Registers), memory) = _
  cases regs.p.has Flag.zero <;> rfl

/-- The branch at the end of a round. -/
theorem Stage.branch (h : Stage m k i 0x801B board) :
    ∃ instruction mid, Board.Works board [instruction] mid ∧
      if board.cpu.regs.p.has Flag.zero then instruction.cycles = 2 ∧ Stage m k i 0x801D mid
      else instruction.cycles = 3 ∧ Stage m k i 0x800E mid := by
  have hplace : board.bus.Shows board.cpu.regs.pc again.code := by
    rw [h.pc]
    exact (places h.code).2.2.1
  have hexecute := Line.execute_eq simple_again h.wired hplace
  rw [apply_again, h.pc] at hexecute
  have hcycles : (again.step board.cpu.regs).cycles =
      2 + (!board.cpu.regs.p.has Flag.zero).toNat := rfl
  refine ⟨_, _, .single (Line.not_idle simple_again hplace) hexecute, ?_⟩
  rw [hcycles]
  cases board.cpu.regs.p.has Flag.zero with
  | true => exact ⟨rfl, h.wired.withBytes _, h.code, rfl, h.tally⟩
  | false => exact ⟨rfl, h.wired.withBytes _, h.code, rfl, h.tally⟩

/-- **One round** leads back to the loop, or behind it if it was the last. -/
theorem Stage.round (h : Stage m k i 0x800E board) (hi : i < rounds k) :
    ∃ instructions mid, Board.Works board instructions mid ∧ instructions.length = 8 ∧
      if i + 1 = rounds k then Board.cyclesOf instructions = 24 ∧ Stage m k (i + 1) 0x801D mid
      else Board.cyclesOf instructions = 25 ∧ Stage m k (i + 1) 0x800E mid := by
  obtain ⟨-, hplace, -⟩ := places h.code
  obtain ⟨htally, hzero⟩ := h.tally.round board.cpu.regs
  obtain ⟨adding, mid, hadding, hlength, hcycles, hmid, hregs⟩ :=
    exists_stage straight_round h.wired h.code h.pc hplace htally
  obtain ⟨back, next, hback, hcases⟩ := Stage.branch hmid
  refine ⟨adding ++ [back], next, hadding.append hback, ?_, ?_⟩
  · rw [List.length_append, hlength]
    rfl
  · have hlast : mid.cpu.regs.p.has Flag.zero = true ↔ i + 1 = rounds k := by
      rw [hregs, hzero, beq_iff_eq]
      exact counter_eq hi
    rw [Board.cyclesOf_append, hcycles, Board.cyclesOf]
    by_cases hdone : i + 1 = rounds k
    · rw [if_pos (hlast.mpr hdone)] at hcases
      rw [if_pos hdone, hcases.1]
      exact ⟨rfl, hcases.2⟩
    · rw [if_neg fun heq => hdone (hlast.mp heq)] at hcases
      rw [if_neg hdone, hcases.1]
      exact ⟨rfl, hcases.2⟩

/-- **The loop**, by induction on the rounds that are left. -/
theorem Stage.loop (h : Stage m k i 0x800E board) (hi : i < rounds k) :
    ∃ instructions final, Board.Works board instructions final ∧
      instructions.length = 8 * (rounds k - i) ∧
      Board.cyclesOf instructions + 1 = 25 * (rounds k - i) ∧ Stage m k (rounds k) 0x801D final := by
  induction hleft : rounds k - i generalizing i board with
  | zero => omega
  | succ left ih =>
    obtain ⟨instructions, mid, hworks, hlength, hcases⟩ := h.round hi
    by_cases hdone : i + 1 = rounds k
    · rw [if_pos hdone, hdone] at hcases
      exact ⟨instructions, mid, hworks, by omega, by omega, hcases.2⟩
    · rw [if_neg hdone] at hcases
      obtain ⟨later, final, hlater, hlaterLength, hlaterCycles, hfinal⟩ :=
        ih hcases.2 (by omega) (by omega)
      refine ⟨instructions ++ later, final, hworks.append hlater, ?_, ?_, hfinal⟩
      · rw [List.length_append]
        omega
      · rw [Board.cyclesOf_append]
        omega

/-- What the program leaves. -/
structure Finished (m k : UInt8) (board : Board SystemBus) : Prop where
  wired : board.bus.Wired
  idle : board.Idle
  pc : board.cpu.regs.pc = 0x801F
  sum : board.bus.peek 0x0003 = UInt8.ofNat (rounds k * m.toNat)
  accumulator : board.cpu.regs.a = UInt8.ofNat (rounds k * m.toNat)

theorem Stage.finish (h : Stage m k (rounds k) 0x801D board) :
    ∃ instructions final, Board.Works board instructions final ∧ instructions.length = 1 ∧
      Board.cyclesOf instructions = 3 ∧ Finished m k final := by
  obtain ⟨-, -, -, hplace, -⟩ := places h.code
  obtain ⟨instructions, final, hworks, hlength, hcycles, hfinal, hregs⟩ :=
    exists_stage straight_finish h.wired h.code h.pc hplace h.tally
  have hpc : final.cpu.regs.pc = 0x801F := hfinal.pc
  refine ⟨instructions, final, hworks, hlength, hcycles, hfinal.wired, ?_, hpc, ?_, ?_⟩
  · obtain ⟨-, -, -, -, hjump⟩ := places hfinal.code
    have hopcode : final.bus.peek 0x801F = 0x4C := (hjump 0 (by decide)).2
    have hlow : final.bus.peek (0x801F + 1) = 0x1F := (hjump 1 (by decide)).2
    have hhigh : final.bus.peek (0x801F + 2) = 0x80 := (hjump 2 (by decide)).2
    rw [Board.Idle, hpc, hlow, hhigh]
    exact ⟨hopcode, by decide⟩
  · rw [hfinal.wired.peek_of_storage (by decide)]
    exact hfinal.tally.sum
  · rw [hregs]
    exact h.tally.sum

/-- **The whole program.** -/
theorem works_program (hwired : board.bus.Wired) (hcode : board.bus.Shows 0x8000 (program m k))
    (hpc : board.cpu.regs.pc = 0x8000) :
    ∃ instructions final, Board.Works board instructions final ∧
      instructions.length = 8 * rounds k + 8 ∧ Board.cyclesOf instructions = 25 * rounds k + 20 ∧
      Finished m k final := by
  obtain ⟨first, loop, hfirst, hfirstLength, hfirstCycles, hloop⟩ :=
    exists_stage_loop hwired hcode hpc
  obtain ⟨middle, behind, hmiddle, hmiddleLength, hmiddleCycles, hbehind⟩ :=
    hloop.loop (rounds_pos k)
  obtain ⟨last, final, hlast, hlastLength, hlastCycles, hfinal⟩ := hbehind.finish
  refine ⟨first ++ (middle ++ last), final, hfirst.append (hmiddle.append hlast), ?_, ?_, hfinal⟩
  · rw [List.length_append, List.length_append]
    omega
  · rw [Board.cyclesOf_append, Board.cyclesOf_append]
    omega

/-! ### The image -/

/-- What is not zero in the image: the header, which announces two program banks and one character
bank, the program, the handler at `$9000`, which returns at once, and the vectors. -/
def pieces (m k : UInt8) : List (Nat × List UInt8) :=
  [(0, [0x4E, 0x45, 0x53, 0x1A, 2, 1]), (16, program m k), (16 + 0x1000, [0x40]),
    (16 + 0x7FFA, [0x00, 0x90, 0x00, 0x80, 0x00, 0x90])]

/-- The byte of the image at an offset. -/
def imageByte (m k : UInt8) (i : Nat) : UInt8 :=
  ((pieces m k).findSome? fun piece =>
    if piece.1 ≤ i then piece.2[i - piece.1]? else none).getD 0

/-- An image with the program. -/
def image (m k : UInt8) : Image := Array.ofFn fun i : Fin 40976 => imageByte m k i

theorem size_image (m k : UInt8) : (image m k).size = 40976 := Array.size_ofFn

theorem byteAt_image (hi : i < 40976) : Header.byteAt (image m k) i = imageByte m k i :=
  Image.byteAt_ofFn _ hi

theorem announced_by_image (m k : UInt8) :
    (image m k).prgCount = 2 ∧ (image m k).chrCount = 1 ∧ (image m k).trainer = 0 ∧
      (image m k).mapper = 0 := by
  have hprg : Header.byteAt (image m k) 4 = 2 := byteAt_image (by decide)
  have hchr : Header.byteAt (image m k) 5 = 1 := byteAt_image (by decide)
  have hlow : Header.byteAt (image m k) 6 = 0 := byteAt_image (by decide)
  have hhigh : Header.byteAt (image m k) 7 = 0 := byteAt_image (by decide)
  rw [Image.prgCount, Image.chrCount, Image.trainer, Image.mapper, hprg, hchr, hlow, hhigh]
  decide

theorem defect?_image (m k : UInt8) : (image m k).defect? = none := by
  obtain ⟨hprg, hchr, htrainer, hmapper⟩ := announced_by_image m k
  have hsize := size_image m k
  have hextent := (image m k).extent_eq
  rw [hprg, hchr, htrainer] at hextent
  refine Image.defect?_eq_none.mpr ⟨by omega, ?_, hmapper, by omega, by omega⟩
  rw [Image.extract_magic (by omega), byteAt_image (by decide), byteAt_image (by decide),
    byteAt_image (by decide), byteAt_image (by decide)]
  rfl

theorem imageByte_program (hi : i < (program m k).length) :
    imageByte m k (16 + i) = (program m k)[i] := by
  have hbehind : ([0x4E, 0x45, 0x53, 0x1A, 2, 1] : List UInt8)[16 + i]? = none :=
    List.getElem?_eq_none (by simp; omega)
  simp [imageByte, pieces, hbehind, hi]

end Multiplication

namespace Console

open Multiplication

variable {m k : UInt8}

/-- A console with that image shows the program at `$8000`. -/
theorem shows_program {settings : Settings} {console : Console}
    (h : ofImage settings (image m k) = .ok console) :
    console.bus.Shows 0x8000 (program m k) := by
  obtain ⟨-, -, htrainer, -⟩ := announced_by_image m k
  intro i hi
  have hsmall : i < 34 := hi
  obtain ⟨hlower, -⟩ := (ofImage_shows h).1 i (by omega)
  rw [Image.prgOffset, htrainer, Image.getElem?_eq_byteAt (by rw [size_image]; omega),
    byteAt_image (by omega), Option.some_inj] at hlower
  refine ⟨?_, hlower.symm.trans (imageByte_program hi)⟩
  rw [AddressSpace.toNat_add_ofNat (show 0x8000 + i < 0x10000 by omega)]
  exact Nat.le_add_right _ _

/-- The image makes a console. -/
theorem exists_powerOn (settings : Settings) (m k : UInt8) :
    ∃ cartridge, ofImage settings (image m k) = .ok (powerOn settings cartridge) := by
  have hprg := (Image.defect?_eq_none.mp (defect?_image m k)).2.2.2.1
  have hcartridge : Cartridge.ofImage (image m k) = .ok ((image m k).announced hprg) :=
    Cartridge.ofImage_eq_ok.mpr ⟨defect?_image m k, hprg, rfl⟩
  exact ⟨_, ofImage_eq_ok.mpr ⟨_, hcartridge, rfl⟩⟩

/-- Even 256 rounds take less than a frame of either region. -/
theorem rounds_within_frame (region : Region) (k : UInt8) :
    25 * rounds k + 20 ≤ region.cyclesPerFrame := by
  have hrounds := rounds_le k
  have hframe : 29781 ≤ region.cyclesPerFrame := by
    cases region <;> decide
  omega

/-- **The multiplication completes** on a console of either region that has just been made from the
image.  Unless the time is up before, its run until idle makes eight steps for each round and eight
others, and takes no interrupt.  It ends parked at `$801F`, with the product in A and in every copy of
`$0003`. -/
theorem multiplication_completes (settings : Settings) (m k : UInt8) (clock : Nat → Nat)
    (bound : Nat) (hbound : 8 * rounds k + 8 ≤ bound)
    (hclock : ∀ n < 8 * rounds k + 8, clock n < settings.timeout) :
    ∃ console final, ofImage settings (image m k) = .ok console ∧
      runUntilIdle (m := Id) clock bound console = (.idle (8 * rounds k + 8), final) ∧
      final.cpu.regs.pc = 0x801F ∧
      (∀ a, SystemBus.fold a = 0x0003 → (final.bus.peek a).toNat = m.toNat * k.toNat % 256) ∧
      final.cpu.regs.a.toNat = m.toNat * k.toNat % 256 ∧
      final.cpu.cycles = 25 * rounds k + 20 ∧
      ∀ n < 8 * rounds k + 8, ∃ taken : StepTaken,
        steps n console = .ok () taken.before ∧ ¬ taken.Enters := by
  obtain ⟨cartridge, hofImage⟩ := exists_powerOn settings m k
  obtain ⟨console, hconsole⟩ : ∃ console, console = powerOn settings cartridge := ⟨_, rfl⟩
  rw [← hconsole] at hofImage
  have hwired : console.board.bus.Wired := by
    rw [hconsole]
    exact wired_powerOn settings _
  have hpc : console.board.cpu.regs.pc = 0x8000 := by
    rw [hconsole]
    rfl
  have htimeout : console.timeout = settings.timeout := by
    rw [hconsole]
    rfl
  obtain ⟨instructions, board, hworks, hlength, hcycles, hfinished⟩ :=
    works_program hwired (shows_program hofImage) hpc
  have hroom : console.vblank.elapsed + Board.cyclesOf instructions ≤ console.vblank.threshold := by
    rw [hcycles, hconsole]
    show 0 + (25 * rounds k + 20) ≤ settings.region.cyclesPerFrame
    rw [Nat.zero_add]
    exact rounds_within_frame settings.region k
  rw [← htimeout, ← hlength] at hclock
  rw [← hlength] at hbound
  obtain ⟨final, hrun, hboard, hquiet⟩ := hworks.runUntilIdle hfinished.idle hroom hbound hclock
  rw [hlength] at hrun hquiet
  have hcpu : final.cpu = board.cpu := congrArg Board.cpu hboard
  have hbus : final.bus = board.bus := congrArg Board.bus hboard
  refine ⟨console, final, hofImage, hrun, ?_, ?_, ?_, ?_, hquiet⟩
  · rw [hcpu, hfinished.pc]
  · intro a ha
    rw [hbus, hfinished.wired.peek_congr (ha.trans (by decide : 0x0003 = SystemBus.fold 0x0003)),
      hfinished.sum, product_eq]
  · rw [hcpu, hfinished.accumulator, product_eq]
  · rw [hcpu, hworks.total, hcycles, hconsole]
    exact Nat.zero_add _

/-- Three times ten, on a console that names no settings. -/
theorem three_times_ten :
    ∃ console final, ofImage Settings.default (image 3 10) = .ok console ∧
      runUntilIdle (m := Id) (fun _ => 0) 88 console = (.idle 88, final) ∧
      final.cpu.regs.pc = 0x801F ∧ (final.bus.peek 0x0003).toNat = 30 ∧
      (final.bus.peek 0x1803).toNat = 30 ∧ final.cpu.regs.a.toNat = 30 := by
  obtain ⟨console, final, hconsole, hrun, hpc, hsum, ha, -⟩ :=
    multiplication_completes Settings.default 3 10 (fun _ => 0) 88 (by decide) (by decide)
  exact ⟨console, final, hconsole, hrun, hpc, hsum 0x0003 (by decide), hsum 0x1803 (by decide), ha⟩

end Console

end NesMachine
