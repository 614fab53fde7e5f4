import NesMachine.Proofs.Cpu.Effects
import NesMachine.Proofs.Cpu.Traffic

/-!
# The cycles of an instruction

An instruction takes the cycles of its opcode, one more for a branch that is taken, wherever it
leads, and one more for an indexed read whose base and index carry into another page.  The operand
records a carry for every instruction; `Opcode.pagePenalty_iff` says which ones pay for it.
-/

namespace NesMachine

/-- The reads that pay for a page crossing. -/
def Mnemonic.paying : List Mnemonic := [adc, and, cmp, eor, lda, ldx, ldy, ora, sbc]

/-- The modes in which they pay for it. -/
def Mode.paying : List Mode := [absoluteX, absoluteY, indirectIndexed]

theorem Opcode.pagePenalty_iff {o : Opcode} :
    o.pagePenalty = true ↔ o.mnemonic ∈ Mnemonic.paying ∧ o.mode ∈ Mode.paying := by
  rw [pagePenalty, Bool.and_eq_true]
  refine and_congr ?_ ?_
  · cases o.mnemonic <;> decide
  · cases o.mode <;> decide

/-- No instruction writes at the address that it pays for. -/
theorem Mnemonic.not_mem_paying_of_storing {m : Mnemonic} (h : m ∈ Mnemonic.storing) :
    m ∉ Mnemonic.paying := by
  revert m
  decide

/-- An index in page zero stays there. -/
theorem Mode.not_mem_paying_of_pageZero {mode : Mode}
    (h : mode ∈ [Mode.zeroPageX, .zeroPageY, .indexedIndirect]) : mode ∉ Mode.paying := by
  revert mode
  decide

namespace Board

variable {board after : Board Memory} {step : Step}

/-- Whether an instruction pays for a page crossing. -/
def pays (o : Opcode) (board : Board Memory) : Bool :=
  o.pagePenalty && o.mode.carries board.operandRegs board.bus

theorem pays_iff {o : Opcode} : board.pays o = true ↔
    o.mnemonic ∈ Mnemonic.paying ∧ o.mode ∈ Mode.paying ∧
      ∃ base index, o.mode.indexed board.operandRegs board.bus = some (base, index) ∧
        0xFF < base % 256 + index := by
  rw [pays, Bool.and_eq_true, Opcode.pagePenalty_iff, Mode.carries_iff, and_assoc]

/-- **The cycles of an instruction** are those of its opcode, one more if it is a branch whose
condition holds before it, and one more if it is one of the nine reads, indexed beyond a page, and
the low byte of the base and the index carry. Stores, shifts and counts in memory and indices in
page zero take no cycle for that. The total of the processor grows by exactly this count. -/
theorem execute_counts (h : execute board = .ok step after) :
    ∃ (o : Opcode) (branched crossed : Bool),
      Opcode.decode board.bus[board.cpu.regs.pc] = some o ∧
      step.cycles = o.cycles + branched.toNat + crossed.toNat ∧
      (branched = true ↔ o.mnemonic.taken board.cpu.regs.p = true) ∧
      (crossed = true ↔ o.mnemonic ∈ Mnemonic.paying ∧ o.mode ∈ Mode.paying ∧
        ∃ base index, o.mode.indexed board.operandRegs board.bus = some (base, index) ∧
          0xFF < base % 256 + index) ∧
      (o.mnemonic ∈ Mnemonic.storing ∨ o.mode ∈ [Mode.zeroPageX, .zeroPageY, .indexedIndirect] →
        crossed = false) ∧
      after.cpu.cycles = board.cpu.cycles + step.cycles := by
  obtain ⟨o, -, hdecode, hcycles, -, -⟩ := execute_effect h
  have hpays : board.pays o = true ↔ _ := pays_iff
  refine ⟨o, _, board.pays o, hdecode, hcycles, Iff.rfl, hpays, ?_, execute_cycles h⟩
  intro hfree
  rw [← Bool.not_eq_true, hpays]
  rintro ⟨hmnemonic, hmode, -⟩
  rcases hfree with hstoring | hpageZero
  · exact Mnemonic.not_mem_paying_of_storing hstoring hmnemonic
  · exact Mode.not_mem_paying_of_pageZero hpageZero hmode

/-- A load pays for an index that carries past the end of memory. -/
theorem load_past_the_end_pays :
    let memory := ((Memory.zeros.set 0x8000 0xBD).set 0x8001 0xFF).set 0x8002 0xFF
    let board : Board Memory := ⟨⟨{ Registers.powerOn with pc := 0x8000, x := 1 }, 7⟩, memory⟩
    ∃ step after, execute board = .ok step after ∧ after.cpu.cycles = 12 := by
  intro memory board
  have hbyte (a : UInt16) : memory[a] =
      if 0x8002 = a then 0xFF else if 0x8001 = a then 0xFF else if 0x8000 = a then 0xBD else 0 := by
    simp only [memory, Cells.getElem_set, Memory.zeros, Cells.getElem_fill]
  have hopcode : board.bus[board.cpu.regs.pc] = 0xBD := hbyte 0x8000
  have hknown : Opcode.decode 0xBD = some ⟨0xBD, .lda, .absoluteX, 4⟩ :=
    Opcode.decode_byte (o := ⟨0xBD, .lda, .absoluteX, 4⟩) (by decide)
  obtain ⟨step, after, hrun⟩ : ∃ step after, execute board = .ok step after :=
    ⟨_, _, (execute_memory_eq_ok (o := ⟨0xBD, .lda, .absoluteX, 4⟩) hopcode hknown).mpr
      ⟨_, _, _, _, resolve_memory .., rfl, rfl, rfl⟩⟩
  refine ⟨step, after, hrun, ?_⟩
  obtain ⟨o, branched, crossed, hdecode, hcycles, hbranched, hcrossed, -, htotal⟩ :=
    execute_counts hrun
  rw [hopcode, hknown] at hdecode
  cases hdecode
  have hcarries : crossed = true := hcrossed.mpr ⟨by decide, by decide, 0xFFFF, 1, by
    simp [Mode.indexed, Mode.operandWord, Memory.wordAt, Memory.byteAt, operandRegs, opened, board,
      hbyte], by decide⟩
  have hstays : branched = false := by simpa [Mnemonic.taken] using hbranched
  rw [htotal, hcycles, hcarries, hstays]
  rfl

end Board

end NesMachine
