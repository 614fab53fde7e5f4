import NesMachine.Bus.Memory
import NesMachine.Proofs.Cpu.Frames
import NesMachine.Proofs.Cpu.Operands

/-!
# Calls and their returns

A call and a break leave a frame on the stack, from which a return goes back behind them.  On a flat
memory, nothing but a store to the frame or a stack pointer above it can get in the way:

* `Entry`: the two ways into a routine; `Entry.execute_entry` says what entering does, and
  `Entry.exists_execute_entry` that it succeeds if there is room;
* `Frame`: a routine that has been entered, and `Frame.Holds` that its bytes are in place;
* `Frame.Holds.keeps`: an instruction keeps every frame above the stack pointer in which it does not
  store, and so does a run inside the routine (`Frame.Holds.run`);
* `Frame.AtExit.execute`: with the frame in place, the routine leaves to where it came from.
-/

namespace NesMachine

/-! ### Several writes -/

/-- Replaces bytes one after the other. -/
def Memory.setAll (memory : Memory) (writes : List (UInt16 × UInt8)) : Memory :=
  writes.foldl (fun memory write => Cells.set memory write.1 write.2) memory

theorem Memory.getElem_setAll_of_ne {a : UInt16} (writes : List (UInt16 × UInt8))
    (ha : ∀ write ∈ writes, write.1 ≠ a) (memory : Memory) :
    (memory.setAll writes)[a] = memory[a] := by
  induction writes generalizing memory with
  | nil => rfl
  | cons write writes ih =>
    have hrest := ih (fun other hother => ha other (List.mem_cons_of_mem write hother))
      (Cells.set memory write.1 write.2)
    exact hrest.trans (Cells.getElem_set_of_ne memory (ha write List.mem_cons_self) write.2)

theorem Memory.getElem_setAll {write : UInt16 × UInt8} (writes : List (UInt16 × UInt8))
    (hnodup : (writes.map Prod.fst).Nodup) (hwrite : write ∈ writes) (memory : Memory) :
    (memory.setAll writes)[write.1] = write.2 := by
  induction writes generalizing memory with
  | nil => cases hwrite
  | cons first writes ih =>
    rw [List.map_cons, List.nodup_cons] at hnodup
    rcases List.mem_cons.mp hwrite with rfl | hrest
    · have hne : ∀ other ∈ writes, other.1 ≠ write.1 := fun other hother heq =>
        hnodup.1 (heq ▸ List.mem_map_of_mem hother)
      exact (getElem_setAll_of_ne writes hne _).trans (Cells.getElem_set_self memory _ _)
    · exact ih hnodup.2 hrest (Cells.set memory first.1 first.2)

/-! ### Instructions on a flat memory -/

/-- On a flat memory, a known opcode leaves the operand and the action of its instruction. -/
theorem Board.execute_memory_eq_ok {board after : Board Memory} {step : Step} {o : Opcode}
    (hbyte : board.bus[board.cpu.regs.pc] = o.byte) (ho : Opcode.decode o.byte = some o) :
    execute board = .ok step after ↔
      ∃ op resolved extra done,
        resolve o.mode o.fetch (board.opened board.bus) = .ok op resolved ∧
        perform o.mnemonic op resolved = .ok extra done ∧
        step = ⟨board.cpu.regs.pc, o.byte, o.mnemonic, o.mode, o.cycles + extra
          + if o.pagePenalty && op.pageCrossed then 1 else 0⟩ ∧
        after = ⟨⟨done.cpu.regs, done.cpu.cycles + step.cycles⟩, done.bus⟩ := by
  refine execute_eq_ok.trans ⟨?_, ?_⟩
  · intro hparts
    obtain ⟨byte, bus, o', op, resolved, extra, done, hread, hdecode, hparts⟩ := hparts
    cases hread
    rw [hbyte, ho] at hdecode
    cases hdecode
    rw [hbyte] at hparts
    exact ⟨op, resolved, extra, done, hparts⟩
  · intro hparts
    obtain ⟨op, resolved, extra, done, hparts⟩ := hparts
    refine ⟨o.byte, board.bus, o, op, resolved, extra, done, ?_, ho, hparts⟩
    rw [← hbyte]
    rfl

/-! ### Entries and frames -/

/-- The ways into a routine. -/
inductive Entry where
  | call
  | interrupt
deriving DecidableEq

namespace Entry

/-- The instruction that enters: JSR or BRK. -/
def opcode : Entry → Opcode
  | call => ⟨0x20, .jsr, .absolute, 6⟩
  | interrupt => ⟨0x00, .brk, .implicit, 7⟩

/-- The instruction that leaves: RTS or RTI. -/
def exit : Entry → Opcode
  | call => ⟨0x60, .rts, .implicit, 6⟩
  | interrupt => ⟨0x40, .rti, .implicit, 6⟩

/-- The number of bytes in a frame. -/
def size : Entry → Nat
  | call => 2
  | interrupt => 3

/-- How far behind the entering instruction the program goes on. -/
def length : Entry → UInt16
  | call => 3
  | interrupt => 2

/-- Where the routine begins. -/
def target (e : Entry) (board : Board Memory) : UInt16 :=
  match e with
  | call => wordOf board.bus[board.cpu.regs.pc + 1] board.bus[board.cpu.regs.pc + 2]
  | interrupt => wordOf board.bus[(0xFFFE : UInt16)] board.bus[(0xFFFF : UInt16)]

theorem decode_opcode (e : Entry) : Opcode.decode e.opcode.byte = some e.opcode := by
  apply Opcode.decode_byte
  cases e <;> decide

end Entry

/-- A routine that has been entered and not left: how, and with which registers. -/
structure Frame where
  entry : Entry
  regs : Registers

namespace Frame

variable {f : Frame} {board after : Board Memory} {step : Step}

/-- The bytes that the routine needs to get back, by their addresses. -/
def bytes (f : Frame) : List (UInt16 × UInt8) :=
  let word := [(slotAddress f.regs.s, highByte (f.regs.pc + 2)),
    (slotAddress (f.regs.s - 1), lowByte (f.regs.pc + 2))]
  match f.entry with
  | .call => word
  | .interrupt => word ++ [(slotAddress (f.regs.s - 2), f.regs.p.pushedByProgram)]

/-- With the stack pointer at `s`, the frame is above it and its bytes are in place. -/
structure Holds (f : Frame) (s : UInt8) (memory : Memory) : Prop where
  below : s.toNat + f.entry.size ≤ f.regs.s.toNat
  bytes : ∀ slot ∈ f.bytes, memory[slot.1] = slot.2

/-- No store of the next instruction hits the frame. -/
def Spares (f : Frame) (board : Board Memory) : Prop := ∀ slot ∈ f.bytes, ¬ board.StoresAt slot.1

/-- An instruction inside the routine: it leaves the stack pointer below the frame and stores
nowhere in it. -/
def Within (f : Frame) (board after : Board Memory) : Prop :=
  (∃ step, Board.execute board = .ok step after) ∧
    after.cpu.regs.s.toNat + f.entry.size ≤ f.regs.s.toNat ∧ f.Spares board

/-- The routine is about to leave: it has reached its last instruction, with the stack pointer just
below the frame. -/
structure AtExit (f : Frame) (board : Board Memory) : Prop where
  opcode : board.bus[board.cpu.regs.pc] = f.entry.exit.byte
  s : board.cpu.regs.s.toNat + f.entry.size = f.regs.s.toNat

/-- The registers are those that the routine leaves with. -/
structure Left (f : Frame) (regs : Registers) : Prop where
  pc : regs.pc = f.regs.pc + f.entry.length
  s : regs.s = f.regs.s
  p : f.entry = .interrupt → regs.p = ⟨(f.regs.p.byte ||| Flag.unused) &&& ~~~Flag.breakMark⟩

/-- The slots of a frame lie at most its size below the stack pointer at the entry. -/
theorem exists_slot {slot : UInt16 × UInt8} (hslot : slot ∈ f.bytes) :
    ∃ n : UInt8, n.toNat < f.entry.size ∧ slot.1 = slotAddress (f.regs.s - n) := by
  have hzero : slotAddress f.regs.s = slotAddress (f.regs.s - 0) := by rw [UInt8.sub_zero]
  obtain ⟨entry, regs⟩ := f
  cases entry with
  | call =>
    simp only [bytes, List.mem_cons, List.not_mem_nil, or_false] at hslot
    rcases hslot with rfl | rfl
    · exact ⟨0, (by decide : 0 < 2), hzero⟩
    · exact ⟨1, (by decide : 1 < 2), rfl⟩
  | interrupt =>
    simp only [bytes, List.mem_append, List.mem_cons, List.not_mem_nil, or_false] at hslot
    rcases hslot with (rfl | rfl) | rfl
    · exact ⟨0, (by decide : 0 < 3), hzero⟩
    · exact ⟨1, (by decide : 1 < 3), rfl⟩
    · exact ⟨2, (by decide : 2 < 3), rfl⟩

/-- Outside page one, a frame changes nothing. -/
theorem getElem_setAll_of_page {memory : Memory} {a : UInt16}
    (ha : a.toNat < 0x0100 ∨ 0x0200 ≤ a.toNat) : (memory.setAll f.bytes)[a] = memory[a] := by
  refine Memory.getElem_setAll_of_ne _ ?_ _
  intro slot hslot heq
  obtain ⟨n, -, hslot'⟩ := exists_slot hslot
  rw [← heq, hslot', toNat_slotAddress] at ha
  have hlt := (f.regs.s - n).toNat_lt
  omega

theorem nodup_bytes (f : Frame) : (f.bytes.map Prod.fst).Nodup := by
  obtain ⟨entry, regs⟩ := f
  have hne {m n : UInt8} (hmn : m ≠ n) : slotAddress (regs.s - m) ≠ slotAddress (regs.s - n) := by
    intro heq
    have hsub := slotAddress_inj heq
    grind
  have h₁ := hne (by decide : (0 : UInt8) ≠ 1)
  have h₂ := hne (by decide : (0 : UInt8) ≠ 2)
  have h₃ := hne (by decide : (1 : UInt8) ≠ 2)
  rw [UInt8.sub_zero] at h₁ h₂
  cases entry with
  | call => simp [bytes, h₁]
  | interrupt => simp [bytes, h₁, h₂, h₃]

/-- Memory keeps its bytes where nothing is written. -/
theorem getElem_of_reaches {W : UInt16 → Prop} {memory memory' : Memory} {a : UInt16}
    (h : Board.Reaches W memory memory') (ha : ¬ W a) : memory'[a] = memory[a] := by
  refine Board.Reaches.keeps (I := fun other => other[a] = memory[a]) ?_ ?_ h rfl
  · intro b value bus bus' hI hread
    cases hread
    exact hI
  · intro b value bus bus' hb hI hwrite
    cases hwrite
    refine (Cells.getElem_set_of_ne bus ?_ value).trans hI
    intro heq
    rw [heq] at hb
    exact ha hb

/-- **The frame survives** any instruction below it that spares it. -/
theorem Holds.keeps {s : UInt8} (h : f.Holds s board.bus)
    (hs : board.cpu.regs.s.toNat ≤ s.toNat) (hexecute : Board.execute board = .ok step after)
    (hspares : f.Spares board) : f.Holds s after.bus := by
  have hbelow := h.below
  refine ⟨hbelow, fun slot hslot => ?_⟩
  obtain ⟨n, hn, hslot'⟩ := exists_slot hslot
  have hsub : (f.regs.s - n).toNat + n.toNat = f.regs.s.toNat := Board.toNat_sub_add (by omega)
  rw [getElem_of_reaches (Board.execute_reaches hexecute) ?_, h.bytes slot hslot]
  rintro (⟨i, hi, hfree⟩ | hstore)
  · -- the slots that the instruction may push to end below the frame
    rw [hslot', wordOf_one] at hfree
    rw [slotAddress_inj hfree] at hsub
    omega
  · exact hspares slot hslot hstore

theorem Holds.within (h : f.Holds board.cpu.regs.s board.bus) (hwithin : f.Within board after) :
    f.Holds after.cpu.regs.s after.bus := by
  obtain ⟨⟨step, hexecute⟩, hbelow, hspares⟩ := hwithin
  exact ⟨hbelow, (h.keeps (Nat.le_refl _) hexecute hspares).bytes⟩

/-- The frame survives any run inside the routine. -/
theorem Holds.run (h : f.Holds board.cpu.regs.s board.bus)
    (hrun : Relation.ReflTransGen f.Within board after) : f.Holds after.cpu.regs.s after.bus := by
  induction hrun with
  | refl => exact h
  | tail _ hwithin ih => exact ih.within hwithin

end Frame

/-! ### Entering and leaving -/

namespace Entry

variable {e : Entry} {board after : Board Memory} {step : Step}

/-- **Entering a routine** pushes its frame, byte by byte, and goes on at its target. -/
theorem execute_entry (hbyte : board.bus[board.cpu.regs.pc] = e.opcode.byte)
    (h : Board.execute board = .ok step after) :
    after.cpu.regs.s.toNat + e.size = board.cpu.regs.s.toNat ∧
      after.cpu.regs.pc = e.target board ∧
      after.bus = Memory.setAll board.bus (⟨e, board.cpu.regs⟩ : Frame).bytes := by
  obtain ⟨op, resolved, extra, done, hresolve, hperform, rfl, rfl⟩ :=
    (Board.execute_memory_eq_ok hbyte e.decode_opcode).mp h
  cases e with
  | call =>
    obtain ⟨low, high, bus₁, bus₂, hlow, hhigh, rfl, rfl⟩ :=
      Board.resolve_absolute_eq_ok.mp hresolve
    cases hlow
    cases hhigh
    obtain ⟨u, mid, hcall, hpure⟩ := Attempt.bind_eq_ok.mp hperform
    cases hpure
    obtain ⟨hs, target, bus₁, bus₂, htarget, hwrite₁, hwrite₂, rfl⟩ := Board.call_eq_ok.mp hcall
    cases htarget
    cases hwrite₁
    cases hwrite₂
    have hnext : board.cpu.regs.pc + 1 + 1 = board.cpu.regs.pc + 2 := UInt16.add_assoc _ 1 1
    have hlast : board.cpu.regs.pc + 1 + 1 + 1 - 1 = board.cpu.regs.pc + 2 := by grind
    refine ⟨Board.toNat_sub_add hs, ?_, ?_⟩
    · show wordOf board.bus[board.cpu.regs.pc + 1] board.bus[board.cpu.regs.pc + 1 + 1] = _
      rw [hnext]
      rfl
    · show Cells.set (Cells.set board.bus _ (highByte (board.cpu.regs.pc + 1 + 1 + 1 - 1))) _
        (lowByte (board.cpu.regs.pc + 1 + 1 + 1 - 1)) = _
      rw [hlast]
      rfl
  | interrupt =>
    cases hresolve
    obtain ⟨u, mid, hbreak, hpure⟩ := Attempt.bind_eq_ok.mp hperform
    cases hpure
    obtain ⟨hs, bus₁, bus₂, bus₃, bus₄, low, high, hwrite₁, hwrite₂, hwrite₃, hread₁, hread₂, hcpu⟩ :=
      Board.softwareInterrupt_eq_ok.mp hbreak
    have hnext : board.cpu.regs.pc + 1 + 1 = board.cpu.regs.pc + 2 := UInt16.add_assoc _ 1 1
    have hstored : bus₃ = Memory.setAll board.bus
        (⟨.interrupt, board.cpu.regs⟩ : Frame).bytes := by
      cases hwrite₁
      cases hwrite₂
      cases hwrite₃
      show Cells.set (Cells.set (Cells.set board.bus _ (highByte (board.cpu.regs.pc + 1 + 1))) _
        (lowByte (board.cpu.regs.pc + 1 + 1))) _ _ = _
      rw [hnext]
      rfl
    obtain ⟨cpu', bus'⟩ := done
    cases hread₁
    replace hread₂ : Bus.read (breakVector + 1) bus₃ = .ok high bus' := hread₂
    cases hread₂
    subst hcpu
    have hvector (a : UInt16) (ha : 0x0200 ≤ a.toNat) : bus₃[a] = board.bus[a] := by
      rw [hstored]
      exact Frame.getElem_setAll_of_page (.inr ha)
    refine ⟨Board.toNat_sub_add hs, ?_, hstored⟩
    show wordOf bus₃[breakVector] bus₃[breakVector + 1] = _
    rw [hvector breakVector (by decide), hvector (breakVector + 1) (by decide)]
    rfl

/-- Entering a routine succeeds if there is room for its frame. -/
theorem exists_execute_entry (hbyte : board.bus[board.cpu.regs.pc] = e.opcode.byte)
    (hroom : e.size ≤ board.cpu.regs.s.toNat) :
    ∃ step after, Board.execute board = .ok step after := by
  cases e with
  | call =>
    have hresolve : Board.resolve .absolute .addressOnly (board.opened board.bus) =
        .ok (.located .absolute 0 (wordOf _ _) false) _ := Board.resolve_absolute_eq_ok.mpr
      ⟨_, _, _, _, Memory.read_eq .., Memory.read_eq .., rfl, rfl⟩
    have hperform {mid : Board Memory} {target : UInt16} (hs : 2 ≤ mid.cpu.regs.s.toNat) :
        Board.perform .jsr (.located .absolute 0 target false) mid = .ok 0 _ :=
      Attempt.bind_eq_ok.mpr ⟨(), _, Board.call_eq_ok.mpr ⟨hs, target, _, _, rfl,
        Memory.write_eq .., Memory.write_eq .., rfl⟩, rfl⟩
    exact ⟨_, _, (Board.execute_memory_eq_ok hbyte (decode_opcode .call)).mpr
      ⟨_, _, 0, _, hresolve, hperform hroom, rfl, rfl⟩⟩
  | interrupt =>
    have hperform {mid : Board Memory} (hs : 3 ≤ mid.cpu.regs.s.toNat) :
        Board.perform .brk (.bare .implicit 0) mid = .ok 0 ⟨⟨_, _⟩, _⟩ :=
      Attempt.bind_eq_ok.mpr ⟨(), _, Board.softwareInterrupt_eq_ok.mpr ⟨hs, _, _, _, _, _, _,
        Memory.write_eq .., Memory.write_eq .., Memory.write_eq .., Memory.read_eq ..,
        Memory.read_eq .., rfl⟩, rfl⟩
    exact ⟨_, _, (Board.execute_memory_eq_ok hbyte (decode_opcode .interrupt)).mpr
      ⟨_, _, 0, _, rfl, hperform hroom, rfl, rfl⟩⟩

end Entry

namespace Frame

variable {f : Frame} {e : Entry} {frames : List Frame} {board after : Board Memory} {step : Step}

/-- After entering a routine, its frame is on the stack. -/
theorem Holds.enter (hbyte : board.bus[board.cpu.regs.pc] = e.opcode.byte)
    (h : Board.execute board = .ok step after) :
    (⟨e, board.cpu.regs⟩ : Frame).Holds after.cpu.regs.s after.bus := by
  obtain ⟨hs, -, hbus⟩ := Entry.execute_entry hbyte h
  refine ⟨Nat.le_of_eq hs, fun slot hslot => ?_⟩
  rw [hbus]
  exact Memory.getElem_setAll _ (nodup_bytes _) hslot board.bus

/-- **Leaving a routine** with its frame in place goes back behind the instruction that entered. -/
theorem AtExit.execute (hexit : f.AtExit board) (h : f.Holds board.cpu.regs.s board.bus) :
    ∃ step after, Board.execute board = .ok step after ∧ f.Left after.cpu.regs ∧
      after.bus = board.bus := by
  have hread {a : UInt16} {value : UInt8} (hslot : (a, value) ∈ f.bytes) :
      Bus.read a board.bus = .ok value board.bus := by
    rw [Memory.read_eq, h.bytes (a, value) hslot]
  have hroom : board.cpu.regs.s.toNat + f.entry.size ≤ 255 := by
    have hlt := f.regs.s.toNat_lt
    have hs := hexit.s
    omega
  obtain ⟨entry, regs⟩ := f
  cases entry with
  | call =>
    have hs : board.cpu.regs.s + 2 = regs.s :=
      UInt8.toNat_inj.mp ((Board.toNat_add_of_le hroom).trans hexit.s)
    have hs₁ : board.cpu.regs.s + 1 = regs.s - 1 := by grind
    have hlow : Bus.read (wordOf (board.cpu.regs.s + 1) 1) board.bus =
        .ok (lowByte (regs.pc + 2)) board.bus := by
      rw [hs₁]
      exact hread (.tail _ (.head _))
    have hhigh : Bus.read (wordOf (board.cpu.regs.s + 2) 1) board.bus =
        .ok (highByte (regs.pc + 2)) board.bus := by
      rw [hs]
      exact hread (.head _)
    have hopcode : Bus.read board.cpu.regs.pc board.bus = .ok 0x60 board.bus := by
      rw [Memory.read_eq, hexit.opcode]
      rfl
    refine ⟨_, _, Board.execute_rts hopcode hroom hlow hhigh, ⟨?_, hs, fun h => by cases h⟩, rfl⟩
    show wordOf (lowByte (regs.pc + 2)) (highByte (regs.pc + 2)) + 1 = regs.pc + 3
    rw [wordOf_lowByte_highByte]
    exact UInt16.add_assoc regs.pc 2 1
  | interrupt =>
    have hs : board.cpu.regs.s + 3 = regs.s :=
      UInt8.toNat_inj.mp ((Board.toNat_add_of_le hroom).trans hexit.s)
    have hs₁ : board.cpu.regs.s + 2 = regs.s - 1 := by grind
    have hs₂ : board.cpu.regs.s + 1 = regs.s - 2 := by grind
    have hstatus : Bus.read (wordOf (board.cpu.regs.s + 1) 1) board.bus =
        .ok regs.p.pushedByProgram board.bus := by
      rw [hs₂]
      exact hread (.tail _ (.tail _ (.head _)))
    have hlow : Bus.read (wordOf (board.cpu.regs.s + 2) 1) board.bus =
        .ok (lowByte (regs.pc + 2)) board.bus := by
      rw [hs₁]
      exact hread (.tail _ (.head _))
    have hhigh : Bus.read (wordOf (board.cpu.regs.s + 3) 1) board.bus =
        .ok (highByte (regs.pc + 2)) board.bus := by
      rw [hs]
      exact hread (.head _)
    have hopcode : Bus.read board.cpu.regs.pc board.bus = .ok 0x40 board.bus := by
      rw [Memory.read_eq, hexit.opcode]
      rfl
    refine ⟨_, _, Board.execute_rti hopcode hroom hstatus hlow hhigh, ⟨?_, hs, fun _ => ?_⟩, rfl⟩
    · exact wordOf_lowByte_highByte (regs.pc + 2)
    · exact Status.ofStack_pushedByProgram regs.p

end Frame

end NesMachine
