import NesMachine.Proofs.Cpu.Calls

/-!
# Nested calls

Routines that enter further routines put their frames one below the other.  `Frame.Nested` is the
state of the machine inside such routines, and `Frame.Nested.stacked` the invariant: all frames are
in place and in order.  So each routine returns to the one around it (`Frame.Nested.returns`), one
more is entered exactly if there is room for its frame (`Frame.Nested.enters_iff`), and only the
size of the stack bounds the depth (`Frame.exists_nested_iff`).
-/

namespace NesMachine

namespace Frame

variable {f : Frame} {e : Entry} {frames : List Frame} {board after : Board Memory} {step : Step}

/-! ### Nesting -/

/-- The state of the machine inside routines, the innermost first: each has been entered from
within the one around it, and no instruction since has stored in its frame or raised the stack
pointer into it. -/
inductive Nested : List Frame → Board Memory → Prop
  | outside (board : Board Memory) : Nested [] board
  | enter {frames : List Frame} {board after : Board Memory} {step : Step} {e : Entry} :
      Nested frames board → board.bus[board.cpu.regs.pc] = e.opcode.byte →
      Board.execute board = .ok step after → Nested (⟨e, board.cpu.regs⟩ :: frames) after
  | inside {f : Frame} {frames : List Frame} {board after : Board Memory} :
      Nested (f :: frames) board → f.Within board after → (∀ outer ∈ frames, outer.Spares board) →
      Nested (f :: frames) after
  | leave {f : Frame} {frames : List Frame} {board after : Board Memory} {step : Step} :
      Nested (f :: frames) board → f.AtExit board → Board.execute board = .ok step after →
      Nested frames after

/-- The frames are in place, one above the other from the stack pointer on. -/
def Stacked (memory : Memory) : UInt8 → List Frame → Prop
  | _, [] => True
  | s, f :: frames => f.Holds s memory ∧ Stacked memory f.regs.s frames

theorem Stacked.keeps {s : UInt8} (h : Stacked board.bus s frames)
    (hs : board.cpu.regs.s.toNat ≤ s.toNat) (hexecute : Board.execute board = .ok step after)
    (hspares : ∀ f ∈ frames, f.Spares board) : Stacked after.bus s frames := by
  induction frames generalizing s with
  | nil => trivial
  | cons f frames ih =>
    have hbelow := h.1.below
    exact ⟨h.1.keeps hs hexecute (hspares f List.mem_cons_self),
      ih h.2 (by omega) fun outer houter => hspares outer (List.mem_cons_of_mem f houter)⟩

/-- The number of bytes in all the frames. -/
def totalSize : List Frame → Nat
  | [] => 0
  | f :: frames => f.entry.size + totalSize frames

theorem totalSize_of_map {n : Nat} (h : frames.map Frame.entry = List.replicate n e) :
    totalSize frames = e.size * n := by
  induction frames generalizing n with
  | nil =>
    cases n with
    | zero => rfl
    | succ n => cases h
  | cons f frames ih =>
    cases n with
    | zero => cases h
    | succ n =>
      rw [List.map_cons, List.replicate_succ, List.cons.injEq] at h
      rw [totalSize, h.1, ih h.2, Nat.mul_succ, Nat.add_comm]

/-- The frames fill the stack at most up to its top. -/
theorem Stacked.total {memory : Memory} {s : UInt8} (h : Stacked memory s frames) :
    s.toNat + totalSize frames ≤ 255 := by
  induction frames generalizing s with
  | nil => exact Nat.le_of_lt_succ s.toNat_lt
  | cons f frames ih =>
    have hbelow := h.1.below
    have hrest := ih h.2
    rw [totalSize]
    omega

/-- An instruction that stores nothing spares every frame. -/
theorem spares_of_execute (h : Board.execute board = .ok step after)
    (hstep : step.mnemonic.action.stores = false) : f.Spares board := by
  intro slot hslot hstore
  rw [hstore.stores h] at hstep
  cases hstep

theorem spares_of_entry (hbyte : board.bus[board.cpu.regs.pc] = e.opcode.byte)
    (h : Board.execute board = .ok step after) : f.Spares board := by
  refine spares_of_execute h ?_
  obtain ⟨op, resolved, extra, done, -, -, rfl, -⟩ :=
    (Board.execute_memory_eq_ok hbyte e.decode_opcode).mp h
  cases e <;> rfl

/-- **Nested calls keep their frames.** -/
theorem Nested.stacked (h : Nested frames board) :
    Stacked board.bus board.cpu.regs.s frames := by
  induction h with
  | outside board => trivial
  | enter _ hbyte hexecute ih =>
    exact ⟨.enter hbyte hexecute,
      ih.keeps (Nat.le_refl _) hexecute fun _ _ => spares_of_entry hbyte hexecute⟩
  | inside _ hwithin hspares ih =>
    obtain ⟨hholds, hstacked⟩ := ih
    have hbelow := hholds.below
    have hkept := hholds.within hwithin
    obtain ⟨⟨step, hexecute⟩, -, -⟩ := hwithin
    exact ⟨hkept, hstacked.keeps (by omega) hexecute hspares⟩
  | leave _ hexit hexecute ih =>
    obtain ⟨hholds, hstacked⟩ := ih
    obtain ⟨step', after', hexecute', hleft, hbus⟩ := hexit.execute hholds
    rw [hexecute] at hexecute'
    cases hexecute'
    rw [hbus, hleft.s]
    exact hstacked

/-- From within any routines, one more is entered exactly if there is room for its frame. -/
theorem Nested.enters_iff (h : Nested frames board)
    (hbyte : board.bus[board.cpu.regs.pc] = e.opcode.byte) :
    (∃ step after, Board.execute board = .ok step after ∧
        Nested (⟨e, board.cpu.regs⟩ :: frames) after) ↔
      e.size ≤ board.cpu.regs.s.toNat := by
  refine ⟨?_, ?_⟩
  · intro henters
    obtain ⟨step, after, hexecute, -⟩ := henters
    obtain ⟨hs, -, -⟩ := Entry.execute_entry hbyte hexecute
    omega
  · intro hroom
    obtain ⟨step, after, hexecute⟩ := Entry.exists_execute_entry hbyte hroom
    exact ⟨step, after, hexecute, h.enter hbyte hexecute⟩

/-- The innermost routine returns to the one around it. -/
theorem Nested.returns (h : Nested (f :: frames) board) (hexit : f.AtExit board) :
    ∃ step after, Board.execute board = .ok step after ∧ f.Left after.cpu.regs ∧
      Nested frames after := by
  obtain ⟨step, after, hexecute, hleft, -⟩ := hexit.execute h.stacked.1
  exact ⟨step, after, hexecute, hleft, h.leave hexit hexecute⟩

/-! ### The deepest nesting -/

/-- The next instruction enters a routine that begins with the same instruction. -/
structure Recurs (e : Entry) (board : Board Memory) : Prop where
  pc : board.cpu.regs.pc = 0x0200
  opcode : board.bus[(0x0200 : UInt16)] = e.opcode.byte
  target : e.target board = 0x0200

theorem Recurs.execute (h : Recurs e board) (hexecute : Board.execute board = .ok step after) :
    Recurs e after := by
  obtain ⟨-, hpc, hbus⟩ := Entry.execute_entry (by rw [h.pc, h.opcode]) hexecute
  rw [h.target] at hpc
  have hkept (a : UInt16) (ha : 0x0200 ≤ a.toNat) : after.bus[a] = board.bus[a] := by
    rw [hbus]
    exact getElem_setAll_of_page (.inr ha)
  refine ⟨hpc, (hkept _ (by decide)).trans h.opcode, Eq.trans ?_ h.target⟩
  cases e with
  | call =>
    simp only [Entry.target, hpc, h.pc]
    rw [hkept _ (by decide), hkept _ (by decide)]
  | interrupt =>
    simp only [Entry.target]
    rw [hkept _ (by decide), hkept _ (by decide)]

/-- Such a program, with the stack empty. -/
def recursion (e : Entry) : Board Memory :=
  let memory := match e with
    | .call => (Memory.zeros.set 0x0200 0x20).set 0x0202 0x02
    | .interrupt => Memory.zeros.set 0xFFFF 0x02
  ⟨⟨{ Registers.powerOn with pc := 0x0200, s := 0xFF }, 0⟩, memory⟩

theorem recurs_recursion (e : Entry) : Recurs e (recursion e) := by
  cases e with
  | call =>
    refine ⟨rfl, ?_, ?_⟩
    · simp [recursion, Cells.getElem_set, Entry.opcode]
    · simp [recursion, Entry.target, Cells.getElem_set, Memory.zeros, Cells.getElem_fill]
      decide
  | interrupt =>
    refine ⟨rfl, ?_, ?_⟩
    · simp [recursion, Cells.getElem_set, Entry.opcode, Memory.zeros, Cells.getElem_fill]
    · simp [recursion, Entry.target, Cells.getElem_set, Memory.zeros, Cells.getElem_fill]
      decide

/-- A routine that enters itself gets as deep as there is room. -/
theorem exists_nested {n : Nat} (hn : e.size * n ≤ 255) :
    ∃ frames board, Nested frames board ∧ frames.map Frame.entry = List.replicate n e ∧
      Recurs e board ∧ board.cpu.regs.s.toNat + e.size * n = 255 := by
  induction n with
  | zero => exact ⟨[], recursion e, .outside _, rfl, recurs_recursion e, rfl⟩
  | succ n ih =>
    rw [Nat.mul_succ] at hn ⊢
    obtain ⟨frames, board, hnested, hentries, hrecurs, hs⟩ := ih (by omega)
    have hbyte : board.bus[board.cpu.regs.pc] = e.opcode.byte := by rw [hrecurs.pc, hrecurs.opcode]
    obtain ⟨step, after, hexecute, hafter⟩ := (hnested.enters_iff hbyte).mpr (by omega)
    obtain ⟨hs', -, -⟩ := Entry.execute_entry hbyte hexecute
    refine ⟨_, after, hafter, ?_, hrecurs.execute hexecute, by omega⟩
    rw [List.map_cons, hentries, List.replicate_succ]

/-- Only the size of the stack bounds the depth. -/
theorem exists_nested_iff {n : Nat} :
    (∃ frames board, Nested frames board ∧ frames.map Frame.entry = List.replicate n e) ↔
      e.size * n ≤ 255 := by
  refine ⟨?_, ?_⟩
  · intro hexists
    obtain ⟨frames, board, hnested, hentries⟩ := hexists
    have htotal := hnested.stacked.total
    rw [totalSize_of_map hentries] at htotal
    omega
  · intro hn
    obtain ⟨frames, board, hnested, hentries, -⟩ := exists_nested hn
    exact ⟨frames, board, hnested, hentries⟩

/-- **Calls return**, whatever happens in between.

* An instruction that enters a routine succeeds if there is room for the frame.  After any run that
  keeps the stack pointer below the frame and stores nowhere in it, the exit goes on behind that
  instruction with the stack pointer, and after an interrupt the status, of before.
* In nested routines, the innermost one returns to the one around it, whose frame and those further
  out are still in place.
* From any nesting, one more routine is entered exactly if there is room for its frame, so that
  routines of one kind nest exactly as deep as their frames fit into 255 bytes. -/
theorem calls_return :
    (∀ (e : Entry) (site : Board Memory),
      site.bus[site.cpu.regs.pc] = e.opcode.byte → e.size ≤ site.cpu.regs.s.toNat →
      ∃ step entered, Board.execute site = .ok step entered ∧
        ∀ last, Relation.ReflTransGen (⟨e, site.cpu.regs⟩ : Frame).Within entered last →
          (⟨e, site.cpu.regs⟩ : Frame).AtExit last →
          ∃ step' after, Board.execute last = .ok step' after ∧
            (⟨e, site.cpu.regs⟩ : Frame).Left after.cpu.regs) ∧
    (∀ (f : Frame) (frames : List Frame) (board : Board Memory),
      Nested (f :: frames) board → f.AtExit board →
      ∃ step after, Board.execute board = .ok step after ∧ f.Left after.cpu.regs ∧
        Nested frames after) ∧
    (∀ (e : Entry) (frames : List Frame) (board : Board Memory),
      Nested frames board → board.bus[board.cpu.regs.pc] = e.opcode.byte →
      ((∃ step after, Board.execute board = .ok step after ∧
          Nested (⟨e, board.cpu.regs⟩ :: frames) after) ↔
        e.size ≤ board.cpu.regs.s.toNat)) ∧
    ∀ (e : Entry) (n : Nat),
      (∃ frames board, Nested frames board ∧ frames.map Frame.entry = List.replicate n e) ↔
        e.size * n ≤ 255 := by
  refine ⟨?_, fun f frames board h hexit => h.returns hexit,
    fun e frames board h hbyte => h.enters_iff hbyte, fun e n => exists_nested_iff⟩
  intro e site hbyte hroom
  obtain ⟨step, entered, hexecute⟩ := Entry.exists_execute_entry hbyte hroom
  refine ⟨step, entered, hexecute, fun last hrun hexit => ?_⟩
  obtain ⟨step', after, hleave, hleft, -⟩ := hexit.execute ((Holds.enter hbyte hexecute).run hrun)
  exact ⟨step', after, hleave, hleft⟩

/-- A push with room on the stack. -/
theorem exists_execute_push (hbyte : board.bus[board.cpu.regs.pc] = 0x48)
    (hs : board.cpu.regs.s ≠ 0) :
    ∃ step after, Board.execute board = .ok step after ∧ step.mnemonic = .pha ∧
      after.cpu.regs.s = board.cpu.regs.s - 1 ∧ after.cpu.regs.pc = board.cpu.regs.pc + 1 ∧
      after.bus = Cells.set board.bus (slotAddress board.cpu.regs.s) board.cpu.regs.a := by
  have hdecode : Opcode.decode 0x48 = some ⟨0x48, .pha, .implicit, 3⟩ := by
    rw [Opcode.decode_eq_find?]
    rfl
  have hpush : Board.push board.cpu.regs.a (board.opened board.bus) = .ok () _ :=
    Board.push_eq_ok.mpr ⟨hs, _, Memory.write_eq .., rfl⟩
  have hperform : Board.perform .pha (.bare .implicit 0) (board.opened board.bus) = .ok 0 _ :=
    Attempt.bind_eq_ok.mpr ⟨(), _, hpush, rfl⟩
  refine ⟨_, _, (Board.execute_memory_eq_ok (o := ⟨0x48, .pha, .implicit, 3⟩) hbyte hdecode).mpr
    ⟨_, _, 0, _, rfl, hperform, rfl, rfl⟩, rfl, rfl, rfl, rfl⟩

/-- A pull with a byte on the stack. -/
theorem exists_execute_pull (hbyte : board.bus[board.cpu.regs.pc] = 0x68)
    (hs : board.cpu.regs.s ≠ 0xFF) :
    ∃ step after, Board.execute board = .ok step after ∧ step.mnemonic = .pla ∧
      after.cpu.regs.s = board.cpu.regs.s + 1 ∧ after.cpu.regs.pc = board.cpu.regs.pc + 1 ∧
      after.bus = board.bus := by
  have hdecode : Opcode.decode 0x68 = some ⟨0x68, .pla, .implicit, 4⟩ := by
    rw [Opcode.decode_eq_find?]
    rfl
  have hpull : Board.pull (board.opened board.bus) = .ok _ _ :=
    Board.pull_eq_ok.mpr ⟨hs, _, Memory.read_eq .., rfl⟩
  have hperform : Board.perform .pla (.bare .implicit 0) (board.opened board.bus) = .ok 0 _ :=
    Attempt.bind_eq_ok.mpr ⟨(), _, Attempt.bind_eq_ok.mpr ⟨_, _, hpull, rfl⟩, rfl⟩
  refine ⟨_, _, (Board.execute_memory_eq_ok (o := ⟨0x68, .pla, .implicit, 4⟩) hbyte hdecode).mpr
    ⟨_, _, 0, _, rfl, hperform, rfl, rfl⟩, rfl, rfl, rfl, rfl⟩

/-- A call at the end of the address space, with its target in the last and the first cell of the
memory: behind a push and a pull, the routine returns to the address `$0001`. -/
theorem wrapped_call_returns :
    let memory := (((((Memory.zeros.set 0xFFFE 0x20).set 0xFFFF 0x00).set 0x0000 0x03).set
      0x0300 0x48).set 0x0301 0x68).set 0x0302 0x60
    let regs := { Registers.powerOn with pc := 0xFFFE, s := 0xFF }
    ∃ step entered last step' after,
      Board.execute (⟨⟨regs, 0⟩, memory⟩ : Board Memory) = .ok step entered ∧
      Relation.TransGen (⟨.call, regs⟩ : Frame).Within entered last ∧
      Board.execute last = .ok step' after ∧
      after.cpu.regs.pc = 0x0001 ∧ after.cpu.regs.s = 0xFF := by
  intro memory regs
  have hcall : memory[(0xFFFE : UInt16)] = 0x20 := by simp [memory, Cells.getElem_set]
  have hlow : memory[(0xFFFF : UInt16)] = 0x00 := by simp [memory, Cells.getElem_set]
  have hhigh : memory[(0x0000 : UInt16)] = 0x03 := by simp [memory, Cells.getElem_set]
  have hpush : memory[(0x0300 : UInt16)] = 0x48 := by simp [memory, Cells.getElem_set]
  have hpull : memory[(0x0301 : UInt16)] = 0x68 := by simp [memory, Cells.getElem_set]
  have hreturn : memory[(0x0302 : UInt16)] = 0x60 := by simp [memory, Cells.getElem_set]
  clear_value memory
  have hroom : Entry.call.size ≤ regs.s.toNat := (by decide : 2 ≤ (0xFF : UInt8).toNat)
  obtain ⟨step, entered, hexecute, hreturns⟩ :=
    calls_return.1 .call ⟨⟨regs, 0⟩, memory⟩ hcall hroom
  obtain ⟨hs, hpc, hbus⟩ := Entry.execute_entry (e := .call) hcall hexecute
  replace hs : entered.cpu.regs.s = 0xFD := UInt8.toNat_inj.mp (Nat.add_right_cancel hs)
  replace hpc : entered.cpu.regs.pc = 0x0300 := by
    have hone : regs.pc + 1 = 0xFFFF := by decide
    have htwo : regs.pc + 2 = 0x0000 := by decide
    rw [hpc]
    show wordOf memory[regs.pc + 1] memory[regs.pc + 2] = _
    rw [hone, htwo, hlow, hhigh]
    decide
  have hkept (a : UInt16) (ha : 0x0200 ≤ a.toNat) : entered.bus[a] = memory[a] := by
    rw [hbus]
    exact getElem_setAll_of_page (.inr ha)
  -- the push
  obtain ⟨step₁, pushed, hexecute₁, hstep₁, hs₁, hpc₁, hbus₁⟩ := exists_execute_push
    (by rw [hpc, hkept _ (by decide), hpush]) (by rw [hs]; decide)
  rw [hs] at hs₁ hbus₁
  rw [hpc] at hpc₁
  have hkept₁ (a : UInt16) (ha : 0x0200 ≤ a.toNat) : pushed.bus[a] = memory[a] := by
    rw [hbus₁, Cells.getElem_set_of_ne _ (fun heq => absurd ha (by rw [← heq]; decide)), hkept a ha]
  -- the pull
  obtain ⟨step₂, last, hexecute₂, hstep₂, hs₂, hpc₂, hbus₂⟩ := exists_execute_pull
    (by rw [hpc₁]; exact (hkept₁ 0x0301 (by decide)).trans hpull) (by rw [hs₁]; decide)
  rw [hs₁] at hs₂
  rw [hpc₁] at hpc₂
  have hwithin₁ : (⟨.call, regs⟩ : Frame).Within entered pushed :=
    ⟨⟨step₁, hexecute₁⟩, by rw [hs₁]; decide, spares_of_execute hexecute₁ (by rw [hstep₁]; rfl)⟩
  have hwithin₂ : (⟨.call, regs⟩ : Frame).Within pushed last :=
    ⟨⟨step₂, hexecute₂⟩, by rw [hs₂]; decide, spares_of_execute hexecute₂ (by rw [hstep₂]; rfl)⟩
  have hexit : (⟨.call, regs⟩ : Frame).AtExit last := by
    refine ⟨?_, by rw [hs₂]; decide⟩
    rw [hpc₂, hbus₂]
    exact (hkept₁ 0x0302 (by decide)).trans hreturn
  have hbody := Relation.TransGen.tail (.single hwithin₁) hwithin₂
  obtain ⟨step₃, after, hexecute₃, hleft⟩ := hreturns last hbody.to_reflTransGen hexit
  have hthree : regs.pc + 3 = 0x0001 := by decide
  exact ⟨step, entered, last, step₃, after, hexecute, hbody, hexecute₃, hleft.pc.trans hthree,
    hleft.s⟩

end Frame

end NesMachine
