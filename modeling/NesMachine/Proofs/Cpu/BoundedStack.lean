import NesMachine.Bus.Memory
import NesMachine.Proofs.Attempt
import NesMachine.Proofs.Cpu.Frames
import NesMachine.Proofs.Device.SystemBus

/-!
# The stack as a list

The stack pointer and page one together are a stack of at most 255 bytes.  The slots above the
pointer hold its bytes, the last one pushed first; the slot at `$0100` is never used.

* `StackCall.answers`: what a stack of at most 255 bytes answers to pushes and pulls;
* `PageOne`: a bus on which the slots of page one are plain storage cells, apart from each other;
  `Memory.pageOne` and `SystemBus.pageOne` are such;
* `PageOne.view`: the bytes on the stack;
* `PageOne.follows_push`, `PageOne.follows_pull`: one call;
* `PageOne.follows_one`, `PageOne.follows`: a call does on the list what it does on the board, and so
  do any number of calls, by induction on them;
* `AddressSpace.PlainPageOne`: the wirings of the system bus that leave page one plain;
* `bounded_stack`: page one is such a stack, on a flat memory and on the system bus.
-/

namespace NesMachine

/-! ### A stack of at most 255 bytes -/

/-- The calls of a stack. -/
inductive StackCall where
  | push (value : UInt8)
  | pull

/-- What a call answers: a pull delivers a byte, and both may fail. -/
abbrev StackAnswer := Except Fault (Option UInt8)

/-- The call has put a byte on the stack. -/
def StackAnswer.stored : StackAnswer → Bool
  | .ok none => true
  | _ => false

/-- The call has taken a byte from the stack. -/
def StackAnswer.delivered : StackAnswer → Bool
  | .ok (some _) => true
  | _ => false

namespace StackCall

/-- The answer to a call, and the bytes after it, the last one pushed first. -/
def answer : StackCall → List UInt8 → StackAnswer × List UInt8
  | push value, bytes =>
    if bytes.length = 255 then (.error (.stackOverflow 0), bytes) else (.ok none, value :: bytes)
  | pull, [] => (.error (.stackUnderflow 0xFF), [])
  | pull, top :: bytes => (.ok (some top), bytes)

/-- The answers to calls one after the other, and the bytes after them. -/
def answers : List StackCall → List UInt8 → List StackAnswer × List UInt8
  | [], bytes => ([], bytes)
  | call :: calls, bytes =>
    let first := call.answer bytes
    let rest := answers calls first.2
    (first.1 :: rest.1, rest.2)

/-- Every push is followed by the pull of its byte, and at most `depth` bytes lie on the stack at a
time. -/
inductive Nested : Nat → List StackCall → Prop
  | nil {depth : Nat} : Nested depth []
  | wrap {depth : Nat} (value : UInt8) {inner rest : List StackCall} :
      Nested depth inner → Nested (depth + 1) rest →
        Nested (depth + 1) (push value :: inner ++ pull :: rest)

theorem answers_append (calls calls' : List StackCall) (bytes : List UInt8) :
    answers (calls ++ calls') bytes =
      ((answers calls bytes).1 ++ (answers calls' (answers calls bytes).2).1,
        (answers calls' (answers calls bytes).2).2) := by
  induction calls generalizing bytes with
  | nil => rfl
  | cons call calls ih => simp only [List.cons_append, answers, ih]

/-- With room for its depth, a nested sequence succeeds and leaves the stack as it was. -/
theorem Nested.answers_eq {depth : Nat} {calls : List StackCall} (h : Nested depth calls)
    {bytes : List UInt8} (hroom : bytes.length + depth ≤ 255) :
    (∀ answer ∈ (answers calls bytes).1, ∃ value, answer = .ok value) ∧
      (answers calls bytes).2 = bytes := by
  -- what is nested inside lies on top of the pushed byte, and leaves it for the pull
  induction h generalizing bytes with
  | nil => exact ⟨fun _ hanswer => absurd hanswer List.not_mem_nil, rfl⟩
  | @wrap depth value inner rest hinner hrest ihinner ihrest =>
    have hpush : (push value).answer bytes = (.ok none, value :: bytes) := by
      rw [answer, if_neg (by omega)]
    have hinnerRoom : (value :: bytes).length + depth ≤ 255 := by
      rw [List.length_cons]
      omega
    obtain ⟨hinnerOk, hinnerBytes⟩ := ihinner hinnerRoom
    obtain ⟨hrestOk, hrestBytes⟩ := ihrest hroom
    rw [List.cons_append, answers, hpush]
    simp only [answers_append, hinnerBytes, answers, answer]
    refine ⟨?_, hrestBytes⟩
    intro result hresult
    simp only [List.mem_cons, List.mem_append] at hresult
    rcases hresult with rfl | hresult | rfl | hresult
    · exact ⟨_, rfl⟩
    · exact hinnerOk result hresult
    · exact ⟨_, rfl⟩
    · exact hrestOk result hresult

end StackCall

namespace Board

variable {β : Type} [Bus β]

/-- Makes a call to the stack of a board. -/
def carryOut : StackCall → Run β (Option UInt8)
  | .push value => do
    push value
    return none
  | .pull => do
    let value ← pull
    return some value

/-- Makes calls one after the other, whether they fail or not. -/
def carryOutAll : List StackCall → Board β → List StackAnswer × Board β
  | [], board => ([], board)
  | call :: calls, board =>
    let rest := carryOutAll calls ((carryOut call).after board)
    ((carryOut call).outcome board :: rest.1, rest.2)

end Board

/-! ### Page one -/

/-- A kind of bus on which the slots of page one are plain storage cells, apart from each other. -/
structure PageOne (β : Type) [Bus β] where
  /-- The states in which they are. -/
  Sound : β → Prop
  /-- The storage cells of the bus, those of page one and all others. -/
  Cell : Type
  stored : β → Cell → UInt8
  /-- The cell that a stack pointer names. -/
  slot : UInt8 → Cell
  slot_inj : ∀ {s t : UInt8}, slot s = slot t → s = t
  read_slot : ∀ {bus : β}, Sound bus → ∀ s : UInt8,
    Bus.read (slotAddress s) bus = .ok (stored bus (slot s)) bus
  write_slot : ∀ {bus : β}, Sound bus → ∀ s value : UInt8,
    ∃ bus', Bus.write (slotAddress s) value bus = .ok () bus' ∧ Sound bus' ∧
      stored bus' (slot s) = value ∧ ∀ cell, cell ≠ slot s → stored bus' cell = stored bus cell

/-- The slots but the lowest one. -/
def AboveBottom (a : UInt16) : Prop := ∃ s : UInt8, s ≠ 0 ∧ a = slotAddress s

namespace PageOne

open Board

variable {β : Type} [Bus β] (page : PageOne β) {board after : Board β}

/-- The bytes on the stack: those above the stack pointer, the lowest one first. -/
def view (board : Board β) : List UInt8 :=
  (List.range' (board.cpu.regs.s.toNat + 1) (255 - board.cpu.regs.s.toNat)).map fun n =>
    page.stored board.bus (page.slot (UInt8.ofNat n))

theorem length_view (board : Board β) :
    (page.view board).length = 255 - board.cpu.regs.s.toNat := by
  rw [view, List.length_map, List.length_range']

theorem view_full_iff : (page.view board).length = 255 ↔ board.cpu.regs.s = 0 := by
  have hlt := board.cpu.regs.s.toNat_lt
  rw [length_view, ← UInt8.toNat_inj, show (0 : UInt8).toNat = 0 from rfl]
  omega

theorem view_empty_iff : page.view board = [] ↔ board.cpu.regs.s = 0xFF := by
  have hlt := board.cpu.regs.s.toNat_lt
  rw [← List.length_eq_zero_iff, length_view, ← UInt8.toNat_inj,
    show (0xFF : UInt8).toNat = 255 from rfl]
  omega

/-- The stack of a pointer that can go up: the byte at the next slot, and the stack of that. -/
theorem view_of_ne_top (hs : board.cpu.regs.s ≠ 0xFF) :
    page.view board = page.stored board.bus (page.slot (board.cpu.regs.s + 1)) ::
      page.view ⟨⟨{ board.cpu.regs with s := board.cpu.regs.s + 1 }, board.cpu.cycles⟩,
        board.bus⟩ := by
  have hroom := ne_top_iff.mp hs
  have hsucc := toNat_succ hs
  have hlength : 255 - board.cpu.regs.s.toNat = 255 - (board.cpu.regs.s + 1).toNat + 1 := by omega
  rw [view, hlength, List.range'_succ, List.map_cons, ← hsucc, UInt8.ofNat_toNat]
  rfl

/-- The stack does not depend on the cells below it. -/
theorem view_congr {bus : β} {cpu : Cpu}
    (h : ∀ s : UInt8, cpu.regs.s.toNat < s.toNat →
      page.stored bus (page.slot s) = page.stored board.bus (page.slot s))
    (hs : cpu.regs.s = board.cpu.regs.s) : page.view ⟨cpu, bus⟩ = page.view board := by
  rw [view, view, ← hs]
  refine List.map_congr_left fun n hn => h (UInt8.ofNat n) ?_
  have hrange : cpu.regs.s.toNat + 1 ≤ n ∧
      n < cpu.regs.s.toNat + 1 + (255 - cpu.regs.s.toNat) := List.mem_range'_1.mp hn
  have hlt := cpu.regs.s.toNat_lt
  have hofNat : (UInt8.ofNat n).toNat = n := UInt8.toNat_ofNat_of_lt' (by
    rw [show UInt8.size = 256 from rfl]
    omega)
  rw [hofNat]
  omega

/-! ### One call -/

/-- A push with room writes one cell. -/
theorem push_room (h : page.Sound board.bus) (hs : board.cpu.regs.s ≠ 0) (value : UInt8) :
    ∃ bus, push value board =
        .ok () ⟨⟨{ board.cpu.regs with s := board.cpu.regs.s - 1 }, board.cpu.cycles⟩, bus⟩ ∧
      Bus.write (slotAddress board.cpu.regs.s) value board.bus = .ok () bus ∧
      page.Sound bus ∧ page.stored bus (page.slot board.cpu.regs.s) = value ∧
      ∀ cell, cell ≠ page.slot board.cpu.regs.s →
        page.stored bus cell = page.stored board.bus cell := by
  obtain ⟨bus, hwrite, hsound, hvalue, hothers⟩ := page.write_slot h board.cpu.regs.s value
  exact ⟨bus, push_eq_ok.mpr ⟨hs, bus, hwrite, rfl⟩, hwrite, hsound, hvalue, hothers⟩

/-- It puts its byte on the stack. -/
theorem view_push {bus : β} {value : UInt8} (hs : board.cpu.regs.s ≠ 0)
    (hvalue : page.stored bus (page.slot board.cpu.regs.s) = value)
    (hothers : ∀ cell, cell ≠ page.slot board.cpu.regs.s →
      page.stored bus cell = page.stored board.bus cell) :
    page.view ⟨⟨{ board.cpu.regs with s := board.cpu.regs.s - 1 }, board.cpu.cycles⟩, bus⟩ =
      value :: page.view board := by
  have hpred := toNat_pred hs
  have hlt := board.cpu.regs.s.toNat_lt
  have hback : board.cpu.regs.s - 1 + 1 = board.cpu.regs.s := by grind
  rw [view_of_ne_top page (ne_top_iff.mpr (by show (board.cpu.regs.s - 1).toNat + 1 ≤ 255; omega))]
  simp only [hback, hvalue]
  refine congrArg (value :: ·) (page.view_congr ?_ rfl)
  intro s habove
  refine hothers _ fun heq => ?_
  rw [page.slot_inj heq] at habove
  exact absurd habove (Nat.lt_irrefl _)

/-- A pull with a byte on the stack takes it and changes nothing but the stack pointer. -/
theorem pull_top (h : page.Sound board.bus) (hs : board.cpu.regs.s ≠ 0xFF) :
    pull board = .ok (page.stored board.bus (page.slot (board.cpu.regs.s + 1)))
      ⟨⟨{ board.cpu.regs with s := board.cpu.regs.s + 1 }, board.cpu.cycles⟩, board.bus⟩ :=
  pull_eq_ok.mpr ⟨hs, board.bus, page.read_slot h _, rfl⟩

/-! ### Any number of calls -/

/-- Calls have led from one board to another: only slots above the bottom are written, only the
stack pointer and the slots are changed, and the pointer has counted the bytes. -/
structure Follows (answers : List StackAnswer) (board after : Board β) : Prop where
  sound : page.Sound after.bus
  regs : after.cpu = ⟨{ board.cpu.regs with s := after.cpu.regs.s }, board.cpu.cycles⟩
  reaches : Reaches AboveBottom board.bus after.bus
  others : ∀ cell, (∀ s : UInt8, s ≠ 0 → cell ≠ page.slot s) →
    page.stored after.bus cell = page.stored board.bus cell
  counts : after.cpu.regs.s.toNat + answers.countP StackAnswer.stored =
    board.cpu.regs.s.toNat + answers.countP StackAnswer.delivered

variable {page} {answers answers' : List StackAnswer}

/-- A call that fails changes nothing. -/
theorem Follows.of_error (h : page.Sound board.bus) (fault : Fault) :
    page.Follows [.error fault] board board :=
  ⟨h, rfl, .refl, fun _ _ => rfl, rfl⟩

theorem Follows.trans {mid : Board β} (h : page.Follows answers board mid)
    (h' : page.Follows answers' mid after) : page.Follows (answers ++ answers') board after := by
  have hcounts := h.counts
  have hcounts' := h'.counts
  refine ⟨h'.sound, ?_, h.reaches.trans h'.reaches, ?_, ?_⟩
  · rw [h'.regs, h.regs]
  · intro cell hcell
    rw [h'.others cell hcell, h.others cell hcell]
  · rw [List.countP_append, List.countP_append]
    omega

theorem follows_push (h : page.Sound board.bus) (hs : board.cpu.regs.s ≠ 0) (value : UInt8) :
    ∃ after, push value board = .ok () after ∧ page.view after = value :: page.view board ∧
      page.Follows [.ok none] board after ∧
      ∀ cell, cell ≠ page.slot board.cpu.regs.s →
        page.stored after.bus cell = page.stored board.bus cell := by
  obtain ⟨bus, hpush, hwrite, hsound, hvalue, hothers⟩ := page.push_room h hs value
  refine ⟨_, hpush, page.view_push hs hvalue hothers, ⟨hsound, rfl, ?_, ?_, ?_⟩, hothers⟩
  · exact .single (.write ⟨_, hs, rfl⟩ hwrite)
  · exact fun cell hcell => hothers cell (hcell _ hs)
  · exact toNat_pred hs

theorem follows_pull (h : page.Sound board.bus) {top : UInt8} {rest : List UInt8}
    (hview : page.view board = top :: rest) :
    ∃ after, pull board = .ok top after ∧ page.view after = rest ∧
      page.Follows [.ok (some top)] board after ∧ after.bus = board.bus := by
  have hs : board.cpu.regs.s ≠ 0xFF := fun htop => by
    rw [page.view_empty_iff.mpr htop] at hview
    cases hview
  have hread : Bus.read (slotAddress (board.cpu.regs.s + 1)) board.bus = _ := page.read_slot h _
  rw [page.view_of_ne_top hs] at hview
  obtain ⟨rfl, hrest⟩ := List.cons.inj hview
  exact ⟨_, page.pull_top h hs, hrest, ⟨h, rfl, .single (.read hread), fun _ _ => rfl,
    toNat_succ hs⟩, rfl⟩

/-- **One call** answers as the list does, and leaves its bytes. -/
theorem follows_one (h : page.Sound board.bus) (call : StackCall) :
    ∃ after, carryOut call board = Attempt.ended (call.answer (page.view board)).1 after ∧
      page.view after = (call.answer (page.view board)).2 ∧
      page.Follows [(call.answer (page.view board)).1] board after := by
  cases call with
  | push value =>
    by_cases hs : board.cpu.regs.s = 0
    · rw [StackCall.answer, if_pos (page.view_full_iff.mpr hs), carryOut, Attempt.bind_apply,
        push_full hs]
      exact ⟨board, rfl, rfl, .of_error h _⟩
    · obtain ⟨after, hpush, hview, hfollows, -⟩ := follows_push h hs value
      rw [StackCall.answer, if_neg (fun hfull => hs (page.view_full_iff.mp hfull)), carryOut,
        Attempt.bind_apply, hpush]
      exact ⟨after, rfl, hview, hfollows⟩
  | pull =>
    rw [carryOut, Attempt.bind_apply]
    cases hview : page.view board with
    | nil =>
      rw [pull_empty (page.view_empty_iff.mp hview)]
      exact ⟨board, rfl, hview, .of_error h _⟩
    | cons top rest =>
      obtain ⟨after, hpull, hrest, hfollows, -⟩ := follows_pull h hview
      rw [hpull]
      exact ⟨after, rfl, hrest, hfollows⟩

/-- **Any number of calls**, failing or not, answer as the list does, and leave its bytes. -/
theorem follows (h : page.Sound board.bus) (calls : List StackCall) :
    (carryOutAll calls board).1 = (StackCall.answers calls (page.view board)).1 ∧
      page.view (carryOutAll calls board).2 = (StackCall.answers calls (page.view board)).2 ∧
      page.Follows (carryOutAll calls board).1 board (carryOutAll calls board).2 := by
  -- `Follows` carries `Sound` from one call to the next
  induction calls generalizing board with
  | nil => exact ⟨rfl, rfl, h, rfl, .refl, fun _ _ => rfl, rfl⟩
  | cons call calls ih =>
    obtain ⟨mid, hcall, hview, hfollows⟩ := follows_one h call
    obtain ⟨houtcome, hafter⟩ := Attempt.of_eq_ended hcall
    obtain ⟨hanswers, hlast, hrest⟩ := ih hfollows.sound
    rw [carryOutAll, hafter, houtcome, StackCall.answers, ← hview]
    refine ⟨congrArg _ hanswers, hlast, ?_⟩
    exact hfollows.trans hrest

variable (page)

/-- The stack pointer and page one are a stack of at most 255 bytes. -/
structure Lifo (board : Board β) : Prop where
  length : (page.view board).length + board.cpu.regs.s.toNat = 255
  push_full : (page.view board).length = 255 →
    ∀ value, push value board = .error (.stackOverflow 0) board
  push_room : (page.view board).length ≠ 255 →
    ∀ value, ∃ after, push value board = .ok () after ∧
      page.view after = value :: page.view board ∧
      after.cpu = ⟨{ board.cpu.regs with s := after.cpu.regs.s }, board.cpu.cycles⟩ ∧
      ∀ cell, cell ≠ page.slot board.cpu.regs.s →
        page.stored after.bus cell = page.stored board.bus cell
  pull_empty : page.view board = [] → pull board = .error (.stackUnderflow 0xFF) board
  pull_top (top : UInt8) (rest : List UInt8) : page.view board = top :: rest →
    ∃ after, pull board = .ok top after ∧ page.view after = rest ∧
      after.cpu = ⟨{ board.cpu.regs with s := after.cpu.regs.s }, board.cpu.cycles⟩ ∧
      after.bus = board.bus
  run (calls : List StackCall) :
    (carryOutAll calls board).1 = (StackCall.answers calls (page.view board)).1 ∧
      page.view (carryOutAll calls board).2 = (StackCall.answers calls (page.view board)).2 ∧
      page.Follows (carryOutAll calls board).1 board (carryOutAll calls board).2
  bottom (calls : List StackCall) :
    page.stored (carryOutAll calls board).2.bus (page.slot 0) =
      page.stored board.bus (page.slot 0)
  balanced (calls : List StackCall) :
    (carryOutAll calls board).1.countP StackAnswer.stored =
        (carryOutAll calls board).1.countP StackAnswer.delivered →
      (carryOutAll calls board).2.cpu.regs.s = board.cpu.regs.s
  nested (depth : Nat) (calls : List StackCall) : StackCall.Nested depth calls →
    (page.view board).length + depth ≤ 255 →
      (∀ answer ∈ (carryOutAll calls board).1, ∃ value, answer = .ok value) ∧
        page.view (carryOutAll calls board).2 = page.view board ∧
        (carryOutAll calls board).2.cpu.regs.s = board.cpu.regs.s

variable {page}

/-- Boards with as many bytes on the stack have the same stack pointer. -/
theorem s_eq_of_view (h : page.view after = page.view board) :
    after.cpu.regs.s = board.cpu.regs.s := by
  have hlength := congrArg List.length h
  have hlt := after.cpu.regs.s.toNat_lt
  have hlt' := board.cpu.regs.s.toNat_lt
  rw [length_view, length_view] at hlength
  apply UInt8.toNat_inj.mp
  omega

theorem lifo (h : page.Sound board.bus) : page.Lifo board := by
  constructor
  case length =>
    have hlt := board.cpu.regs.s.toNat_lt
    rw [length_view]
    omega
  case push_full => exact fun hfull => Board.push_full (page.view_full_iff.mp hfull)
  case push_room =>
    intro hroom value
    obtain ⟨after, hpush, hview, hfollows, hothers⟩ :=
      follows_push h (fun hs => hroom (page.view_full_iff.mpr hs)) value
    exact ⟨after, hpush, hview, hfollows.regs, hothers⟩
  case pull_empty => exact fun hempty => Board.pull_empty (page.view_empty_iff.mp hempty)
  case pull_top =>
    intro top rest hview
    obtain ⟨after, hpull, hrest, hfollows, hbus⟩ := follows_pull h hview
    exact ⟨after, hpull, hrest, hfollows.regs, hbus⟩
  case run => exact follows h
  case bottom =>
    intro calls
    obtain ⟨-, -, hfollows⟩ := follows h calls
    exact hfollows.others _ fun s hs heq => hs (page.slot_inj heq).symm
  case balanced =>
    intro calls hcounts
    obtain ⟨-, -, hfollows⟩ := follows h calls
    have hs := hfollows.counts
    apply UInt8.toNat_inj.mp
    omega
  case nested =>
    intro depth calls hnested hroom
    obtain ⟨hanswers, hview, -⟩ := follows h calls
    obtain ⟨hok, hbytes⟩ := hnested.answers_eq hroom
    rw [← hanswers] at hok
    rw [hbytes] at hview
    exact ⟨hok, hview, s_eq_of_view hview⟩

end PageOne

/-! ### Flat memory and the system bus -/

/-- In a flat memory, every address is a cell. -/
def Memory.pageOne : PageOne Memory where
  Sound _ := True
  Cell := UInt16
  stored memory a := memory[a]
  slot := slotAddress
  slot_inj := slotAddress_inj
  read_slot _ _ := rfl
  write_slot _ s value := ⟨_, rfl, trivial, Cells.getElem_set_self _ _ _,
    fun _ hcell => Cells.getElem_set_of_ne _ (Ne.symm hcell) value⟩

namespace AddressSpace

variable {δ : Type} {space space' : AddressSpace δ}

/-- The slots of page one lead to plain storage, and no two of them to the same byte. -/
structure PlainPageOne (space : AddressSpace δ) : Prop where
  plain : ∀ s : UInt8, space.routes[space.owner (slotAddress s)] = .plain
  apart : ∀ {s t : UInt8}, space.owner (slotAddress s) = space.owner (slotAddress t) → s = t

theorem owner_congr (h : space.routes = space'.routes) {a : UInt16} :
    space.owner a = space'.owner a := by
  rw [owner, owner, h]

/-- They do so whatever is stored there. -/
theorem PlainPageOne.of_routes (h : space'.PlainPageOne) (hroutes : space.routes = space'.routes) :
    space.PlainPageOne where
  plain s := by
    rw [owner_congr hroutes, hroutes]
    exact h.plain s
  apart heq := h.apart (by rw [← owner_congr hroutes, ← owner_congr hroutes, heq])

theorem PlainPageOne.resolve_eq (h : space.PlainPageOne) (s : UInt8) :
    space.resolve (slotAddress s) = .plain (space.owner (slotAddress s)) := by
  rw [resolve, h.plain s]

theorem PlainPageOne.owner_owner (h : space.PlainPageOne) (s : UInt8) :
    space.owner (space.owner (slotAddress s)) = space.owner (slotAddress s) :=
  owner_of_not_isLink (by rw [h.plain s]; rfl)

end AddressSpace

namespace SystemBus

open AddressSpace

/-- The storage cells of the system bus. -/
inductive StorageCell where
  | processor (a : UInt16)
  | video (a : UInt16)
  | sprite (index : UInt8)

/-- The byte in a cell. -/
def storedAt (bus : SystemBus) : StorageCell → UInt8
  | .processor a => bus.space.bytes[a]
  | .video a => bus.video.bytes[a]
  | .sprite index => bus.oam.get ⟨index.toNat, index.toNat_lt⟩

variable {bus : SystemBus}

theorem peek_eq_storedAt (bus : SystemBus) (a : UInt16) :
    bus.peek a = bus.storedAt (.processor (bus.space.owner a)) := rfl

/-- A byte that is stored behind an address gets into the cell of its owner, and into no other. -/
theorem storedAt_poke (bus : SystemBus) (a : UInt16) (value : UInt8) :
    (bus.poke a value).storedAt (.processor (bus.space.owner a)) = value :=
  Cells.getElem_set_self bus.space.bytes _ value

theorem storedAt_poke_of_ne (a : UInt16) (value : UInt8) {cell : StorageCell}
    (hcell : cell ≠ .processor (bus.space.owner a)) :
    (bus.poke a value).storedAt cell = bus.storedAt cell := by
  cases cell with
  | video | sprite => rfl
  | processor b =>
    refine Cells.getElem_set_of_ne bus.space.bytes (fun heq => hcell ?_) value
    rw [← heq]
    rfl

/-- A read of a slot tells its byte and changes nothing. -/
theorem read_slot (h : bus.space.PlainPageOne) (s : UInt8) :
    bus.read (slotAddress s) =
      (bus.storedAt (.processor (bus.space.owner (slotAddress s))), bus) := by
  rw [read, h.resolve_eq]
  show (bus.peek (bus.space.owner (slotAddress s)), bus) = _
  rw [peek_eq_storedAt, h.owner_owner]

/-- A write to a slot stores the byte and drives no device. -/
theorem write_slot (h : bus.space.PlainPageOne) (s value : UInt8) :
    bus.write (slotAddress s) value = bus.poke (bus.space.owner (slotAddress s)) value := by
  rw [write, h.resolve_eq]

/-- On the system bus, page one is storage of the processor's address space, whatever the devices
are doing and however the space is wired, as long as the slots are plain and apart. -/
def pageOne (space : AddressSpace Device) (h : space.PlainPageOne) : PageOne SystemBus where
  Sound bus := bus.space.routes = space.routes
  Cell := StorageCell
  stored := storedAt
  slot s := .processor (space.owner (slotAddress s))
  slot_inj hcell := h.apart (StorageCell.processor.inj hcell)
  read_slot := by
    intro bus hroutes s
    rw [← owner_congr hroutes]
    show EStateM.Result.ok (bus.read _).1 (bus.read _).2 = _
    rw [read_slot (h.of_routes hroutes)]
  write_slot := by
    intro bus hroutes s value
    rw [← owner_congr hroutes]
    have hbus : bus.space.PlainPageOne := h.of_routes hroutes
    refine ⟨bus.poke (bus.space.owner (slotAddress s)) value, ?_, hroutes, ?_, fun cell hcell => ?_⟩
    · exact congrArg (EStateM.Result.ok ()) (write_slot hbus s value)
    · have hstored := storedAt_poke bus (bus.space.owner (slotAddress s)) value
      rwa [hbus.owner_owner] at hstored
    · exact storedAt_poke_of_ne _ value (by rwa [hbus.owner_owner])

/-- In the wiring of the console, the slots are their own owners. -/
theorem Wired.owner_slot (h : bus.Wired) (s : UInt8) :
    bus.space.owner (slotAddress s) = slotAddress s := by
  rw [← wordOf_one]
  exact h.owner_of_storage (isStorage_slot s)

/-- It leaves page one plain. -/
theorem Wired.plainPageOne (h : bus.Wired) : bus.space.PlainPageOne where
  plain s := by
    have hstorage : IsStorage (slotAddress s) := wordOf_one s ▸ isStorage_slot s
    rw [h.owner_slot, show bus.space.routes = processorSpace.routes from h,
      routes_processorSpace hstorage.fold_eq, hstorage.deviceAt_eq]
    rfl
  apart heq := slotAddress_inj (by rwa [h.owner_slot, h.owner_slot] at heq)

/-- All copies of an address show one cell. -/
theorem Wired.peek_eq_storedAt (h : bus.Wired) (a : UInt16) :
    bus.peek a = bus.storedAt (.processor (fold a)) := by
  rw [SystemBus.peek_eq_storedAt, h.owner_eq_fold]

end SystemBus

/-- **The hardware stack** is a stack of at most 255 bytes on every bus on which the slots of page
one are plain cells, apart from each other: on a flat memory, and on a system bus whose wiring leaves
page one so. The wiring of the console does, and all copies of an address show one cell. -/
theorem bounded_stack :
    (∀ (β : Type) [Bus β] (page : PageOne β) (board : Board β),
      page.Sound board.bus → page.Lifo board) ∧
    (∀ board : Board Memory, Memory.pageOne.Lifo board) ∧
    (∀ (board : Board SystemBus) (h : board.bus.space.PlainPageOne),
      (SystemBus.pageOne board.bus.space h).Lifo board) ∧
    ∀ bus : SystemBus, bus.Wired → bus.space.PlainPageOne ∧
      (∀ s, bus.space.owner (slotAddress s) = slotAddress s) ∧
      ∀ a, bus.peek a = bus.storedAt (.processor (SystemBus.fold a)) :=
  ⟨fun _ _ _ _ h => PageOne.lifo h, fun _ => PageOne.lifo trivial, fun _ _ => PageOne.lifo rfl,
    fun _ h => ⟨h.plainPageOne, fun _ => h.owner_slot _, h.peek_eq_storedAt⟩⟩

/-- After power-on, two bytes come back in reverse, and a third pull fails. -/
theorem stack_of_system_bus :
    let board : Board SystemBus :=
      ⟨Cpu.powerOn, SystemBus.powerOn (VideoSpace.wired .horizontal)⟩
    (Board.carryOutAll [.push 0x12, .push 0x34, .pull, .pull, .pull] board).1 =
      [.ok none, .ok none, .ok (some 0x34), .ok (some 0x12), .error (.stackUnderflow 0xFF)] := by
  intro board
  have hwired : board.bus.Wired := SystemBus.wired_powerOn _
  obtain ⟨-, -, hlifo, hwiring⟩ := bounded_stack
  have hpage : board.bus.space.PlainPageOne := (hwiring board.bus hwired).1
  have hempty : (SystemBus.pageOne board.bus.space hpage).view board = [] :=
    (SystemBus.pageOne board.bus.space hpage).view_empty_iff.mpr rfl
  rw [((hlifo board hpage).run _).1, hempty]
  rfl

end NesMachine
