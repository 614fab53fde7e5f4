import NesMachine.Bus.Memory
import NesMachine.Proofs.Cpu.Faults
import NesMachine.Proofs.Cpu.StatusByte

/-!
# Two flags without effect

The processor has no decimal arithmetic and takes no maskable interrupt, so that nothing depends on
the decimal and the interrupt disable flag but the bytes that PHP, BRK and an interrupt push.  To say
so, this file runs the processor on two boards at once.

* `Cpu.Alike`, `Board.Alike`: two processors, two boards that differ at most in these flags;
* `Board.Coupled Q x y`: on alike boards, `x` and `y` end alike and deliver values related by `Q`, or
  fail with the same fault; closed under sequencing, with one lemma for each action of the processor;
* `Board.execute_alike`: an instruction that does not push the status;
* `flags_inert`: runs of any length, by induction on the calls.
-/

namespace NesMachine

/-- The flags that nothing asks for. -/
def Flag.inert : UInt8 := Flag.decimal ||| Flag.interruptDisable

/-! ### Statuses -/

namespace Status

/-- The statuses agree in all other bits. -/
def Alike (p p' : Status) : Prop := p.byte &&& ~~~Flag.inert = p'.byte &&& ~~~Flag.inert

variable {p p' : Status}

theorem Alike.has (h : p.Alike p') {mask : UInt8} (hmask : mask &&& ~~~Flag.inert = mask) :
    p.has mask = p'.has mask := by
  have hbits : p.byte &&& mask = p'.byte &&& mask := by
    rw [← hmask, UInt8.and_comm mask, ← UInt8.and_assoc, ← UInt8.and_assoc, h]
  exact congrArg (· != 0) hbits

theorem Alike.put (h : p.Alike p') (mask : UInt8) (on : Bool) :
    (p.put mask on).Alike (p'.put mask on) := by
  have hbits := congrArg UInt8.toBitVec h
  apply UInt8.toBitVec_inj.mp
  ext i hi
  have hbit := congrArg (·[i]) hbits
  cases on <;> simp [Status.put, set, clear] at hbit ⊢ <;> grind

theorem Alike.delivered (h : p.Alike p') (value : UInt8) :
    (p.delivered value).Alike (p'.delivered value) :=
  (h.put _ _).put _ _

/-- A reset sets interrupt disable and forgets nothing else. -/
theorem Alike.reset (h : p.Alike p') :
    (ofByte (p.byte ||| Flag.interruptDisable)).Alike
      (ofByte (p'.byte ||| Flag.interruptDisable)) :=
  (h.put Flag.interruptDisable true).put Flag.unused true

end Status

/-! ### Registers -/

namespace Registers

/-- The registers agree in all but the two flags. -/
structure Alike (regs regs' : Registers) : Prop where
  a : regs.a = regs'.a
  x : regs.x = regs'.x
  y : regs.y = regs'.y
  s : regs.s = regs'.s
  pc : regs.pc = regs'.pc
  p : regs.p.Alike regs'.p

variable {regs regs' : Registers}

/-- Registers that are alike differ in the status alone. -/
theorem Alike.eq_setStatus (h : regs.Alike regs') : regs' = regs.setStatus regs'.p := by
  obtain ⟨a, x, y, s, pc, p⟩ := regs
  obtain ⟨a', x', y', s', pc', p'⟩ := regs'
  obtain ⟨rfl, rfl, rfl, rfl, rfl, -⟩ := h
  rfl

theorem Alike.get (h : regs.Alike regs') (reg : Reg) : regs.get reg = regs'.get reg := by
  rw [h.eq_setStatus]
  cases reg <;> rfl

theorem Alike.setStatus {p p' : Status} (h : regs.Alike regs') (hp : p.Alike p') :
    (regs.setStatus p).Alike (regs'.setStatus p') :=
  ⟨h.a, h.x, h.y, h.s, h.pc, hp⟩

theorem Alike.putFlag (h : regs.Alike regs') (mask : UInt8) (on : Bool) :
    (regs.putFlag mask on).Alike (regs'.putFlag mask on) :=
  h.setStatus (h.p.put mask on)

theorem Alike.set (h : regs.Alike regs') (reg : Reg) (value : UInt8) :
    (regs.set reg value).Alike (regs'.set reg value) := by
  cases reg with
  | a => exact ⟨rfl, h.x, h.y, h.s, h.pc, h.p⟩
  | x => exact ⟨h.a, rfl, h.y, h.s, h.pc, h.p⟩
  | y => exact ⟨h.a, h.x, rfl, h.s, h.pc, h.p⟩

theorem Alike.load (h : regs.Alike regs') (reg : Reg) (value : UInt8) :
    (regs.load reg value).Alike (regs'.load reg value) :=
  (h.set reg value).setStatus (h.p.delivered value)

/-- The carry is not one of the two flags. -/
theorem Alike.carryIn (h : regs.Alike regs') : regs.carryIn = regs'.carryIn := by
  rw [Registers.carryIn, Registers.carryIn, h.p.has (by decide)]

theorem Alike.add (h : regs.Alike regs') (value : UInt8) :
    (regs.add value).Alike (regs'.add value) := by
  unfold Registers.add
  rw [← h.a, ← h.carryIn]
  exact ((h.putFlag _ _).putFlag _ _).load _ _

theorem Alike.compare (h : regs.Alike regs') (left right : UInt8) :
    (regs.compare left right).Alike (regs'.compare left right) :=
  ((h.putFlag _ _).putFlag _ _).putFlag _ _

theorem Alike.bitTest (h : regs.Alike regs') (value : UInt8) :
    (regs.bitTest value).Alike (regs'.bitTest value) := by
  unfold Registers.bitTest
  rw [← h.a]
  exact ((h.putFlag _ _).putFlag _ _).putFlag _ _

theorem Alike.stackAddress (h : regs.Alike regs') : regs.stackAddress = regs'.stackAddress := by
  rw [Registers.stackAddress, Registers.stackAddress, h.s]

end Registers

/-- The processors agree in all but the two flags. -/
structure Cpu.Alike (cpu cpu' : Cpu) : Prop where
  regs : cpu.regs.Alike cpu'.regs
  cycles : cpu.cycles = cpu'.cycles

/-- Whether an action pushes the status. -/
def Action.pushesStatus : Action → Bool
  | .pushStatus | .softwareInterrupt => true
  | _ => false

namespace Board

variable {β : Type} {α γ δ ε : Type}

/-- The boards agree in all but the two flags. -/
structure Alike (left right : Board β) : Prop where
  cpu : left.cpu.Alike right.cpu
  bus : left.bus = right.bus

/-! ### Pairs of actions -/

/-- Two results on alike boards: related values, or the same fault. -/
inductive Agree (Q : α → γ → Prop) :
    EStateM.Result Fault (Board β) α → EStateM.Result Fault (Board β) γ → Prop
  | ok {a : α} {c : γ} {left right : Board β} :
      Q a c → left.Alike right → Agree Q (.ok a left) (.ok c right)
  | error (fault : Fault) {left right : Board β} :
      left.Alike right → Agree Q (.error fault left) (.error fault right)

/-- On alike boards the two actions agree. -/
def Coupled (Q : α → γ → Prop) (x : Run β α) (y : Run β γ) : Prop :=
  ∀ left right, left.Alike right → Agree Q (x left) (y right)

/-- On alike boards the action does the same. -/
abbrev Blind (x : Run β α) : Prop := Coupled Eq x x

variable {Q : α → γ → Prop} {P : δ → ε → Prop} {x : Run β α} {y : Run β γ}

/-- Of two actions that are coupled, the seconds may count on what the firsts have delivered. -/
theorem Coupled.bind {f : α → Run β δ} {g : γ → Run β ε} (hx : Coupled Q x y)
    (hf : ∀ a c, Q a c → Coupled P (f a) (g c)) : Coupled P (x >>= f) (y >>= g) := by
  intro left right h
  have hfirst := hx left right h
  rw [Attempt.bind_apply, Attempt.bind_apply]
  generalize x left = first at hfirst
  generalize y right = second at hfirst
  cases hfirst with
  | ok hvalue hmid => exact hf _ _ hvalue _ _ hmid
  | error fault hmid => exact .error fault hmid

theorem Blind.bind {x : Run β α} {f : α → Run β δ} (hx : Blind x) (hf : ∀ a, Blind (f a)) :
    Blind (x >>= f) := by
  refine Coupled.bind hx fun a c h => ?_
  subst h
  exact hf a

theorem coupled_pure {a : α} {c : γ} (h : Q a c) :
    Coupled Q (pure a : Run β α) (pure c : Run β γ) :=
  fun _ _ halike => .ok h halike

theorem blind_pure (a : α) : Blind (pure a : Run β α) := coupled_pure rfl

theorem blind_throw (fault : Fault) : Blind (throw fault : Run β α) :=
  fun _ _ halike => .error fault halike

theorem coupled_registers : Coupled Registers.Alike (registers : Run β Registers) registers :=
  fun _ _ halike => .ok halike.cpu.regs halike

theorem coupled_change {f g : Registers → Registers}
    (h : ∀ regs regs', regs.Alike regs' → (f regs).Alike (g regs')) :
    Coupled Eq (change f : Run β Unit) (change g) :=
  fun _ _ halike => .ok rfl ⟨⟨h _ _ halike.cpu.regs, halike.cpu.cycles⟩, halike.bus⟩

theorem blind_jumpTo (pc : UInt16) : Blind (jumpTo pc : Run β Unit) :=
  coupled_change fun _ _ h => ⟨h.a, h.x, h.y, h.s, rfl, h.p⟩

theorem blind_spend (count : Nat) : Blind (spend count : Run β Unit) :=
  fun _ _ halike =>
    .ok rfl ⟨⟨halike.cpu.regs, congrArg (· + count) halike.cpu.cycles⟩, halike.bus⟩

theorem blind_onBus (action : Attempt BusError β α) : Blind (onBus action) := by
  intro left right halike
  obtain ⟨cpu, bus⟩ := left
  obtain ⟨cpu', bus'⟩ := right
  obtain ⟨hcpu, rfl⟩ := halike
  rw [onBus, onBus]
  cases action bus with
  | ok a bus' => exact .ok rfl ⟨hcpu, rfl⟩
  | error e bus' => exact .error _ ⟨hcpu, rfl⟩

/-! ### Memory and the stack -/

variable [Bus β]

theorem blind_read (a : UInt16) : Blind (read a : Run β UInt8) := blind_onBus _

theorem blind_write (a : UInt16) (value : UInt8) : Blind (write a value : Run β Unit) :=
  blind_onBus _

theorem blind_readPair (low high : UInt16) : Blind (readPair low high : Run β UInt16) :=
  (blind_read low).bind fun _ => (blind_read high).bind fun _ => blind_pure _

theorem blind_fetch : Blind (fetch : Run β UInt8) := by
  refine Coupled.bind coupled_registers fun regs regs' h => ?_
  rw [h.pc]
  refine Blind.bind (blind_read _) fun value => Blind.bind (coupled_change ?_) fun _ => blind_pure _
  intro regs regs' h
  exact ⟨h.a, h.x, h.y, h.s, congrArg (· + 1) h.pc, h.p⟩

theorem blind_fetchWord : Blind (fetchWord : Run β UInt16) :=
  blind_fetch.bind fun _ => blind_fetch.bind fun _ => blind_pure _

theorem blind_push (value : UInt8) : Blind (push value : Run β Unit) := by
  refine Coupled.bind coupled_registers fun regs regs' h => ?_
  rw [h.s, h.stackAddress]
  split
  · exact blind_throw _
  · refine Blind.bind (blind_write _ _) fun _ => coupled_change ?_
    intro regs regs' h
    exact ⟨h.a, h.x, h.y, congrArg (· - 1) h.s, h.pc, h.p⟩

theorem blind_pull : Blind (pull : Run β UInt8) := by
  refine Coupled.bind coupled_registers fun regs regs' h => ?_
  rw [Registers.stackAddress, Registers.stackAddress, h.s]
  split
  · exact blind_throw _
  · refine Blind.bind (coupled_change ?_) fun _ => blind_read _
    intro regs regs' h
    exact ⟨h.a, h.x, h.y, congrArg (· + 1) h.s, h.pc, h.p⟩

theorem blind_pushWord (value : UInt16) : Blind (pushWord value : Run β Unit) :=
  (blind_push _).bind fun _ => blind_push _

theorem blind_pullWord : Blind (pullWord : Run β UInt16) :=
  blind_pull.bind fun _ => blind_pull.bind fun _ => blind_pure _

/-! ### Operands -/

theorem blind_locate (mode : Mode) (a : UInt16) (crossed : Bool) (kind : Fetch) :
    Blind (locate mode a crossed kind : Run β Operand) := by
  cases kind with
  | value => exact (blind_read a).bind fun _ => blind_pure _
  | addressOnly => exact blind_pure _

theorem blind_resolveZeroPage (mode : Mode) {index : Registers → UInt8}
    (hindex : ∀ regs regs', regs.Alike regs' → index regs = index regs') (kind : Fetch) :
    Blind (resolveZeroPage mode index kind : Run β Operand) := by
  refine Blind.bind blind_fetch fun base => Coupled.bind coupled_registers fun regs regs' h => ?_
  rw [hindex regs regs' h]
  exact blind_locate _ _ _ _

theorem blind_resolveAbsolute (mode : Mode) {index : Registers → UInt8}
    (hindex : ∀ regs regs', regs.Alike regs' → index regs = index regs') (kind : Fetch) :
    Blind (resolveAbsolute mode index kind : Run β Operand) := by
  refine Blind.bind blind_fetchWord fun base => ?_
  refine Coupled.bind coupled_registers fun regs regs' h => ?_
  rw [hindex regs regs' h]
  exact blind_locate _ _ _ _

theorem blind_resolve (mode : Mode) (kind : Fetch) : Blind (resolve mode kind : Run β Operand) := by
  cases mode with
  | implicit => exact blind_pure _
  | accumulator =>
    refine Coupled.bind coupled_registers fun regs regs' h => ?_
    rw [h.a]
    exact blind_pure _
  | immediate => exact blind_fetch.bind fun _ => blind_pure _
  | relative =>
    refine Blind.bind blind_fetch fun offset => Coupled.bind coupled_registers fun regs regs' h => ?_
    rw [h.pc]
    exact blind_pure _
  | zeroPage => exact blind_resolveZeroPage _ (fun _ _ _ => rfl) kind
  | zeroPageX => exact blind_resolveZeroPage _ (fun _ _ h => h.x) kind
  | zeroPageY => exact blind_resolveZeroPage _ (fun _ _ h => h.y) kind
  | absolute => exact blind_resolveAbsolute _ (fun _ _ _ => rfl) kind
  | absoluteX => exact blind_resolveAbsolute _ (fun _ _ h => h.x) kind
  | absoluteY => exact blind_resolveAbsolute _ (fun _ _ h => h.y) kind
  | indirect =>
    exact blind_fetchWord.bind fun _ => (blind_readPair _ _).bind fun _ => blind_locate _ _ _ _
  | indexedIndirect =>
    refine Blind.bind blind_fetch fun base => Coupled.bind coupled_registers fun regs regs' h => ?_
    rw [h.x]
    exact Blind.bind (blind_readPair _ _) fun _ => blind_locate _ _ _ _
  | indirectIndexed =>
    refine Blind.bind blind_fetch fun pointer => Blind.bind (blind_readPair _ _) fun base => ?_
    refine Coupled.bind coupled_registers fun regs regs' h => ?_
    rw [h.y]
    exact blind_locate _ _ _ _

/-! ### Carrying an instruction out -/

omit [Bus β] in
theorem blind_requireAddress (m : Mnemonic) (op : Operand) :
    Blind (requireAddress m op : Run β UInt16) := by
  unfold requireAddress
  cases op.address with
  | none => exact blind_throw _
  | some a => exact blind_pure a

theorem blind_storeReg (m : Mnemonic) (op : Operand) (src : Reg) :
    Blind (storeReg m op src : Run β Unit) := by
  refine Blind.bind (blind_requireAddress m op) fun a => ?_
  refine Coupled.bind coupled_registers fun regs regs' h => ?_
  rw [h.get]
  exact blind_write _ _

theorem blind_writeBack (m : Mnemonic) (op : Operand) (value : UInt8) :
    Blind (writeBack m op value : Run β Unit) := by
  unfold writeBack
  split
  · exact coupled_change fun _ _ h => ⟨rfl, h.x, h.y, h.s, h.pc, h.p⟩
  · exact Blind.bind (blind_requireAddress m op) fun a => blind_write a value

theorem blind_shiftOperand (m : Mnemonic) (op : Operand) (shift : Shift) :
    Blind (shiftOperand m op shift : Run β Unit) := by
  refine Coupled.bind coupled_registers fun regs regs' h => ?_
  rw [h.carryIn]
  refine Blind.bind (coupled_change ?_) fun _ => blind_writeBack m op _
  intro _ _ h
  exact (h.putFlag _ _).setStatus ((h.p.put _ _).delivered _)

theorem blind_adjustMemory (m : Mnemonic) (op : Operand) (delta : UInt8) :
    Blind (adjustMemory m op delta : Run β Unit) := by
  refine Blind.bind (blind_requireAddress m op) fun a => Blind.bind (blind_write a _) fun _ => ?_
  exact coupled_change fun _ _ h => h.setStatus (h.p.delivered _)

theorem blind_call (m : Mnemonic) (op : Operand) : Blind (call m op : Run β Unit) := by
  refine Blind.bind (blind_requireAddress m op) fun target => ?_
  refine Coupled.bind coupled_registers fun regs regs' h => ?_
  rw [h.pc]
  exact Blind.bind (blind_pushWord _) fun _ => blind_jumpTo target

omit [Bus β] in
/-- A status from the stack is the same on both boards, with all its flags. -/
theorem blind_setStatus (p : Status) :
    Blind (change fun regs => regs.setStatus p : Run β Unit) :=
  coupled_change fun _ _ h => h.setStatus rfl

theorem blind_leaveInterrupt : Blind (leaveInterrupt : Run β Unit) := by
  refine Blind.bind blind_pull fun status => Blind.bind (blind_setStatus _) fun _ => ?_
  exact Blind.bind blind_pullWord fun pc => blind_jumpTo pc

/-- Nothing but a push of the status tells the two flags. -/
theorem blind_act (m : Mnemonic) (op : Operand) {action : Action}
    (h : action.pushesStatus = false) : Blind (act m op action : Run β Unit) := by
  cases action with
  | load dst =>
    dsimp only [act]
    exact coupled_change fun _ _ h => h.load dst _
  | store src => exact blind_storeReg m op src
  | transfer src dst =>
    dsimp only [act]
    refine coupled_change fun regs regs' h => ?_
    rw [h.get]
    exact h.load dst _
  | fromStackPointer =>
    dsimp only [act]
    refine coupled_change fun regs regs' h => ?_
    rw [h.s]
    exact h.load .x _
  | toStackPointer =>
    dsimp only [act]
    exact coupled_change fun _ _ h => ⟨h.a, h.x, h.y, h.x, h.pc, h.p⟩
  | pushA =>
    refine Coupled.bind coupled_registers fun regs regs' h => ?_
    rw [h.a]
    exact blind_push _
  | pushStatus | softwareInterrupt => cases h
  | pullA => exact Blind.bind blind_pull fun value => coupled_change fun _ _ h => h.load .a value
  | pullStatus => exact Blind.bind blind_pull fun value => blind_setStatus _
  | add =>
    dsimp only [act]
    exact coupled_change fun _ _ h => h.add _
  | subtract =>
    dsimp only [act]
    exact coupled_change fun _ _ h => h.add _
  | compare left =>
    dsimp only [act]
    refine coupled_change fun regs regs' h => ?_
    rw [h.get]
    exact h.compare _ _
  | combine logic =>
    dsimp only [act]
    refine coupled_change fun regs regs' h => ?_
    rw [h.a]
    exact h.load .a _
  | bitTest =>
    dsimp only [act]
    exact coupled_change fun _ _ h => h.bitTest _
  | adjust delta => exact blind_adjustMemory m op delta
  | adjustReg reg delta =>
    dsimp only [act]
    refine coupled_change fun regs regs' h => ?_
    rw [h.get]
    exact h.load reg _
  | shift shift => exact blind_shiftOperand m op shift
  | branch | nothing => exact blind_pure ()
  | jump => exact Blind.bind (blind_requireAddress m op) fun target => blind_jumpTo target
  | call => exact blind_call m op
  | leaveCall => exact Blind.bind blind_pullWord fun pc => blind_jumpTo _
  | leaveInterrupt => exact blind_leaveInterrupt
  | putFlag mask on =>
    dsimp only [act]
    exact coupled_change fun _ _ h => h.putFlag mask on

omit [Bus β] in
/-- No branch asks for one of the two flags. -/
theorem blind_branch {m : Mnemonic} {mask : UInt8} {on : Bool} (h : m.action = .branch mask on)
    (op : Operand) : Blind (branch m op mask on : Run β Nat) := by
  have hmask : mask &&& ~~~Flag.inert = mask := by
    cases m <;> cases h <;> decide
  refine Coupled.bind coupled_registers fun regs regs' h => ?_
  rw [h.p.has hmask]
  split
  · refine Blind.bind (blind_requireAddress m op) fun target => ?_
    exact Blind.bind (blind_jumpTo target) fun _ => blind_pure 1
  · exact blind_pure 0

theorem blind_perform {m : Mnemonic} (h : m.action.pushesStatus = false) (op : Operand) :
    Blind (perform m op : Run β Nat) := by
  have hact : Blind (act m op m.action : Run β Unit) := blind_act m op h
  unfold perform
  generalize haction : m.action = action at hact
  split
  · exact blind_branch haction op
  · exact Blind.bind hact fun _ => blind_pure 0

theorem blind_complete (pc : UInt16) {o : Opcode} (h : o.mnemonic.action.pushesStatus = false) :
    Blind (complete pc o : Run β Step) := by
  refine Blind.bind (blind_resolve _ _) fun op => Blind.bind (blind_perform h op) fun extra => ?_
  exact Blind.bind (blind_spend _) fun _ => blind_pure _

/-- The instruction that the program counter stands on, unless the bus refuses to show it. -/
def next (board : Board β) : Option Mnemonic :=
  match Bus.read board.cpu.regs.pc board.bus with
  | .ok byte _ => (Opcode.decode byte).map Opcode.mnemonic
  | .error _ _ => none

theorem execute_of_refused {board : Board β} {e : BusError} {bus : β}
    (h : Bus.read board.cpu.regs.pc board.bus = .error e bus) :
    execute board = .error (.bus e) ⟨board.cpu, bus⟩ := by
  have hopcode : read board.cpu.regs.pc board = .error (.bus e) ⟨board.cpu, bus⟩ := by
    obtain ⟨cpu, bus'⟩ := board
    rw [read, onBus, h]
  simp only [execute, Attempt.bind_apply, registers_apply, hopcode]

/-- **One instruction** does the same on alike boards unless it pushes the status. -/
theorem execute_alike {left right : Board β} (h : left.Alike right)
    (hnext : ∀ m, left.next = some m → m.action.pushesStatus = false) :
    Agree Eq (execute left) (execute right) := by
  have hread : Bus.read right.cpu.regs.pc right.bus = Bus.read left.cpu.regs.pc left.bus := by
    rw [h.cpu.regs.pc, h.bus]
  unfold next at hnext
  cases hresult : Bus.read left.cpu.regs.pc left.bus with
  | error e bus =>
    rw [execute_of_refused hresult, execute_of_refused (hread.trans hresult)]
    exact .error _ ⟨h.cpu, rfl⟩
  | ok byte bus =>
    rw [execute_of_read hresult, execute_of_read (hread.trans hresult), h.cpu.regs.pc]
    rw [hresult] at hnext
    dsimp only at hnext
    cases hdecode : Opcode.decode byte with
    | none => exact .error _ ⟨h.cpu, rfl⟩
    | some o =>
      have hopened : (left.opened bus).Alike (right.opened bus) := by
        have hregs := h.cpu.regs
        exact ⟨⟨⟨hregs.a, hregs.x, hregs.y, hregs.s, congrArg (· + 1) hregs.pc, hregs.p⟩,
          h.cpu.cycles⟩, rfl⟩
      exact blind_complete _ (hnext o.mnemonic (by rw [hdecode]; rfl)) _ _ hopened

/-- A reset sets one of the two flags and looks at none. -/
theorem blind_reset : Blind (reset : Run β Unit) := by
  refine Blind.bind (coupled_change ?_) fun _ => ?_
  · exact fun _ _ h => ⟨h.a, h.x, h.y, rfl, h.pc, h.p.reset⟩
  · refine Blind.bind (blind_readPair _ _) fun pc => Blind.bind (blind_jumpTo pc) fun _ => ?_
    exact blind_spend _

end Board

/-! ### Runs -/

namespace ProcessorCall

variable {β : Type} [Bus β]

/-- Makes a call and delivers the record of the instruction, if it executes one. -/
def deliver : ProcessorCall → Run β (Option Step)
  | execute => do return some (← Board.execute)
  | nmi => do
    Board.nmi
    return none
  | reset => do
    Board.reset
    return none

/-- The call is an interrupt, or stands on an instruction that pushes the status. -/
def PushesStatus (call : ProcessorCall) (board : Board β) : Prop :=
  match call with
  | execute => board.next = some .php ∨ board.next = some .brk
  | nmi => True
  | reset => False

/-- The calls of a run, each with what it delivers and the board that it leaves. -/
def transcript : List ProcessorCall → Board β → List (Except Fault (Option Step) × Board β)
  | [], _ => []
  | call :: calls, board =>
    (call.deliver.outcome board, call.deliver.after board)
      :: transcript calls (call.deliver.after board)

/-- No call of the run pushes the status. -/
def Discreet : List ProcessorCall → Board β → Prop
  | [], _ => True
  | call :: calls, board =>
    ¬ call.PushesStatus board ∧ Discreet calls (call.deliver.after board)

theorem deliver_alike {call : ProcessorCall} {left right : Board β} (h : left.Alike right)
    (hcall : ¬ call.PushesStatus left) :
    Board.Agree Eq (call.deliver left) (call.deliver right) := by
  cases call with
  | nmi => exact absurd trivial hcall
  | reset => exact Board.Blind.bind Board.blind_reset (fun _ => Board.blind_pure none) _ _ h
  | execute =>
    have hnext (m : Mnemonic) (hm : left.next = some m) : m.action.pushesStatus = false := by
      cases m with
      | php => exact absurd (.inl hm) hcall
      | brk => exact absurd (.inr hm) hcall
      | _ => rfl
    have hexecute := Board.execute_alike h hnext
    rw [deliver, Attempt.bind_apply, Attempt.bind_apply]
    generalize Board.execute left = first at hexecute
    generalize Board.execute right = second at hexecute
    cases hexecute with
    | ok hstep hmid =>
      subst hstep
      exact .ok rfl hmid
    | error fault hmid => exact .error fault hmid

/-- Alike boards stay alike along a run in which nothing pushes the status. -/
theorem transcript_alike {calls : List ProcessorCall} {left right : Board β}
    (h : left.Alike right) (hcalls : Discreet calls left) :
    List.Forall₂ (fun answer answer' => answer.1 = answer'.1 ∧ answer.2.Alike answer'.2)
      (transcript calls left) (transcript calls right) := by
  induction calls generalizing left right with
  | nil => exact .nil
  | cons call calls ih =>
    have hagree := deliver_alike h hcalls.1
    have hparts : call.deliver.outcome left = call.deliver.outcome right ∧
        (call.deliver.after left).Alike (call.deliver.after right) := by
      unfold Attempt.outcome Attempt.after
      generalize call.deliver left = first at hagree
      generalize call.deliver right = second at hagree
      cases hagree with
      | ok hvalue hmid => exact ⟨congrArg Except.ok hvalue, hmid⟩
      | error fault hmid => exact ⟨rfl, hmid⟩
    exact .cons hparts (ih hparts.2 hcalls.2)

/-- **Decimal and interrupt disable have no effect.**  Let two processors differ at most in these
flags, each on a recorded bus of any kind in the same state, and let both make the same calls, none of
which pushes the status.  Then each call delivers the same record or the same fault on both, makes the
same accesses, and leaves the same bus and processors that again differ at most in these flags, with
the same cycle total. -/
theorem flags_inert {calls : List ProcessorCall} {left right : Board (Recorder β)}
    (hcpu : left.cpu.Alike right.cpu) (hbus : left.bus = right.bus)
    (hcalls : Discreet calls left) :
    List.Forall₂ (fun answer answer' => answer.1 = answer'.1 ∧
        answer.2.bus.log = answer'.2.bus.log ∧ answer.2.bus.bus = answer'.2.bus.bus ∧
        answer.2.cpu.Alike answer'.2.cpu)
      (transcript calls left) (transcript calls right) := by
  refine (transcript_alike ⟨hcpu, hbus⟩ hcalls).imp fun answer answer' h => ?_
  exact ⟨h.1, congrArg Recorder.log h.2.bus, congrArg Recorder.bus h.2.bus, h.2.cpu⟩

/-- An addition and a reset, with both flags set and with both clear. -/
theorem addition_with_decimal_set :
    let memory := (Memory.zeros.set 0x8000 0x69).set 0x8001 0x15
    let board (p : Status) : Board (Recorder Memory) :=
      ⟨⟨{ Registers.powerOn with p := p }, 0⟩, ⟨memory, [], []⟩⟩
    List.Forall₂ (fun answer answer' => answer.1 = answer'.1 ∧
        answer.2.bus.log = answer'.2.bus.log ∧ answer.2.bus.bus = answer'.2.bus.bus ∧
        answer.2.cpu.Alike answer'.2.cpu)
      (transcript [execute, reset] (board ⟨0x2C⟩)) (transcript [execute, reset] (board ⟨0x20⟩)) := by
  intro memory board
  have hbyte : memory[(0x8000 : UInt16)] = 0x69 := by
    simp only [memory, Cells.getElem_set]
    rfl
  have hread : Bus.read 0x8000 (⟨memory, [], []⟩ : Recorder Memory) =
      .ok 0x69 ⟨memory, [], [.read 0x8000 0x69]⟩ := by
    refine Recorder.access_eq_ok.mpr ⟨rfl, memory, ?_, rfl⟩
    rw [Memory.read_eq, hbyte]
  have hnext : (board ⟨0x2C⟩).next = some .adc := by
    have hdecode : Opcode.decode 0x69 = some ⟨0x69, .adc, .immediate, 2⟩ :=
      Opcode.decode_byte (o := ⟨0x69, .adc, .immediate, 2⟩) (by decide)
    rw [Board.next, show Bus.read (board ⟨0x2C⟩).cpu.regs.pc (board ⟨0x2C⟩).bus = _ from hread]
    dsimp only
    rw [hdecode]
    rfl
  have hflags : Status.Alike ⟨0x2C⟩ ⟨0x20⟩ := by
    unfold Status.Alike
    decide
  refine flags_inert ⟨⟨rfl, rfl, rfl, rfl, rfl, hflags⟩, rfl⟩ rfl ⟨?_, id, trivial⟩
  rintro (hphp | hbrk)
  · cases hnext.symm.trans hphp
  · cases hnext.symm.trans hbrk

end ProcessorCall

end NesMachine
