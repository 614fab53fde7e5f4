import NesMachine.Cpu.Execute

/-!
# Fetching operands

The bytes behind an opcode are read one after the other, each from where the program counter
stands.  `fetch_eq_ok` and `fetchWord_eq_ok` say so on any bus, `locate_eq_ok` adds the read of the
operand itself, and `resolve_absolute_eq_ok` puts them together for the operand of a jump or a call.
-/

namespace NesMachine

namespace Board

variable {β : Type} [Bus β] {board board' : Board β}

theorem fetch_eq_ok {value : UInt8} :
    fetch board = .ok value board' ↔
      ∃ bus, Bus.read board.cpu.regs.pc board.bus = .ok value bus ∧ board' = board.opened bus := by
  refine ⟨?_, ?_⟩
  · intro h
    obtain ⟨regs, mid, hregs, h⟩ := Attempt.bind_eq_ok.mp h
    cases hregs
    obtain ⟨value', mid, hread, h⟩ := Attempt.bind_eq_ok.mp h
    obtain ⟨bus, hbus, rfl⟩ := onBus_eq_ok.mp hread
    obtain ⟨_, mid, hchange, hpure⟩ := Attempt.bind_eq_ok.mp h
    cases hchange
    cases hpure
    exact ⟨bus, hbus, rfl⟩
  · intro hparts
    obtain ⟨bus, hbus, rfl⟩ := hparts
    refine Attempt.bind_eq_ok.mpr ⟨_, _, rfl, ?_⟩
    exact Attempt.bind_eq_ok.mpr ⟨value, _, onBus_eq_ok.mpr ⟨bus, hbus, rfl⟩, rfl⟩

theorem fetchWord_eq_ok {value : UInt16} :
    fetchWord board = .ok value board' ↔
      ∃ low high bus₁ bus₂,
        Bus.read board.cpu.regs.pc board.bus = .ok low bus₁ ∧
        Bus.read (board.cpu.regs.pc + 1) bus₁ = .ok high bus₂ ∧
        value = wordOf low high ∧ board' = (board.opened bus₁).opened bus₂ := by
  refine ⟨?_, ?_⟩
  · intro h
    obtain ⟨low, mid, hlow, h⟩ := Attempt.bind_eq_ok.mp h
    obtain ⟨bus₁, hread₁, rfl⟩ := fetch_eq_ok.mp hlow
    obtain ⟨high, mid, hhigh, hpure⟩ := Attempt.bind_eq_ok.mp h
    obtain ⟨bus₂, hread₂, rfl⟩ := fetch_eq_ok.mp hhigh
    cases hpure
    exact ⟨low, high, bus₁, bus₂, hread₁, hread₂, rfl, rfl⟩
  · intro hparts
    obtain ⟨low, high, bus₁, bus₂, hread₁, hread₂, rfl, rfl⟩ := hparts
    refine Attempt.bind_eq_ok.mpr ⟨low, _, fetch_eq_ok.mpr ⟨bus₁, hread₁, rfl⟩, ?_⟩
    exact Attempt.bind_eq_ok.mpr ⟨high, _, fetch_eq_ok.mpr ⟨bus₂, hread₂, rfl⟩, rfl⟩

/-- An operand in memory is read, unless only its address is asked for. -/
theorem locate_eq_ok {mode : Mode} {a : UInt16} {crossed : Bool} {kind : Fetch} {op : Operand} :
    locate mode a crossed kind board = .ok op board' ↔
      match kind with
      | .value => ∃ value bus, Bus.read a board.bus = .ok value bus ∧
          op = .located mode value a crossed ∧ board' = ⟨board.cpu, bus⟩
      | .addressOnly => op = .located mode 0 a crossed ∧ board' = board := by
  cases kind with
  | addressOnly =>
    rw [locate, Attempt.pure_eq_ok]
    exact ⟨fun h => ⟨h.1.symm, h.2.symm⟩, fun h => ⟨h.1.symm, h.2.symm⟩⟩
  | value =>
    refine ⟨?_, ?_⟩
    · intro h
      obtain ⟨value, mid, hread, hpure⟩ := Attempt.bind_eq_ok.mp h
      obtain ⟨bus, hbus, rfl⟩ := onBus_eq_ok.mp hread
      cases hpure
      exact ⟨value, bus, hbus, rfl, rfl⟩
    · intro hparts
      obtain ⟨value, bus, hbus, rfl, rfl⟩ := hparts
      exact Attempt.bind_eq_ok.mpr ⟨value, _, onBus_eq_ok.mpr ⟨bus, hbus, rfl⟩, rfl⟩

/-- The address of an absolute operand that is not read. -/
theorem resolve_absolute_eq_ok {op : Operand} :
    resolve .absolute .addressOnly board = .ok op board' ↔
      ∃ low high bus₁ bus₂,
        Bus.read board.cpu.regs.pc board.bus = .ok low bus₁ ∧
        Bus.read (board.cpu.regs.pc + 1) bus₁ = .ok high bus₂ ∧
        op = .located .absolute 0 (wordOf low high) false ∧
        board' = (board.opened bus₁).opened bus₂ := by
  have hsum (base : UInt16) : base + (0 : UInt8).toUInt16 = base := UInt16.add_zero base
  have hpage (base : UInt16) : crossesPage base base = false := bne_self_eq_false _
  refine ⟨?_, ?_⟩
  · intro h
    obtain ⟨base, mid, hword, h⟩ := Attempt.bind_eq_ok.mp h
    obtain ⟨low, high, bus₁, bus₂, hlow, hhigh, rfl, rfl⟩ := fetchWord_eq_ok.mp hword
    obtain ⟨regs, mid, hregs, hlocate⟩ := Attempt.bind_eq_ok.mp h
    cases hregs
    rw [hsum, hpage] at hlocate
    obtain ⟨rfl, rfl⟩ := locate_eq_ok.mp hlocate
    exact ⟨low, high, bus₁, bus₂, hlow, hhigh, rfl, rfl⟩
  · intro hparts
    obtain ⟨low, high, bus₁, bus₂, hlow, hhigh, rfl, rfl⟩ := hparts
    refine Attempt.bind_eq_ok.mpr ⟨_, _,
      fetchWord_eq_ok.mpr ⟨low, high, bus₁, bus₂, hlow, hhigh, rfl, rfl⟩, ?_⟩
    refine Attempt.bind_eq_ok.mpr ⟨_, _, rfl, ?_⟩
    rw [hsum, hpage]
    exact locate_eq_ok.mpr ⟨rfl, rfl⟩

end Board

end NesMachine
