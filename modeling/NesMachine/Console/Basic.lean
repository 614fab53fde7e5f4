import NesMachine.Cartridge.Basic
import NesMachine.Console.Interrupt
import NesMachine.Console.Region
import NesMachine.Console.Trace
import NesMachine.Device.SystemBus

/-!
# The console

A console is a processor on the system bus with a cartridge, the interrupt timing and a
trace. `tick` executes one instruction and nothing else. `step` also lets time pass: it
notes a handler that has returned, advances the timer, and takes the interrupt when the
timer fires and no handler is running.
-/

namespace NesMachine

/-- The state of a console. -/
structure Console where
  board : Board SystemBus
  nmi : NmiGate
  vblank : VblankTimer
  trace : Trace
  cartridge : Cartridge
  region : Region
  /-- How long a program may take to become idle, in milliseconds. -/
  timeout : Nat

namespace Console

/-- The processor. -/
def cpu (console : Console) : Cpu := console.board.cpu

/-- The system bus. -/
def bus (console : Console) : SystemBus := console.board.bus

/-- The settings that a new program leaves in place. -/
def settings (console : Console) : Settings :=
  ⟨console.region, console.trace.depth, console.timeout⟩

/-! ### Loading -/

/-- Where the lower half of the program window starts. -/
def lowerWindow : UInt16 := 0x8000

/-- Where the upper half of the program window starts. -/
def upperWindow : UInt16 := 0xC000

/-- Shows the program banks in the window and the first character bank to the video side. -/
def insert (banks : Banks) : SystemBus → SystemBus
  | ⟨space, video, oam, latch, pad1, pad2⟩ =>
    let space := space.store lowerWindow banks.window.1.toList
    let space := space.store upperWindow banks.window.2.toList
    let video :=
      match banks.chr[0]? with
      | some bank => video.store 0x0000 bank.toList
      | none => video
    ⟨space, video, oam, latch, pad1, pad2⟩

/-- The same call by call, where a call refuses a bank that does not fit. -/
def insertChecked (banks : Banks) (bus : SystemBus) : Except BusError SystemBus := do
  let space ← bus.space.load lowerWindow banks.window.1.toList
  let space ← space.load upperWindow banks.window.2.toList
  let video ←
    match banks.chr[0]? with
    | some bank => bus.video.load 0x0000 bank.toList
    | none => pure bus.video
  return { bus with space := space, video := video }

/-- A bank fits where it is shown. -/
theorem insertChecked_eq (banks : Banks) (bus : SystemBus) :
    insertChecked banks bus = .ok (insert banks bus) := by
  rw [insertChecked, AddressSpace.load_of_fits _ (by rw [Vector.length_toList]; decide)]
  simp only [bind, Except.bind]
  rw [AddressSpace.load_of_fits _ (by rw [Vector.length_toList]; decide), insert]
  cases banks.chr[0]? with
  | none => rfl
  | some bank =>
    simp only
    rw [AddressSpace.load_of_fits _ (by rw [Vector.length_toList]; decide)]
    rfl

/-- A console with a cartridge, just switched on. It starts at `$8000` during vertical
blanking. -/
def powerOn (settings : Settings) (cartridge : Cartridge) : Console where
  board :=
    let bus := SystemBus.powerOn (VideoSpace.wired cartridge.header.layout)
    ⟨Cpu.powerOn, (insert cartridge.banks bus).setVblank true⟩
  nmi := ⟨false, 0⟩
  vblank := VblankTimer.start settings.region.cyclesPerFrame
  trace := Trace.ofDepth settings.traceDepth
  cartridge := cartridge
  region := settings.region
  timeout := settings.timeout

/-- The same with every call that may refuse its block. -/
def assemble (settings : Settings) (cartridge : Cartridge) : Except BusError Console := do
  let video ← VideoSpace.wire cartridge.header.layout
  let bus ← insertChecked cartridge.banks (SystemBus.powerOn video)
  return { powerOn settings cartridge with board := ⟨Cpu.powerOn, bus.setVblank true⟩ }

/-- Whatever the cartridge, no call is refused when a console is put together. -/
theorem assemble_eq (settings : Settings) (cartridge : Cartridge) :
    assemble settings cartridge = .ok (powerOn settings cartridge) := by
  rw [assemble, VideoSpace.wire_eq]
  simp only [bind, Except.bind]
  rw [insertChecked_eq]
  rfl

/-- A console with the cartridge of an image. -/
def ofImage (settings : Settings) (image : Image) : Except CartridgeError Console :=
  match Cartridge.ofImage image with
  | .ok cartridge => .ok (powerOn settings cartridge)
  | .error e => .error e

/-- Replaces the program by that of an image, keeping the settings; if the image is rejected
the console stays as it is. -/
def loadImage (image : Image) : Attempt CartridgeError Console Unit := fun console =>
  match ofImage console.settings image with
  | .ok console => .ok () console
  | .error e => .error e console

/-! ### Running -/

/-- Lets the processor act on its board. -/
def onBoard {α : Type} (action : Run SystemBus α) : Attempt Fault Console α
  | ⟨board, nmi, vblank, trace, cartridge, region, timeout⟩ =>
    match action board with
    | .ok a board => .ok a ⟨board, nmi, vblank, trace, cartridge, region, timeout⟩
    | .error e board => .error e ⟨board, nmi, vblank, trace, cartridge, region, timeout⟩

theorem onBoard_apply {α : Type} (action : Run SystemBus α) (console : Console) :
    onBoard action console =
      match action console.board with
      | .ok a board => .ok a { console with board := board }
      | .error e board => .error e { console with board := board } := rfl

/-- Records an executed instruction. -/
def record (step : Step) : Console → Console
  | ⟨board, nmi, vblank, trace, cartridge, region, timeout⟩ =>
    ⟨board, nmi, vblank, trace.record step, cartridge, region, timeout⟩

/-- Executes one instruction, records it and delivers its cycles. -/
def tick : Attempt Fault Console Nat := do
  let step ← onBoard Board.execute
  modify (record step)
  return step.cycles

/-- Notes the stack pointer after an instruction, so that a handler that has returned no
longer counts as running. -/
def retire : Console → Console
  | ⟨⟨cpu, bus⟩, nmi, vblank, trace, cartridge, region, timeout⟩ =>
    ⟨⟨cpu, bus⟩, nmi.finish cpu.regs.s, vblank, trace, cartridge, region, timeout⟩

/-- Lets cycles pass. -/
def elapse (cycles : Nat) : Console → Console
  | ⟨board, nmi, vblank, trace, cartridge, region, timeout⟩ =>
    ⟨board, nmi, vblank.advance cycles, trace, cartridge, region, timeout⟩

/-- Turns the vertical blanking of the status register over. -/
def flipVblank : Console → Console
  | ⟨⟨cpu, bus⟩, nmi, vblank, trace, cartridge, region, timeout⟩ =>
    let on := bus.inVblank
    ⟨⟨cpu, bus.setVblank (!on)⟩, nmi, vblank, trace, cartridge, region, timeout⟩

/-- Notes that an interrupt is being taken. -/
def startNmi : Console → Console
  | ⟨⟨cpu, bus⟩, nmi, vblank, trace, cartridge, region, timeout⟩ =>
    ⟨⟨cpu, bus⟩, nmi.start cpu.regs.s, vblank, trace, cartridge, region, timeout⟩

/-- What happens when the timer fires: the status register changes, and the interrupt is
taken unless a handler is running. Tells whether it was taken. -/
def blank : Attempt Fault Console Bool := do
  modify flipVblank
  if (← get).nmi.inFlight then
    return false
  else
    modify startNmi
    onBoard Board.nmi
    return true

/-- What happened in a step. -/
structure StepEvents where
  /-- The cycles of the instruction, without those of an interrupt. -/
  cycles : Nat
  /-- Whether the timer fired. -/
  fired : Bool
  /-- Whether the interrupt was taken. -/
  interrupted : Bool
deriving DecidableEq

/-- Executes one instruction, lets its cycles pass, and tells what happened. -/
def stepEvents : Attempt Fault Console StepEvents := do
  let cycles ← tick
  modify retire
  let fires := (← get).vblank.fires cycles
  modify (elapse cycles)
  if fires then
    let interrupted ← blank
    return ⟨cycles, true, interrupted⟩
  else
    return ⟨cycles, false, false⟩

/-- Executes one instruction and lets its cycles pass; delivers the cycles of the instruction
alone. -/
def step : Attempt Fault Console Nat := do
  let events ← stepEvents
  return events.cycles

/-- Executes the given number of steps. -/
def steps : Nat → Attempt Fault Console Unit
  | 0 => return ()
  | n + 1 => do
    let _ ← step
    steps n

/-- Starts from the reset vector. -/
def reset : Attempt Fault Console Unit := onBoard Board.reset

/-! ### The host's side -/

/-- Changes the registers. -/
def changeRegisters (f : Registers → Registers) (console : Console) : Console :=
  { console with board := ⟨⟨f console.cpu.regs, console.cpu.cycles⟩, console.bus⟩ }

/-- Changes the system bus. -/
def changeBus (f : SystemBus → SystemBus) : Console → Console
  | ⟨⟨cpu, bus⟩, nmi, vblank, trace, cartridge, region, timeout⟩ =>
    ⟨⟨cpu, f bus⟩, nmi, vblank, trace, cartridge, region, timeout⟩

/-- Reads an address as the processor would. -/
def read (a : UInt16) : Attempt Fault Console UInt8 := onBoard (Board.read a)

/-- Presses or releases a button, if there is such a controller. -/
def setButton (console : Console) (pad : Nat) (button : UInt8) (pressed : Bool) :
    Option Console :=
  match console with
  | ⟨⟨cpu, bus⟩, nmi, vblank, trace, cartridge, region, timeout⟩ =>
    (bus.setButton pad button pressed).map fun bus =>
      ⟨⟨cpu, bus⟩, nmi, vblank, trace, cartridge, region, timeout⟩

end Console

end NesMachine
