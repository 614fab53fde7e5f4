import NesMachine.Device.Controller
import NesMachine.Device.VideoLatch
import NesMachine.Device.VideoSpace

/-!
# The system bus

What the processor reads and writes: internal memory at `$0000-$07FF`, repeated up to
`$1FFF`; eight video registers at `$2000`, repeated up to `$3FFF`; sprite memory transfer and
the controllers around `$4014`; and the program from `$8000` on. Every address stores the
last byte written to it. At seven of them a write, or at the controllers a read, also drives
a device, and it does so at each of their aliases.
-/

namespace NesMachine

/-- The devices on the bus. -/
inductive Device where
  /-- `$2004`: writes sprite memory at the index in `$2003` and moves the index on. -/
  | oamData
  /-- `$2005`: takes the scroll position in two halves. -/
  | scroll
  /-- `$2006`: takes the video address in two halves. -/
  | videoAddress
  /-- `$2007`: writes the video space at the video address and moves that on. -/
  | videoData
  /-- `$4014`: fills sprite memory from a page. -/
  | oamDma
  /-- `$4016`: the first controller, and the strobe of both. -/
  | joypad1
  /-- `$4017`: the second controller. -/
  | joypad2
deriving DecidableEq

/-- The processor's address space, the video space, and the devices between them. -/
structure SystemBus where
  space : AddressSpace Device
  video : VideoSpace
  /-- Sprite memory. -/
  oam : Vector UInt8 256
  latch : VideoLatch
  pad1 : Controller
  pad2 : Controller

namespace SystemBus

/-! ### Wiring -/

/-- The control register; bit 2 selects how far the video address moves. -/
def controlAddress : UInt16 := 0x2000

/-- The status register; bit 7 tells vertical blanking. -/
def statusAddress : UInt16 := 0x2002

/-- The index register of sprite memory. -/
def oamIndexAddress : UInt16 := 0x2003

/-- The processor's address space. -/
def processorSpace : AddressSpace Device :=
  let space := AddressSpace.empty.linkRepeating 0x0000 0x0800 0x1FFF
  let space := space.install 0x2004 .oamData
  let space := space.install 0x2005 .scroll
  let space := space.install 0x2006 .videoAddress
  let space := space.install 0x2007 .videoData
  let space := space.linkRepeating 0x2000 8 0x3FFF
  let space := space.install 0x4014 .oamDma
  let space := space.install 0x4016 .joypad1
  space.install 0x4017 .joypad2

/-- A bus on which nothing has happened yet. -/
def powerOn (video : VideoSpace) : SystemBus :=
  ⟨processorSpace, video, Vector.replicate 256 0, ⟨false, 0, 0, 0⟩, ⟨0, 0, 0⟩, ⟨0, 0, 0⟩⟩

/-! ### Stored bytes -/

/-- The byte behind an address, without driving any device. -/
def peek (bus : SystemBus) (a : UInt16) : UInt8 := bus.space.peek a

/-- The byte behind a video address. -/
def peekVideo (bus : SystemBus) (a : UInt16) : UInt8 := bus.video.peek a

/-- Replaces the byte behind an address, without driving any device. -/
def poke : SystemBus → UInt16 → UInt8 → SystemBus
  | ⟨space, video, oam, latch, pad1, pad2⟩, a, value =>
    ⟨space.poke a value, video, oam, latch, pad1, pad2⟩

/-- Replaces the byte behind a video address. -/
def pokeVideo : SystemBus → UInt16 → UInt8 → SystemBus
  | ⟨space, video, oam, latch, pad1, pad2⟩, a, value =>
    ⟨space, video.poke a value, oam, latch, pad1, pad2⟩

/-- Replaces a byte of sprite memory. -/
def setOam : SystemBus → UInt8 → UInt8 → SystemBus
  | ⟨space, video, oam, latch, pad1, pad2⟩, index, value =>
    ⟨space, video, oam.set index.toNat value index.toNat_lt, latch, pad1, pad2⟩

/-- Changes the video latch. -/
def changeLatch (f : VideoLatch → VideoLatch) : SystemBus → SystemBus
  | ⟨space, video, oam, latch, pad1, pad2⟩ => ⟨space, video, oam, f latch, pad1, pad2⟩

theorem peek_poke (bus : SystemBus) (a b : UInt16) (value : UInt8) :
    (bus.poke a value).peek b =
      if bus.space.owner a = bus.space.owner b then value else bus.peek b :=
  AddressSpace.peek_poke bus.space a b value

/-! ### Vertical blanking -/

/-- Whether the status register tells vertical blanking. -/
def inVblank (bus : SystemBus) : Bool := bus.peek statusAddress &&& 0x80 != 0

/-- Makes the status register tell whether vertical blanking is on. -/
def setVblank (bus : SystemBus) (on : Bool) : SystemBus :=
  let status := bus.peek statusAddress
  bus.poke statusAddress (if on then status ||| 0x80 else status &&& ~~~0x80)

/-! ### Devices -/

/-- How far a write of video data moves the video address. -/
def videoStep (bus : SystemBus) : UInt16 :=
  if bus.peek controlAddress &&& 0x04 != 0 then 32 else 1

/-- Writes sprite memory at its index and moves the index on. -/
def writeOam (bus : SystemBus) (value : UInt8) : SystemBus :=
  let index := bus.peek oamIndexAddress
  (bus.setOam index value).poke oamIndexAddress (index + 1)

/-- Writes the video space at the video address and moves the address on. -/
def writeVideo (bus : SystemBus) (value : UInt8) : SystemBus :=
  let a := bus.latch.address
  let step := bus.videoStep
  (bus.pokeVideo a value).changeLatch (·.advance step)

/-- Copies a page of the processor's address space to sprite memory. -/
def copyPage : SystemBus → UInt8 → SystemBus
  | ⟨space, video, _, latch, pad1, pad2⟩, page =>
    let oam := Vector.ofFn fun i : Fin 256 => space.peek (wordOf (UInt8.ofNat i) page)
    ⟨space, video, oam, latch, pad1, pad2⟩

/-- Writes to the strobe of both controllers. -/
def strobe : SystemBus → UInt8 → SystemBus
  | ⟨space, video, oam, latch, pad1, pad2⟩, value =>
    ⟨space, video, oam, latch, pad1.write value, pad2.write value⟩

/-- What a write drives a device to do, after the byte is stored. -/
def drive (bus : SystemBus) (value : UInt8) : Device → SystemBus
  | .oamData => bus.writeOam value
  | .scroll => bus.changeLatch (·.writeScroll value)
  | .videoAddress => bus.changeLatch (·.writeAddress value)
  | .videoData => bus.writeVideo value
  | .oamDma => bus.copyPage value
  | .joypad1 => bus.strobe value
  | .joypad2 => bus

/-! ### Accesses -/

/-- Reads the first controller. -/
def readPad1 : SystemBus → UInt8 × SystemBus
  | ⟨space, video, oam, latch, pad1, pad2⟩ =>
    (pad1.read.1, ⟨space, video, oam, latch, pad1.read.2, pad2⟩)

/-- Reads the second controller. -/
def readPad2 : SystemBus → UInt8 × SystemBus
  | ⟨space, video, oam, latch, pad1, pad2⟩ =>
    (pad2.read.1, ⟨space, video, oam, latch, pad1, pad2.read.2⟩)

/-- Reads an address: the controllers tell their next button, everything else the byte that
is stored there. -/
def read (bus : SystemBus) (a : UInt16) : UInt8 × SystemBus :=
  match bus.space.resolve a with
  | .device _ .joypad1 => bus.readPad1
  | .device _ .joypad2 => bus.readPad2
  | access => (bus.peek access.owner, bus)

/-- Writes to an address: the byte is stored, and then the device there is driven. -/
def write (bus : SystemBus) (a : UInt16) (value : UInt8) : SystemBus :=
  match bus.space.resolve a with
  | .plain owner => bus.poke owner value
  | .device owner kind => (bus.poke owner value).drive value kind

instance : Bus SystemBus where
  read a := fun bus => .ok (bus.read a).1 (bus.read a).2
  write a value := fun bus => .ok () (bus.write a value)

/-- Presses or releases a button of the first (0) or second (1) controller; there is no
other. -/
def setButton (bus : SystemBus) (pad : Nat) (button : UInt8) (pressed : Bool) :
    Option SystemBus :=
  match pad, bus with
  | 0, ⟨space, video, oam, latch, pad1, pad2⟩ =>
    some ⟨space, video, oam, latch, pad1.setButton button pressed, pad2⟩
  | 1, ⟨space, video, oam, latch, pad1, pad2⟩ =>
    some ⟨space, video, oam, latch, pad1, pad2.setButton button pressed⟩
  | _, _ => none

end SystemBus

end NesMachine
