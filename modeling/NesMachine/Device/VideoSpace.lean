import NesMachine.AddressSpace.Wiring
import NesMachine.Cartridge.Header

/-!
# The video address space

The video side has fourteen address bits. Pattern tables lie below `$2000`. Four nametables
follow, of which a cartridge may let two pairs share their memory, and `$3000-$3EFF` shows
them again. The palette lies at `$3F00`: its entries `$10`, `$14`, `$18` and `$1C` show the
entries sixteen below, and its 32 bytes repeat up to `$3FFF`. Everything above `$3FFF`
repeats what is below.
-/

namespace NesMachine

/-- An address space without devices. -/
abbrev VideoSpace := AddressSpace Empty

namespace VideoSpace

/-- The links between nametables that share their memory. -/
def nametablePairs : NametableLayout → List (UInt16 × UInt16)
  | .horizontal =>
    AddressSpace.blockPairs 0x2400 0x2000 0x400 ++ AddressSpace.blockPairs 0x2C00 0x2800 0x400
  | .vertical =>
    AddressSpace.blockPairs 0x2800 0x2000 0x400 ++ AddressSpace.blockPairs 0x2C00 0x2400 0x400
  | .fourScreen => []

/-- The links of the palette entries that show the entry sixteen below. -/
def backdropPairs : List (UInt16 × UInt16) :=
  [(0x3F10, 0x3F00), (0x3F14, 0x3F04), (0x3F18, 0x3F08), (0x3F1C, 0x3F0C)]

/-- All links, in the order in which they are made. -/
def pairs (layout : NametableLayout) : List (UInt16 × UInt16) :=
  nametablePairs layout
    ++ AddressSpace.blockPairs 0x3000 0x2000 0x0F00
    ++ backdropPairs
    ++ AddressSpace.repeatedPairs 0x3F00 0x20 0x3FFF
    ++ AddressSpace.repeatedPairs 0x0000 0x4000 0xFFFF

/-- The video space of a cartridge with the given layout. -/
def wired (layout : NametableLayout) : VideoSpace := AddressSpace.empty.linkAll (pairs layout)

/-- The same links between nametables call by call, where a call refuses a block that does
not fit. -/
def wireNametables (space : VideoSpace) : NametableLayout → Except BusError VideoSpace
  | .horizontal => do
    let space ← space.linkBlock 0x2400 0x2000 0x400
    space.linkBlock 0x2C00 0x2800 0x400
  | .vertical => do
    let space ← space.linkBlock 0x2800 0x2000 0x400
    space.linkBlock 0x2C00 0x2400 0x400
  | .fourScreen => return space

theorem wireNametables_eq (space : VideoSpace) (layout : NametableLayout) :
    wireNametables space layout = .ok (space.linkAll (nametablePairs layout)) := by
  cases layout with
  | horizontal | vertical =>
    rw [wireNametables, AddressSpace.linkBlock_of_fits _ (by decide) (by decide) (by decide)]
    simp only [bind, Except.bind]
    rw [AddressSpace.linkBlock_of_fits _ (by decide) (by decide) (by decide), nametablePairs,
      AddressSpace.linkAll_append]
  | fourScreen => rfl

/-- All links call by call. -/
def wire (layout : NametableLayout) : Except BusError VideoSpace := do
  let space ← wireNametables AddressSpace.empty layout
  let space ← space.linkBlock 0x3000 0x2000 0x0F00
  let space := space.linkAll backdropPairs
  let space := space.linkRepeating 0x3F00 0x20 0x3FFF
  return space.linkRepeating 0x0000 0x4000 0xFFFF

/-- No call is refused, and the calls make the links of `wired`. -/
theorem wire_eq (layout : NametableLayout) : wire layout = .ok (wired layout) := by
  rw [wire, wireNametables_eq]
  simp only [bind, Except.bind]
  rw [AddressSpace.linkBlock_of_fits _ (by decide) (by decide) (by decide)]
  simp only [wired, pairs, AddressSpace.linkAll_append, AddressSpace.linkRepeating, pure,
    Except.pure]

theorem bytes_wired (layout : NametableLayout) : (wired layout).bytes = Memory.zeros := by
  rw [wired, AddressSpace.bytes_linkAll]
  rfl

end VideoSpace

end NesMachine
