import NesMachine.Cartridge.Banks

/-!
# Cartridges

A cartridge without bank switching: the header of its image and the banks behind it.
-/

namespace NesMachine

/-- A header and the banks that it announces. -/
structure Cartridge where
  header : Header
  banks : Banks

/-- Reads a complete image. Of several defects the header's come first, then the mapper, then
those of the banks. -/
def Cartridge.ofImage (image : Image) : Except CartridgeError Cartridge := do
  let header ← Header.parse image
  if header.mapper ≠ 0 then throw (.unsupportedMapper header.mapper)
  let banks ← Banks.slice header (image.extract Header.size image.size)
  return ⟨header, banks⟩

end NesMachine
