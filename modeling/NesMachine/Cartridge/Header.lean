/-!
# Cartridge headers

An image starts with sixteen bytes: a magic word, the numbers of program and character
banks, and two bytes of flags that tell the mapper, the arrangement of the nametables, and
whether a battery and a trainer are present. `Header.parse` reads them.
-/

namespace NesMachine

/-- The bytes of a cartridge image. -/
abbrev Image := Array UInt8

/-- Which nametables share their memory. -/
inductive NametableLayout where
  /-- The first and second share, and the third and fourth. -/
  | horizontal
  /-- The first and third share, and the second and fourth. -/
  | vertical
  /-- The cartridge brings memory for all four. -/
  | fourScreen
deriving DecidableEq

/-- Why an image is rejected. -/
inductive CartridgeError where
  /-- The image has fewer bytes than a header. -/
  | shortHeader (size : Nat)
  /-- The image does not start with the magic word. -/
  | missingMagic
  /-- The header announces no program bank. -/
  | noProgram
  /-- The banks that the header announces are not all there. -/
  | truncated (needed found : Nat)
  /-- The cartridge needs circuits that switch banks. -/
  | unsupportedMapper (mapper : UInt8)
deriving DecidableEq

/-- The wording of a rejection. -/
def CartridgeError.message : CartridgeError → String
  | .shortHeader size => "invalid ROM format: header too short: " ++ toString size ++ " bytes"
  | .missingMagic => "invalid ROM format: missing NES\\x1A magic"
  | .noProgram => "invalid ROM format: no PRG ROM banks"
  | .truncated needed found =>
    "invalid ROM format: truncated image: need " ++ toString needed
      ++ " bytes after the header, got " ++ toString found
  | .unsupportedMapper mapper => "unsupported mapper: " ++ toString mapper.toNat

/-- What the header of an image says. -/
structure Header where
  /-- The number of program banks. -/
  prgBanks : UInt8
  /-- The number of character banks; zero if the cartridge has memory in their place. -/
  chrBanks : UInt8
  mapper : UInt8
  layout : NametableLayout
  hasBattery : Bool
  hasTrainer : Bool
deriving DecidableEq

namespace Header

/-- The number of bytes of a header. -/
def size : Nat := 16

/-- The bytes that every image starts with. -/
def magic : List UInt8 := [0x4E, 0x45, 0x53, 0x1A]

/-- The byte of an image at an offset; zero behind its end. -/
def byteAt (image : Image) (offset : Nat) : UInt8 := image.getD offset 0

/-- The nametable layout in the first flag byte; four screens go before the other bit. -/
def layoutOf (flags : UInt8) : NametableLayout :=
  if flags &&& 0x08 != 0 then .fourScreen
  else if flags &&& 0x01 != 0 then .vertical
  else .horizontal

/-- The mapper number, whose halves are the high halves of the two flag bytes. -/
def mapperOf (low high : UInt8) : UInt8 :=
  (high &&& (0xF0 : UInt8)) ||| (low >>> 4)

/-- Reads the header of an image. -/
def parse (image : Image) : Except CartridgeError Header :=
  if image.size < size then .error (.shortHeader image.size)
  else if [byteAt image 0, byteAt image 1, byteAt image 2, byteAt image 3] ≠ magic then
    .error .missingMagic
  else
    let flags := byteAt image 6
    .ok {
      prgBanks := byteAt image 4
      chrBanks := byteAt image 5
      mapper := mapperOf flags (byteAt image 7)
      layout := layoutOf flags
      hasBattery := flags &&& 0x02 != 0
      hasTrainer := flags &&& 0x04 != 0 }

end Header

end NesMachine
