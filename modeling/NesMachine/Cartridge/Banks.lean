import NesMachine.Cartridge.Header

/-!
# Cartridge banks

The bytes after the header are an optional trainer, the program banks and the character
banks, each of fixed size and one after the other. `Banks.slice` cuts out the region of the
program banks and that of the character banks, and cuts each of them into chunks of the size
of a bank; bytes behind the last bank are ignored. There is at least one program bank, and
the processor sees two of them at a time: `window` shows the first two, or the only one twice.
-/

namespace NesMachine

/-- Sixteen kilobytes of program. -/
abbrev PrgBank := Vector UInt8 0x4000

/-- Eight kilobytes of characters. -/
abbrev ChrBank := Vector UInt8 0x2000

/-- The read-only memory of a cartridge. -/
structure Banks where
  prg : Array PrgBank
  chr : Array ChrBank
  prg_nonempty : 0 < prg.size

namespace Banks

/-- The number of bytes of a trainer. -/
def trainerSize : Nat := 512

/-! ### Chunks -/

theorem size_chunk {size i : Nat} {bytes : Image} (hi : i < bytes.size / size) :
    (bytes.extract (size * i) (size * (i + 1))).size = size := by
  have hfits : size * (i + 1) ≤ bytes.size :=
    Nat.le_trans (Nat.mul_le_mul_left size hi) (Nat.mul_div_le bytes.size size)
  rw [Array.size_extract, Nat.min_eq_left hfits, Nat.mul_add, Nat.mul_one, Nat.add_sub_cancel_left]

/-- The whole chunks of one size that some bytes start with, one after the other. What is left
over at the end makes no chunk. -/
def chunks (size : Nat) (bytes : Image) : Array (Vector UInt8 size) :=
  Array.ofFn fun i : Fin (bytes.size / size) =>
    ⟨bytes.extract (size * i) (size * (i + 1)), size_chunk i.isLt⟩

/-- The first banks of a region, at most as many as are counted. -/
def firstBanks (size count : Nat) (region : Image) : Array (Vector UInt8 size) :=
  (chunks size region).take count

/-- A region of the right size is cut up without a rest. -/
theorem size_firstBanks {size count : Nat} {region : Image} (hsize : 0 < size)
    (hregion : region.size = size * count) : (firstBanks size count region).size = count := by
  rw [firstBanks, chunks, Array.take_eq_extract, Array.size_extract, Array.size_ofFn, hregion,
    Nat.mul_div_cancel_left count hsize, Nat.min_self, Nat.sub_zero]

/-! ### Regions -/

/-- Where the program banks start, counted from the end of the header. -/
def prgStart (header : Header) : Nat := if header.hasTrainer then trainerSize else 0

/-- Where the character banks start, counted from the end of the header. -/
def chrStart (header : Header) : Nat := prgStart header + 0x4000 * header.prgBanks.toNat

/-- How many bytes must follow the header. -/
def needed (header : Header) : Nat := chrStart header + 0x2000 * header.chrBanks.toNat

/-- The region of the program banks. -/
def prgRegion (header : Header) (body : Image) : Image :=
  body.extract (prgStart header) (chrStart header)

/-- The region of the character banks. -/
def chrRegion (header : Header) (body : Image) : Image :=
  body.extract (chrStart header) (needed header)

theorem size_prgRegion {header : Header} {body : Image} (h : needed header ≤ body.size) :
    (prgRegion header body).size = 0x4000 * header.prgBanks.toNat := by
  have hends : chrStart header ≤ needed header := Nat.le_add_right _ _
  rw [prgRegion, Array.size_extract, Nat.min_eq_left (Nat.le_trans hends h), chrStart,
    Nat.add_sub_cancel_left]

/-- Cuts the banks out of the bytes that follow the header. -/
def slice (header : Header) (body : Image) : Except CartridgeError Banks :=
  if hprg : 0 < header.prgBanks.toNat then
    if hbody : body.size < needed header then .error (.truncated (needed header) body.size)
    else
      .ok {
        prg := firstBanks 0x4000 header.prgBanks.toNat (prgRegion header body)
        chr := firstBanks 0x2000 header.chrBanks.toNat (chrRegion header body)
        prg_nonempty := by
          rw [size_firstBanks (by decide) (size_prgRegion (Nat.le_of_not_lt hbody))]
          exact hprg }
  else .error .noProgram

/-- The banks in the lower and the upper half of the program window. -/
def window (banks : Banks) : PrgBank × PrgBank :=
  have := banks.prg_nonempty
  let lower := banks.prg[0]
  (lower, banks.prg.getD 1 lower)

end Banks

end NesMachine
