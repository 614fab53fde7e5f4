import NesMachine.Cartridge.Basic

/-!
# The layout of an image

`Cartridge.ofImage` reads an image piece by piece.  Here the outcome is told by the bytes of the
image alone: which images are accepted, why the others are rejected, and where in the image the
banks lie.

* `Banks.firstBanks_extract`: the chunks of a region as banks at their offsets;
* `Image.requirements`: what is required of an image, in the order in which it is checked, each with
  the rejection of an image that does not meet it;
* `Cartridge.ofImage_eq`: the same order as a chain of tests, at whose end stands
  `Image.announced`, the cartridge cut out of the image;
* `Banks.LaidOut`: the place of every byte of every bank;
* `Cartridge.ofImage_layout`: reading an image, as a whole.
-/

namespace NesMachine

namespace Banks

/-! ### Banks by their offsets -/

/-- The bytes of an image from an offset on. -/
def bankAt (size : Nat) (image : Image) (offset : Nat) : Vector UInt8 size :=
  Vector.ofFn fun i => Header.byteAt image (offset + i)

/-- The given number of consecutive banks from an offset on. -/
def banksAt (size count : Nat) (image : Image) (offset : Nat) : Array (Vector UInt8 size) :=
  Array.ofFn fun i : Fin count => bankAt size image (offset + size * i)

theorem size_banksAt (size count : Nat) (image : Image) (offset : Nat) :
    (banksAt size count image offset).size = count := by
  simp [banksAt]

/-- The chunks of a region that lies within an image are the banks at its offset. -/
theorem firstBanks_extract {size count offset : Nat} {image : Image} (hsize : 0 < size)
    (h : offset + size * count ≤ image.size) :
    firstBanks size count (image.extract offset (offset + size * count)) =
      banksAt size count image offset := by
  have hregion : (image.extract offset (offset + size * count)).size = size * count := by
    rw [Array.size_extract, Nat.min_eq_left h, Nat.add_sub_cancel_left]
  have hcount := size_firstBanks hsize hregion
  refine Array.ext (by rw [hcount, size_banksAt]) ?_
  intro i hi _
  rw [hcount] at hi
  have hbank : size * i + size ≤ size * count := by
    rw [← Nat.mul_succ]
    exact Nat.mul_le_mul_left size hi
  simp only [firstBanks, chunks, banksAt, Array.take_eq_extract, Array.getElem_extract,
    Array.getElem_ofFn, Nat.zero_add]
  apply Vector.ext
  intro j hj
  have hbyte : offset + size * i + j < image.size := by omega
  simp only [bankAt, Vector.getElem_mk, Vector.getElem_ofFn, Array.getElem_extract, Header.byteAt,
    Nat.add_assoc, Array.getD_eq_getD_getElem?]
  rw [Array.getElem?_eq_getElem (by omega), Option.getD_some]

end Banks

namespace Image

/-! ### What the first bytes announce -/

/-- The number of program banks. -/
def prgCount (image : Image) : Nat := (Header.byteAt image 4).toNat

/-- The number of character banks. -/
def chrCount (image : Image) : Nat := (Header.byteAt image 5).toNat

/-- The size of the trainer, which bit 2 of the first flag byte announces. -/
def trainer (image : Image) : Nat := if (Header.byteAt image 6).toNat.testBit 2 then 512 else 0

/-- The mapper: the high half of the second flag byte, and then that of the first. -/
def mapper (image : Image) : Nat :=
  16 * ((Header.byteAt image 7).toNat / 16) + (Header.byteAt image 6).toNat / 16

/-- Where a program bank starts. -/
def prgOffset (image : Image) (i : Nat) : Nat := 16 + image.trainer + 16384 * i

/-- Where a character bank starts. -/
def chrOffset (image : Image) (i : Nat) : Nat := image.prgOffset image.prgCount + 8192 * i

/-- Where the last bank ends. -/
def extent (image : Image) : Nat := image.chrOffset image.chrCount

theorem extent_eq (image : Image) :
    image.extent = 16 + image.trainer + 16384 * image.prgCount + 8192 * image.chrCount := rfl

/-- What is required of an image, in the order in which it is checked, each with the rejection of
an image that does not meet it. -/
def requirements (image : Image) : List (Bool × CartridgeError) :=
  [(16 ≤ image.size, .shortHeader image.size),
   (image.extract 0 4 = #[0x4E, 0x45, 0x53, 0x1A], .missingMagic),
   (image.mapper = 0, .unsupportedMapper (UInt8.ofNat image.mapper)),
   (1 ≤ image.prgCount, .noProgram),
   (image.extent ≤ image.size, .truncated (image.extent - 16) (image.size - 16))]

/-- The rejection that goes with the first requirement that an image does not meet. -/
def defect? (image : Image) : Option CartridgeError :=
  (image.requirements.find? fun r => !r.1).map Prod.snd

theorem defect?_eq_none {image : Image} :
    image.defect? = none ↔
      16 ≤ image.size ∧ image.extract 0 4 = #[0x4E, 0x45, 0x53, 0x1A] ∧ image.mapper = 0 ∧
        1 ≤ image.prgCount ∧ image.extent ≤ image.size := by
  simp [defect?, requirements]

/-- The header that the first bytes make. -/
def header (image : Image) : Header where
  prgBanks := Header.byteAt image 4
  chrBanks := Header.byteAt image 5
  mapper := Header.mapperOf (Header.byteAt image 6) (Header.byteAt image 7)
  layout := Header.layoutOf (Header.byteAt image 6)
  hasBattery := Header.byteAt image 6 &&& 0x02 != 0
  hasTrainer := Header.byteAt image 6 &&& 0x04 != 0

/-- The cartridge cut out of an image. -/
def announced (image : Image) (h : 1 ≤ image.prgCount) : Cartridge where
  header := image.header
  banks := {
    prg := Banks.banksAt 0x4000 image.prgCount image (image.prgOffset 0)
    chr := Banks.banksAt 0x2000 image.chrCount image (image.chrOffset 0)
    prg_nonempty := by
      rw [Banks.size_banksAt]
      exact h }

/-! ### The fields of the header as numbers -/

theorem hasTrainer_iff (flags : UInt8) : (flags &&& 0x04 != 0) = flags.toNat.testBit 2 := by
  obtain ⟨bits⟩ := flags
  revert bits
  decide +kernel

theorem toNat_mapperOf (low high : UInt8) :
    (Header.mapperOf low high).toNat = 16 * (high.toNat / 16) + low.toNat / 16 := by
  have hhigh : (high &&& 0xF0).toNat = 2 ^ 4 * (high.toNat / 16) := by
    obtain ⟨bits⟩ := high
    revert bits
    decide +kernel
  have hlow : (low >>> 4).toNat = low.toNat / 16 := by
    rw [UInt8.toNat_shiftRight, Nat.shiftRight_eq_div_pow]
    rfl
  have hhalf : low.toNat / 16 < 2 ^ 4 := by
    have hlt := low.toNat_lt
    omega
  rw [Header.mapperOf, UInt8.toNat_or, hhigh, hlow, ← Nat.two_pow_add_eq_or_of_lt hhalf]

theorem toNat_header_mapper (image : Image) : image.header.mapper.toNat = image.mapper :=
  toNat_mapperOf _ _

theorem header_mapper_ne_zero {image : Image} : image.header.mapper ≠ 0 ↔ image.mapper ≠ 0 := by
  rw [← toNat_header_mapper, ne_eq, ← UInt8.toNat_inj]
  rfl

theorem prgStart_header (image : Image) : 16 + Banks.prgStart image.header = image.prgOffset 0 := by
  rw [Banks.prgStart, show image.header.hasTrainer = _ from hasTrainer_iff _]
  rfl

theorem chrStart_header (image : Image) : 16 + Banks.chrStart image.header = image.chrOffset 0 := by
  rw [Banks.chrStart, ← Nat.add_assoc, prgStart_header]
  rfl

theorem needed_header (image : Image) : 16 + Banks.needed image.header = image.extent := by
  rw [Banks.needed, ← Nat.add_assoc, chrStart_header]
  rfl

theorem header_congr {image other : Image}
    (h : ∀ k < 16, Header.byteAt other k = Header.byteAt image k) : other.header = image.header := by
  rw [header, header, h 4 (by decide), h 5 (by decide), h 6 (by decide), h 7 (by decide)]

theorem prgOffset_congr {image other : Image} (h : other.header = image.header) (i : Nat) :
    other.prgOffset i = image.prgOffset i := by
  have hstart : other.prgOffset 0 = image.prgOffset 0 := by
    rw [← prgStart_header, h, prgStart_header]
  exact congrArg (· + 16384 * i) hstart

theorem chrOffset_congr {image other : Image} (h : other.header = image.header) (i : Nat) :
    other.chrOffset i = image.chrOffset i := by
  have hstart : other.chrOffset 0 = image.chrOffset 0 := by
    rw [← chrStart_header, h, chrStart_header]
  exact congrArg (· + 8192 * i) hstart

/-! ### Bytes behind the header -/

theorem getElem?_eq_byteAt {image : Image} {k : Nat} (h : k < image.size) :
    image[k]? = some (Header.byteAt image k) := by
  rw [Header.byteAt, Array.getD_eq_getD_getElem?, Array.getElem?_eq_getElem h]
  rfl

theorem byteAt_ofFn {n k : Nat} (byte : Fin n → UInt8) (h : k < n) :
    Header.byteAt (Array.ofFn byte) k = byte ⟨k, h⟩ := by
  rw [Header.byteAt, Array.getD_eq_getD_getElem?, Array.getElem?_ofFn, dif_pos h]
  rfl

/-- Images with the same first bytes are at least that long, and have these bytes. -/
theorem byteAt_of_extract {image other : Image} {n : Nat} (hn : n ≤ image.size)
    (h : other.extract 0 n = image.extract 0 n) :
    n ≤ other.size ∧ ∀ k < n, Header.byteAt other k = Header.byteAt image k := by
  have hlong : n ≤ other.size := by
    have hsizes := congrArg Array.size h
    rw [Array.size_extract, Array.size_extract] at hsizes
    omega
  refine ⟨hlong, ?_⟩
  intro k hk
  have hbytes := congrArg (fun bytes : Array UInt8 => bytes[k]?) h
  simp only [Array.getElem?_extract] at hbytes
  rw [if_pos (by omega), if_pos (by omega), Nat.zero_add, getElem?_eq_byteAt (by omega),
    getElem?_eq_byteAt (by omega)] at hbytes
  exact Option.some.inj hbytes

/-- A region behind the header, as counted from its end, is a region of the image. -/
theorem extract_body (image : Image) {start stop : Nat} (h : 16 + stop ≤ image.size) :
    (image.extract Header.size image.size).extract start stop =
      image.extract (16 + start) (16 + stop) := by
  rw [Array.extract_extract, Nat.min_eq_left (show Header.size + stop ≤ image.size from h)]
  rfl

theorem prgRegion_body {image : Image} (h : image.extent ≤ image.size) :
    Banks.prgRegion image.header (image.extract Header.size image.size) =
      image.extract (image.prgOffset 0) (image.prgOffset 0 + 0x4000 * image.prgCount) := by
  have hends : image.chrOffset 0 ≤ image.extent := Nat.add_le_add_left (Nat.zero_le _) _
  rw [Banks.prgRegion, extract_body image (by rw [chrStart_header]; exact Nat.le_trans hends h),
    prgStart_header, chrStart_header]
  rfl

theorem chrRegion_body {image : Image} (h : image.extent ≤ image.size) :
    Banks.chrRegion image.header (image.extract Header.size image.size) =
      image.extract (image.chrOffset 0) (image.chrOffset 0 + 0x2000 * image.chrCount) := by
  rw [Banks.chrRegion, extract_body image (by rw [needed_header]; exact h), chrStart_header,
    needed_header]
  rfl

end Image

namespace Banks

theorem banksAt_congr {size count offset offset' : Nat} {image image' : Image}
    (h : ∀ k < size * count, Header.byteAt image (offset + k) = Header.byteAt image' (offset' + k)) :
    banksAt size count image offset = banksAt size count image' offset' := by
  unfold banksAt bankAt
  congr
  funext i
  congr
  funext j
  have hbank : size * i + j < size * count := by
    calc size * i + j < size * i + size := by omega
      _ = size * (i + 1) := (Nat.mul_succ size i).symm
      _ ≤ size * count := Nat.mul_le_mul_left size i.isLt
  have hbyte := h (size * i + j) hbank
  rw [← Nat.add_assoc, ← Nat.add_assoc] at hbyte
  exact hbyte

theorem getElem_banksAt {size count offset : Nat} {image : Image} {i j : Nat}
    (hi : i < (banksAt size count image offset).size) (hj : j < size) :
    (banksAt size count image offset)[i][j] = Header.byteAt image (offset + size * i + j) := by
  simp [banksAt, bankAt]

/-- The banks are those of an image, byte by byte: each byte of a bank is there in the image, at its
place.  The window shows the first two program banks, or the only one twice. -/
structure LaidOut (banks : Banks) (image : Image) : Prop where
  prg_size : banks.prg.size = image.prgCount
  chr_size : banks.chr.size = image.chrCount
  prg : ∀ i j (hi : i < banks.prg.size) (hj : j < 16384),
    image[image.prgOffset i + j]? = some banks.prg[i][j]
  chr : ∀ i j (hi : i < banks.chr.size) (hj : j < 8192),
    image[image.chrOffset i + j]? = some banks.chr[i][j]
  lower : banks.prg[0]? = some banks.window.1
  upper : banks.prg[if image.prgCount = 1 then 0 else 1]? = some banks.window.2

variable {banks : Banks} {image : Image} {j : Nat}

theorem LaidOut.lower_byte (h : banks.LaidOut image) (hj : j < 16384) :
    image[image.prgOffset 0 + j]? = some banks.window.1[j] := by
  obtain ⟨hfirst, hbank⟩ := Array.getElem?_eq_some_iff.mp h.lower
  rw [h.prg 0 j hfirst hj, hbank]

theorem LaidOut.upper_byte (h : banks.LaidOut image) (hj : j < 16384) :
    image[image.prgOffset (if image.prgCount = 1 then 0 else 1) + j]? = some banks.window.2[j] := by
  obtain ⟨hlast, hbank⟩ := Array.getElem?_eq_some_iff.mp h.upper
  rw [h.prg _ j hlast hj, hbank]

/-- The window is always within the banks. -/
theorem window_eq (banks : Banks) :
    banks.prg[0]? = some banks.window.1 ∧
      banks.prg[if banks.prg.size = 1 then 0 else 1]? = some banks.window.2 := by
  have hsome := banks.prg_nonempty
  refine ⟨Array.getElem?_eq_getElem hsome, ?_⟩
  rw [window]
  by_cases hone : banks.prg.size = 1
  · rw [if_pos hone, Array.getElem?_eq_getElem hsome, Array.getD_eq_getD_getElem?,
      Array.getElem?_eq_none (by omega)]
    rfl
  · have htwo : 1 < banks.prg.size := by omega
    rw [if_neg hone, Array.getElem?_eq_getElem htwo, Array.getD_eq_getD_getElem?,
      Array.getElem?_eq_getElem htwo]
    rfl

end Banks

/-! ### Reading an image -/

namespace Image

variable {image : Image}

theorem extract_magic (h : 16 ≤ image.size) :
    image.extract 0 4 = #[Header.byteAt image 0, Header.byteAt image 1, Header.byteAt image 2,
      Header.byteAt image 3] := by
  have hbyte (k : Nat) (hk : k < 4) :
      (image.extract 0 4)[k]? = some (Header.byteAt image k) := by
    rw [Array.getElem?_extract, if_pos (by omega), Nat.zero_add, getElem?_eq_byteAt (by omega)]
  have hsize : (image.extract 0 4).size = 4 := by
    rw [Array.size_extract]
    omega
  apply Array.ext_getElem?
  intro k
  match k with
  | 0 => exact hbyte 0 (by decide)
  | 1 => exact hbyte 1 (by decide)
  | 2 => exact hbyte 2 (by decide)
  | 3 => exact hbyte 3 (by decide)
  | k + 4 => rw [Array.getElem?_eq_none (by omega), Array.getElem?_eq_none (by simp)]

/-- The first bytes are looked at in one piece. -/
theorem parse_eq (image : Image) :
    Header.parse image =
      if image.size < 16 then .error (.shortHeader image.size)
      else if image.extract 0 4 ≠ #[0x4E, 0x45, 0x53, 0x1A] then .error .missingMagic
      else .ok image.header := by
  by_cases hsize : image.size < 16
  · rw [if_pos hsize]
    exact if_pos hsize
  · rw [if_neg hsize, extract_magic (by omega), Header.parse, Header.size, if_neg hsize]
    simp only [Header.magic, ne_eq, Array.mk.injEq]
    rfl

/-- The banks behind the header, as counted from its end, are those of the image. -/
theorem slice_eq (h : 16 ≤ image.size) :
    Banks.slice image.header (image.extract Header.size image.size) =
      if hprg : 1 ≤ image.prgCount then
        if image.size < image.extent then
          .error (.truncated (image.extent - 16) (image.size - 16))
        else .ok (image.announced hprg).banks
      else .error .noProgram := by
  have hsize : (image.extract Header.size image.size).size = image.size - 16 := by
    rw [Array.size_extract, Nat.min_self]
    rfl
  have hneeded := image.needed_header
  rw [Banks.slice]
  by_cases hprg : 1 ≤ image.prgCount
  · rw [dif_pos hprg, dif_pos (show 0 < image.header.prgBanks.toNat from hprg)]
    by_cases hextent : image.size < image.extent
    · rw [if_pos hextent, dif_pos (by omega), hsize]
      congr 2
      omega
    · rw [if_neg hextent, dif_neg (by omega)]
      have hfits : image.extent ≤ image.size := Nat.le_of_not_lt hextent
      have hends : image.chrOffset 0 ≤ image.extent := Nat.add_le_add_left (Nat.zero_le _) _
      simp only [Except.ok.injEq, announced, Banks.mk.injEq, prgRegion_body hfits,
        chrRegion_body hfits]
      exact ⟨Banks.firstBanks_extract (by decide) (Nat.le_trans hends hfits),
        Banks.firstBanks_extract (by decide) hfits⟩
  · rw [dif_neg hprg, dif_neg (show ¬ 0 < image.header.prgBanks.toNat from hprg)]

end Image

namespace Cartridge

open Image

variable {image : Image}

/-- **The order of the checks.** -/
theorem ofImage_eq (image : Image) :
    ofImage image =
      if image.size < 16 then .error (.shortHeader image.size)
      else if image.extract 0 4 ≠ #[0x4E, 0x45, 0x53, 0x1A] then .error .missingMagic
      else if image.mapper ≠ 0 then .error (.unsupportedMapper (UInt8.ofNat image.mapper))
      else if h : 1 ≤ image.prgCount then
        if image.size < image.extent then
          .error (.truncated (image.extent - 16) (image.size - 16))
        else .ok (image.announced h)
      else .error .noProgram := by
  rw [ofImage, parse_eq]
  by_cases hsize : image.size < 16
  · rw [if_pos hsize, if_pos hsize]
    rfl
  rw [if_neg hsize, if_neg hsize]
  by_cases hmagic : image.extract 0 4 ≠ #[0x4E, 0x45, 0x53, 0x1A]
  · rw [if_pos hmagic, if_pos hmagic]
    rfl
  rw [if_neg hmagic, if_neg hmagic]
  simp only [bind, Except.bind]
  by_cases hmapper : image.mapper ≠ 0
  · rw [if_pos hmapper, if_pos (header_mapper_ne_zero.mpr hmapper), ← toNat_header_mapper,
      UInt8.ofNat_toNat]
    rfl
  rw [if_neg hmapper, if_neg fun hne => hmapper (header_mapper_ne_zero.mp hne)]
  simp only [pure, Except.pure, slice_eq (show 16 ≤ image.size by omega)]
  by_cases hprg : 1 ≤ image.prgCount
  · rw [dif_pos hprg, dif_pos hprg]
    by_cases hextent : image.size < image.extent
    · rw [if_pos hextent, if_pos hextent]
    · rw [if_neg hextent, if_neg hextent]
      rfl
  · rw [dif_neg hprg, dif_neg hprg]

/-- An image without a defect is cut up, and any other is rejected for its first defect. -/
theorem ofImage_cases (image : Image) :
    (image.defect? = none ∧ ∃ h, ofImage image = .ok (image.announced h)) ∨
      ∃ e, image.defect? = some e ∧ ofImage image = .error e := by
  rw [ofImage_eq]
  by_cases hsize : image.size < 16
  · exact .inr ⟨_, by simp [defect?, requirements, hsize], if_pos hsize⟩
  rw [if_neg hsize]
  by_cases hmagic : image.extract 0 4 ≠ #[0x4E, 0x45, 0x53, 0x1A]
  · exact .inr ⟨_, by simp [defect?, requirements, hsize, hmagic], if_pos hmagic⟩
  rw [if_neg hmagic]
  by_cases hmapper : image.mapper ≠ 0
  · exact .inr ⟨_, by simp [defect?, requirements, hsize, hmagic, hmapper], if_pos hmapper⟩
  rw [if_neg hmapper]
  by_cases hprg : 1 ≤ image.prgCount
  · rw [dif_pos hprg]
    by_cases hextent : image.size < image.extent
    · exact .inr ⟨_, by simp [defect?, requirements, hsize, hmagic, hmapper, hprg, hextent],
        if_pos hextent⟩
    · rw [if_neg hextent]
      have hmeets : image.defect? = none := by
        simp [defect?, requirements, hsize, hmagic, hmapper, hprg, hextent]
      exact .inl ⟨hmeets, hprg, rfl⟩
  · exact .inr ⟨_, by simp [defect?, requirements, hsize, hmagic, hmapper, hprg], dif_neg hprg⟩

/-- The banks of an image that holds them all are slices of it. -/
theorem laidOut_announced {h : 1 ≤ image.prgCount} (hextent : image.extent ≤ image.size) :
    (image.announced h).banks.LaidOut image := by
  have hprg : (image.announced h).banks.prg.size = image.prgCount := Banks.size_banksAt ..
  have hchr : (image.announced h).banks.chr.size = image.chrCount := Banks.size_banksAt ..
  have hwindow := (image.announced h).banks.window_eq
  rw [hprg] at hwindow
  refine ⟨hprg, hchr, ?_, ?_, hwindow.1, hwindow.2⟩
  · intro i j hi hj
    rw [show (image.announced h).banks.prg[i][j] = _ from Banks.getElem_banksAt hi hj]
    refine getElem?_eq_byteAt ?_
    rw [hprg] at hi
    rw [extent_eq] at hextent
    unfold prgOffset
    omega
  · intro i j hi hj
    rw [show (image.announced h).banks.chr[i][j] = _ from Banks.getElem_banksAt hi hj]
    refine getElem?_eq_byteAt ?_
    rw [hchr] at hi
    rw [extent_eq] at hextent
    unfold chrOffset prgOffset
    omega

theorem ofImage_eq_ok {cartridge : Cartridge} :
    ofImage image = .ok cartridge ↔
      image.defect? = none ∧ ∃ h, cartridge = image.announced h := by
  rcases ofImage_cases image with ⟨hnone, h, hok⟩ | ⟨e, hsome, herror⟩
  · rw [hok, hnone]
    refine ⟨?_, ?_⟩
    · intro heq
      cases heq
      exact ⟨rfl, h, rfl⟩
    · intro hparts
      obtain ⟨-, -, rfl⟩ := hparts
      rfl
  · rw [herror, hsome]
    simp

theorem ofImage_eq_error {e : CartridgeError} :
    ofImage image = .error e ↔ image.defect? = some e := by
  rcases ofImage_cases image with ⟨hnone, h, hok⟩ | ⟨e', hsome, herror⟩
  · rw [hok, hnone]
    simp
  · rw [herror, hsome]
    simp

theorem laidOut_of_ofImage {cartridge : Cartridge} (h : ofImage image = .ok cartridge) :
    cartridge.banks.LaidOut image := by
  obtain ⟨hnone, hprg, rfl⟩ := ofImage_eq_ok.mp h
  exact laidOut_announced (defect?_eq_none.mp hnone).2.2.2.2

/-- Two images that agree up to the end of the last bank make the same cartridge. -/
theorem ofImage_congr {other : Image} (h : image.defect? = none)
    (hsame : other.extract 0 image.extent = image.extract 0 image.extent) :
    ofImage other = ofImage image := by
  obtain ⟨hsize, hmagic, hmapper, hprg, hextent⟩ := defect?_eq_none.mp h
  have hbehind : 16 ≤ image.extent := by
    rw [extent_eq]
    omega
  obtain ⟨hlong, hbyte⟩ := byteAt_of_extract hextent hsame
  have hheader : other.header = image.header := header_congr fun k hk => hbyte k (by omega)
  have hprgCount : other.prgCount = image.prgCount :=
    congrArg (fun header : Header => header.prgBanks.toNat) hheader
  have hchrCount : other.chrCount = image.chrCount :=
    congrArg (fun header : Header => header.chrBanks.toNat) hheader
  have hprgAt := prgOffset_congr hheader
  have hchrAt := chrOffset_congr hheader
  have hend : other.extent = image.extent := by rw [extent, extent, hchrCount, hchrAt]
  have hnone : other.defect? = none := by
    refine defect?_eq_none.mpr ⟨by omega, ?_, ?_, by omega, by omega⟩
    · rw [← hmagic, extract_magic (by omega), extract_magic hsize, hbyte 0 (by omega),
        hbyte 1 (by omega), hbyte 2 (by omega), hbyte 3 (by omega)]
    · rw [← toNat_header_mapper, hheader, toNat_header_mapper]
      exact hmapper
  rw [ofImage_eq_ok.mpr ⟨h, hprg, rfl⟩, ofImage_eq_ok]
  refine ⟨hnone, by omega, ?_⟩
  simp only [announced, mk.injEq, Banks.mk.injEq, hheader, hprgCount, hchrCount, hprgAt, hchrAt,
    true_and]
  have hends : image.prgOffset 0 + 16384 * image.prgCount = image.chrOffset 0 := rfl
  have hlast : image.chrOffset 0 + 8192 * image.chrCount = image.extent := rfl
  refine ⟨Banks.banksAt_congr fun k hk => ?_, Banks.banksAt_congr fun k hk => ?_⟩
  · exact (hbyte _ (by omega)).symm
  · exact (hbyte _ (by omega)).symm

/-- **Reading an image.**  An image is accepted exactly if it has a header that starts with the magic
word, asks for no mapper and announces a program bank, and if all its banks are there; any other is
rejected for the first of these requirements that it does not meet.  Every byte of every bank is the
byte of the image at the place that the header gives it, the window shows the first two program banks
or the only one twice, and nothing behind the last bank matters. -/
theorem ofImage_layout (image : Image) :
    ((∃ cartridge, ofImage image = .ok cartridge) ↔
      16 ≤ image.size ∧ image.extract 0 4 = #[0x4E, 0x45, 0x53, 0x1A] ∧ image.mapper = 0 ∧
        1 ≤ image.prgCount ∧
        16 + image.trainer + 16384 * image.prgCount + 8192 * image.chrCount ≤ image.size) ∧
    (∀ e, ofImage image = .error e ↔ image.defect? = some e) ∧
    ∀ cartridge, ofImage image = .ok cartridge →
      cartridge.banks.LaidOut image ∧
        ∀ other : Image, other.extract 0 image.extent = image.extract 0 image.extent →
          ofImage other = .ok cartridge := by
  refine ⟨?_, fun e => ofImage_eq_error, ?_⟩
  · rw [← extent_eq, ← defect?_eq_none]
    refine ⟨?_, ?_⟩
    · intro haccepted
      obtain ⟨cartridge, hok⟩ := haccepted
      exact (ofImage_eq_ok.mp hok).1
    · intro hnone
      exact ⟨_, ofImage_eq_ok.mpr ⟨hnone, (defect?_eq_none.mp hnone).2.2.2.1, rfl⟩⟩
  · intro cartridge hok
    refine ⟨laidOut_of_ofImage hok, ?_⟩
    intro other hsame
    rw [ofImage_congr (ofImage_eq_ok.mp hok).1 hsame, hok]

end Cartridge

/-! ### An image with everything in it -/

/-- The start of an image with a trainer, two program banks and one character bank. -/
def Image.trainedHeader : List UInt8 := [0x4E, 0x45, 0x53, 0x1A, 2, 1, 5, 0]

/-- That image, with some bytes behind its last bank.  Behind the header each byte is the low byte of
its place. -/
def Image.trained : Image :=
  Array.ofFn fun k : Fin 41500 => Image.trainedHeader.getD k (UInt8.ofNat k)

namespace Image

theorem byteAt_trained {k : Nat} (h : k < 41500) :
    Header.byteAt trained k = trainedHeader.getD k (UInt8.ofNat k) := byteAt_ofFn _ h

theorem getElem?_trained {k : Nat} (h : 8 ≤ k) (hk : k < 41500) :
    trained[k]? = some (UInt8.ofNat k) := by
  rw [getElem?_eq_byteAt (by rw [trained, Array.size_ofFn]; exact hk), byteAt_trained hk,
    List.getD_eq_getElem?_getD, List.getElem?_eq_none (by exact h)]
  rfl

theorem announced_by_trained :
    trained.prgCount = 2 ∧ trained.chrCount = 1 ∧ trained.trainer = 512 ∧ trained.mapper = 0 := by
  have h₄ : Header.byteAt trained 4 = 2 := byteAt_trained (by decide)
  have h₅ : Header.byteAt trained 5 = 1 := byteAt_trained (by decide)
  have h₆ : Header.byteAt trained 6 = 5 := byteAt_trained (by decide)
  have h₇ : Header.byteAt trained 7 = 0 := byteAt_trained (by decide)
  refine ⟨?_, ?_, ?_, ?_⟩
  · rw [prgCount, h₄]
    rfl
  · rw [chrCount, h₅]
    rfl
  · rw [trainer, h₆]
    rfl
  · rw [mapper, h₆, h₇]
    rfl

theorem extent_trained : trained.extent = 41488 := by
  obtain ⟨hprg, hchr, htrainer, -⟩ := announced_by_trained
  rw [extent_eq, hprg, hchr, htrainer]

theorem defect?_trained : trained.defect? = none := by
  obtain ⟨hprg, hchr, htrainer, hmapper⟩ := announced_by_trained
  have hsize : trained.size = 41500 := Array.size_ofFn
  have hextent := extent_trained
  refine defect?_eq_none.mpr ⟨by omega, ?_, hmapper, by omega, by omega⟩
  rw [extract_magic (by omega), byteAt_trained (by decide), byteAt_trained (by decide),
    byteAt_trained (by decide), byteAt_trained (by decide)]
  decide

end Image

/-- The trainer is skipped, the upper half of the window is the second bank, and the image without
the bytes behind its last bank makes the same cartridge. -/
theorem Cartridge.trained_image_cut_up :
    ∃ cartridge, Cartridge.ofImage Image.trained = .ok cartridge ∧
      cartridge.banks.prg.size = 2 ∧ cartridge.banks.chr.size = 1 ∧
      Image.trained[16 + 512 + 16384 + 5]? = some cartridge.banks.window.2[5] ∧
      Cartridge.ofImage (Image.trained.extract 0 41488) = .ok cartridge := by
  obtain ⟨hprg, hchr, htrainer, -⟩ := Image.announced_by_trained
  obtain ⟨haccepted, -, hcut⟩ := Cartridge.ofImage_layout Image.trained
  have hrequired := Image.defect?_eq_none.mp Image.defect?_trained
  rw [Image.extent_eq] at hrequired
  obtain ⟨cartridge, hok⟩ := haccepted.mpr hrequired
  obtain ⟨hlaid, htail⟩ := hcut cartridge hok
  have hbyte := hlaid.upper_byte (j := 5) (by decide)
  rw [hprg, if_neg (by decide), Image.prgOffset, htrainer] at hbyte
  refine ⟨cartridge, hok, hlaid.prg_size.trans hprg, hlaid.chr_size.trans hchr, hbyte, htail _ ?_⟩
  rw [Image.extent_trained, Array.extract_extract]
  rfl

end NesMachine
