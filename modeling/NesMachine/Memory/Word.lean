/-!
# Words and bytes

A word is made of a low and a high byte. `toNat_wordOf` gives its value; splitting a word and
joining its halves are inverse to each other.
-/

namespace NesMachine

/-- The word of two bytes, the low one first. -/
def wordOf (low high : UInt8) : UInt16 := high.toUInt16 * 256 + low.toUInt16

/-- The low byte of a word. -/
def lowByte (w : UInt16) : UInt8 := w.toUInt8

/-- The high byte of a word, which is the number of its page. -/
def highByte (w : UInt16) : UInt8 := (w / 256).toUInt8

theorem toNat_wordOf (low high : UInt8) :
    (wordOf low high).toNat = 256 * high.toNat + low.toNat := by
  have hl := low.toNat_lt
  have hh := high.toNat_lt
  simp only [wordOf, UInt16.toNat_add, UInt16.toNat_mul, UInt8.toNat_toUInt16,
    show (256 : UInt16).toNat = 256 from rfl]
  omega

theorem wordOf_eq_ofNat (low high : UInt8) :
    wordOf low high = UInt16.ofNat (256 * high.toNat + low.toNat) := by
  apply UInt16.toNat_inj.1
  rw [← toNat_wordOf, UInt16.toNat_ofNat', Nat.mod_eq_of_lt (wordOf low high).toNat_lt]

theorem toNat_lowByte (w : UInt16) : (lowByte w).toNat = w.toNat % 256 := by
  simp [lowByte]

theorem toNat_highByte (w : UInt16) : (highByte w).toNat = w.toNat / 256 := by
  have hw := w.toNat_lt
  simp only [highByte, UInt16.toNat_toUInt8, UInt16.toNat_div,
    show (256 : UInt16).toNat = 256 from rfl]
  omega

@[simp] theorem lowByte_wordOf (low high : UInt8) : lowByte (wordOf low high) = low := by
  have hl := low.toNat_lt
  apply UInt8.toNat_inj.1
  rw [toNat_lowByte, toNat_wordOf]
  omega

@[simp] theorem highByte_wordOf (low high : UInt8) : highByte (wordOf low high) = high := by
  have hl := low.toNat_lt
  apply UInt8.toNat_inj.1
  rw [toNat_highByte, toNat_wordOf]
  omega

@[simp] theorem wordOf_lowByte_highByte (w : UInt16) : wordOf (lowByte w) (highByte w) = w := by
  apply UInt16.toNat_inj.1
  rw [toNat_wordOf, toNat_lowByte, toNat_highByte]
  omega

theorem wordOf_inj {low low' high : UInt8} (h : wordOf low high = wordOf low' high) :
    low = low' := by
  have hlow := congrArg lowByte h
  rw [lowByte_wordOf, lowByte_wordOf] at hlow
  exact hlow

end NesMachine
