import Mathlib.Data.Nat.Digits.Lemmas
import NesMachine.Query.Address
import NesMachine.Query.Value

/-!
# Numerals and addresses

Which texts are numerals, and which number a numeral stands for, is said here without the reader: by
the digits of the text and the value of digits in a radix.

* `Text.IsNumeral`: an optional plus sign and at least one digit;
* `Text.numeral_eq_some`: the reader accepts the numerals up to its limit, whatever zeros lead them;
* `IsAddress`: a marked hexadecimal numeral or a decimal one;
* `map_toNat_parseAddress`: which texts name an address, and which;
* `parseAddress_word`, `parseAddress_byte`: words and bytes as they are shown name themselves.
-/

namespace NesMachine

namespace Text

/-- The character stands for a digit of the radix, in either case. -/
def IsDigit (radix : Nat) (c : Char) (d : Nat) : Prop :=
  d < radix ∧ (c = d.digitChar ∨ c = d.digitChar.toUpper)

/-- The text is a numeral for a number: an optional plus sign and at least one digit. -/
def IsNumeral (radix : Nat) (text : List Char) (n : Nat) : Prop :=
  ∃ sign chars digits, (sign = [] ∨ sign = ['+']) ∧ text = sign ++ chars ∧ digits ≠ [] ∧
    List.Forall₂ (IsDigit radix) chars digits ∧ n = Nat.ofDigits radix digits.reverse

variable {radix : Nat}

/-! ### Digits -/

/-- A character of a block of digits, from its place in the block. -/
theorem eq_ofNat_of_le {first c : Char} (h : first ≤ c) :
    c = Char.ofNat (first.toNat + (c.toNat - first.toNat)) := by
  have hle : first.toNat ≤ c.toNat := h
  rw [Nat.add_sub_cancel' hle, Char.ofNat_toNat]

theorem digitValue_eq_some (hradix : radix ≤ 16) {c : Char} {d : Nat} :
    digitValue radix c = some d ↔ IsDigit radix c d := by
  have hdecimal : ∀ d < 10, d.digitChar = Char.ofNat (48 + d) := by decide
  have hlower : ∀ d < 6, (d + 10).digitChar = Char.ofNat (97 + d) := by decide
  have hupper : ∀ d < 6, (d + 10).digitChar.toUpper = Char.ofNat (65 + d) := by decide
  unfold digitValue
  simp only [Option.filter_eq_some_iff, decide_eq_true_eq]
  refine ⟨?_, ?_⟩
  · -- the three blocks of digits, each by the place of the character in it
    intro h
    obtain ⟨hvalue, hlt⟩ := h
    refine ⟨hlt, ?_⟩
    split at hvalue
    · rename_i hblock
      have hlast : c.toNat ≤ 57 := hblock.2
      have hplace : c = Char.ofNat (48 + (c.toNat - 48)) := eq_ofNat_of_le hblock.1
      cases hvalue
      exact .inl (hplace.trans (hdecimal _ (by omega)).symm)
    · split at hvalue
      · rename_i hblock
        have hfirst : 97 ≤ c.toNat := hblock.1
        have hlast : c.toNat ≤ 102 := hblock.2
        have hplace : c = Char.ofNat (97 + (c.toNat - 97)) := eq_ofNat_of_le hblock.1
        cases hvalue
        have hdigit := hlower (c.toNat - 97) (by omega)
        rw [show c.toNat - 97 + 10 = c.toNat - 87 by omega] at hdigit
        exact .inl (hplace.trans hdigit.symm)
      · split at hvalue
        · rename_i hblock
          have hfirst : 65 ≤ c.toNat := hblock.1
          have hlast : c.toNat ≤ 70 := hblock.2
          have hplace : c = Char.ofNat (65 + (c.toNat - 65)) := eq_ofNat_of_le hblock.1
          cases hvalue
          have hdigit := hupper (c.toNat - 65) (by omega)
          rw [show c.toNat - 65 + 10 = c.toNat - 55 by omega] at hdigit
          exact .inr (hplace.trans hdigit.symm)
        · cases hvalue
  · intro h
    obtain ⟨hlt, hchar⟩ := h
    refine ⟨?_, hlt⟩
    have hsixteen : d < 16 := by omega
    clear hlt
    rcases hchar with rfl | rfl
    · revert d
      decide
    · revert d
      decide

/-- No digit is a plus sign. -/
theorem IsDigit.ne_plus (hradix : radix ≤ 16) {c : Char} {d : Nat} (h : IsDigit radix c d) :
    c ≠ '+' := by
  rintro rfl
  have hvalue := (digitValue_eq_some hradix).mpr h
  have hnone : digitValue radix '+' = none := rfl
  rw [hnone] at hvalue
  cases hvalue

/-! ### Runs of digits -/

/-- Reading digits behind a number continues it. -/
theorem readDigits_eq_some (hradix : radix ≤ 16) {acc n : Nat} {chars : List Char} :
    readDigits radix acc chars = some n ↔
      ∃ digits, List.Forall₂ (IsDigit radix) chars digits ∧
        n = Nat.ofDigits radix (digits.reverse ++ [acc]) := by
  induction chars generalizing acc with
  | nil =>
    simp only [readDigits, List.forall₂_nil_left_iff, exists_eq_left, List.reverse_nil,
      List.nil_append, Nat.ofDigits_singleton, Option.some.injEq]
    exact eq_comm
  | cons c chars ih =>
    rw [readDigits]
    have hvalue (d : Nat) (digits : List Nat) :
        Nat.ofDigits radix ((d :: digits).reverse ++ [acc]) =
          Nat.ofDigits radix (digits.reverse ++ [acc * radix + d]) := by
      have hlow : Nat.ofDigits radix ([d] ++ [acc]) = Nat.ofDigits radix [acc * radix + d] := by
        rw [List.singleton_append, Nat.ofDigits_cons, Nat.ofDigits_singleton,
          Nat.ofDigits_singleton, Nat.mul_comm radix, Nat.add_comm]
      rw [List.reverse_cons, List.append_assoc, Nat.ofDigits_append, hlow, ← Nat.ofDigits_append]
    refine ⟨?_, ?_⟩
    · intro h
      cases hdigit : digitValue radix c with
      | none =>
        rw [hdigit] at h
        cases h
      | some d =>
        rw [hdigit] at h
        obtain ⟨digits, hchars, hn⟩ := ih.mp h
        exact ⟨d :: digits, .cons ((digitValue_eq_some hradix).mp hdigit) hchars,
          hn.trans (hvalue d digits).symm⟩
    · intro h
      obtain ⟨_, hchars, hn⟩ := h
      cases hchars with
      | @cons _ d _ digits hdigit hchars =>
        rw [(digitValue_eq_some hradix).mpr hdigit]
        exact ih.mpr ⟨digits, hchars, hn.trans (hvalue d digits)⟩

/-! ### Numerals -/

/-- What stands behind the sign of a numeral are its digits. -/
theorem isNumeral_iff_dropPlus (hradix : radix ≤ 16) {text : List Char} {n : Nat} :
    IsNumeral radix text n ↔ ∃ digits, digits ≠ [] ∧
      List.Forall₂ (IsDigit radix) (dropPlus text) digits ∧
        n = Nat.ofDigits radix digits.reverse := by
  refine ⟨?_, ?_⟩
  · intro h
    obtain ⟨sign, chars, digits, hsign, rfl, hdigits, hchars, hn⟩ := h
    refine ⟨digits, hdigits, ?_, hn⟩
    rcases hsign with rfl | rfl
    · cases hchars with
      | nil => exact absurd rfl hdigits
      | cons hdigit hchars =>
        have hunsigned := hdigit.ne_plus hradix
        rw [List.nil_append, dropPlus]
        · exact .cons hdigit hchars
        · intro rest hrest
          exact hunsigned (List.cons.inj hrest).1
    · exact hchars
  · intro h
    obtain ⟨digits, hdigits, hchars, hn⟩ := h
    unfold dropPlus at hchars
    split at hchars
    · rename_i rest
      exact ⟨['+'], rest, digits, .inr rfl, rfl, hdigits, hchars, hn⟩
    · exact ⟨[], text, digits, .inl rfl, rfl, hdigits, hchars, hn⟩

/-- **What the reader accepts**: the numerals up to its limit. -/
theorem numeral_eq_some (hradix : radix ≤ 16) {limit n : Nat} {text : List Char} :
    numeral radix limit text = some n ↔ IsNumeral radix text n ∧ n ≤ limit := by
  rw [isNumeral_iff_dropPlus hradix, numeral]
  have hvalue (digits : List Nat) : Nat.ofDigits radix (digits.reverse ++ [0]) =
      Nat.ofDigits radix digits.reverse := by
    rw [Nat.ofDigits_append, Nat.ofDigits_singleton, Nat.mul_zero, Nat.add_zero]
  split
  · rename_i hempty
    rw [hempty]
    refine ⟨fun h => ?_, fun h => ?_⟩
    · cases h
    · obtain ⟨⟨digits, hdigits, hchars, -⟩, -⟩ := h
      exact absurd (List.forall₂_nil_left_iff.mp hchars) hdigits
  · rename_i hsome
    rw [Option.filter_eq_some_iff, readDigits_eq_some hradix, decide_eq_true_iff]
    refine and_congr_left fun _ => exists_congr fun digits => ?_
    rw [hvalue, iff_and_self]
    rintro ⟨hchars, -⟩ rfl
    exact hsome (List.forall₂_nil_right_iff.mp hchars)

/-- The characters of a numeral. -/
theorem IsNumeral.mem {text : List Char} {n : Nat} (h : IsNumeral radix text n) {c : Char}
    (hc : c ∈ text) : c = '+' ∨ ∃ d, IsDigit radix c d := by
  obtain ⟨sign, chars, digits, hsign, rfl, -, hchars, -⟩ := h
  have hdigits : ∀ c ∈ chars, ∃ d, IsDigit radix c d := by
    clear hc
    induction hchars with
    | nil => exact fun c hc => absurd hc List.not_mem_nil
    | cons hdigit _ ih => exact List.forall_mem_cons.mpr ⟨⟨_, hdigit⟩, ih⟩
  rcases List.mem_append.mp hc with hc | hc
  · rcases hsign with rfl | rfl
    · cases hc
    · exact .inl (List.mem_singleton.mp hc)
  · exact .inr (hdigits c hc)

end Text

open Text

/-! ### Addresses -/

/-- The texts in front of a hexadecimal address. -/
def markers : List String := ["0x", "0X", "$"]

/-- The text is an address with a number: a marker and a hexadecimal numeral, or a decimal one. -/
def IsAddress (text : String) (n : Nat) : Prop :=
  (∃ marker ∈ markers, ∃ digits : String, text = marker ++ digits ∧
    IsNumeral 16 digits.toList n) ∨ IsNumeral 10 text.toList n

/-- A decimal numeral has no marker. -/
theorem not_isNumeral_of_marker {text : List Char} {c : Char} (hc : c ∈ text)
    (hmarker : c ∈ ['x', 'X', '$']) (n : Nat) : ¬ IsNumeral 10 text n := by
  intro h
  rcases h.mem hc with rfl | ⟨d, hdigit⟩
  · exact absurd hmarker (by decide)
  · have hvalue := (digitValue_eq_some (by decide)).mpr hdigit
    have hnone : digitValue 10 c = none := by
      simp only [List.mem_cons, List.not_mem_nil, or_false] at hmarker
      rcases hmarker with rfl | rfl | rfl <;> rfl
    rw [hnone] at hvalue
    cases hvalue

/-- No marker is the start of another. -/
theorem marker_unique {marker marker' rest rest' : String} (hmarker : marker ∈ markers)
    (hmarker' : marker' ∈ markers) (h : marker ++ rest = marker' ++ rest') :
    marker = marker' ∧ rest = rest' := by
  have hchars := congrArg String.toList h
  rw [String.toList_append, String.toList_append] at hchars
  have hsame : marker = marker' := by
    simp only [markers, List.mem_cons, List.not_mem_nil, or_false] at hmarker hmarker'
    rcases hmarker with rfl | rfl | rfl <;> rcases hmarker' with rfl | rfl | rfl <;>
      first | rfl | simp at hchars
  subst hsame
  exact ⟨rfl, String.toList_injective (List.append_cancel_left hchars)⟩

theorem isAddress_of_marker {marker : String} (hmarker : marker ∈ markers) (digits : String)
    (n : Nat) : IsAddress (marker ++ digits) n ↔ IsNumeral 16 digits.toList n := by
  refine ⟨?_, ?_⟩
  · rintro (⟨marker', hmarker', digits', h, hdigits⟩ | hdecimal)
    · obtain ⟨-, rfl⟩ := marker_unique hmarker hmarker' h
      exact hdigits
    · obtain ⟨c, hc, hmark⟩ : ∃ c ∈ marker.toList, c ∈ ['x', 'X', '$'] := by
        simp only [markers, List.mem_cons, List.not_mem_nil, or_false] at hmarker
        rcases hmarker with rfl | rfl | rfl
        · exact ⟨'x', by decide, by decide⟩
        · exact ⟨'X', by decide, by decide⟩
        · exact ⟨'$', by decide, by decide⟩
      refine absurd hdecimal (not_isNumeral_of_marker ?_ hmark n)
      rw [String.toList_append]
      exact List.mem_append_left _ hc
  · exact fun h => .inl ⟨marker, hmarker, digits, rfl, h⟩

/-- **Which texts name an address**, and which. -/
theorem map_toNat_parseAddress {text : String} {n : Nat} :
    (parseAddress text).map UInt16.toNat = some n ↔ IsAddress text n ∧ n ≤ 65535 := by
  have hnumber (radix : Nat) (hradix : radix ≤ 16) (digits : List Char) :
      ((numeral radix 65535 digits).map UInt16.ofNat).map UInt16.toNat = some n ↔
        IsNumeral radix digits n ∧ n ≤ 65535 := by
    rw [← numeral_eq_some hradix]
    cases hvalue : numeral radix 65535 digits with
    | none => simp
    | some value =>
      have hle := numeral_le hvalue
      have hsame : (UInt16.ofNat value).toNat = value := by
        rw [UInt16.toNat_ofNat']
        omega
      simp only [Option.map_some, hsame]
  have hmarked {marker : String} (hmarker : marker ∈ markers) {digits : List Char}
      (h : text.toList = marker.toList ++ digits) : IsAddress text n ↔ IsNumeral 16 digits n := by
    have htext : text = marker ++ String.ofList digits := by
      apply String.toList_injective
      rw [h, String.toList_append, String.toList_ofList]
    rw [htext, isAddress_of_marker hmarker, String.toList_ofList]
  unfold parseAddress
  dsimp only
  split
  · rename_i digits h
    rw [hnumber 16 (by decide), hmarked (show "0x" ∈ markers by decide) h]
  · rename_i digits h
    rw [hnumber 16 (by decide), hmarked (show "0X" ∈ markers by decide) h]
  · rename_i digits h
    rw [hnumber 16 (by decide), hmarked (show "$" ∈ markers by decide) h]
  · rename_i hsmall hlarge hdollar
    rw [hnumber 10 (by decide)]
    refine and_congr_left fun _ => (or_iff_right ?_).symm
    rintro ⟨marker, hmarker, digits, rfl, -⟩
    rw [String.toList_append] at hsmall hlarge hdollar
    simp only [markers, List.mem_cons, List.not_mem_nil, or_false] at hmarker
    rcases hmarker with rfl | rfl | rfl
    · exact hsmall digits.toList rfl
    · exact hlarge digits.toList rfl
    · exact hdollar digits.toList rfl

example : parseAddress "$+00fF" = some 0xFF := by decide

example : parseAddress "0x" = none := by decide

/-! ### Shown values -/

/-- The digits that a number is shown with. -/
theorem forall₂_fixedHex (width value : Nat) : ∃ digits, digits.length = width ∧
    List.Forall₂ (IsDigit 16) (fixedHex width value) digits ∧
      Nat.ofDigits 16 digits.reverse = value % 16 ^ width := by
  have hdigit : ∀ d < 16, hexDigit d = d.digitChar.toUpper := by decide
  induction width generalizing value with
  | zero => exact ⟨[], rfl, .nil, (Nat.mod_one value).symm⟩
  | succ width ih =>
    obtain ⟨digits, hlength, hchars, hvalue⟩ := ih (value / 16)
    have hlt : value % 16 < 16 := Nat.mod_lt _ (by decide)
    refine ⟨digits ++ [value % 16], by simp [hlength], ?_, ?_⟩
    · rw [fixedHex]
      exact List.rel_append hchars (.cons ⟨hlt, .inr (hdigit _ hlt)⟩ .nil)
    · rw [List.reverse_append, List.reverse_singleton, List.singleton_append, Nat.ofDigits_cons,
        hvalue, Nat.pow_succ', Nat.mod_mul]

/-- A number that fits is what the shown text stands for. -/
theorem isAddress_markedHex {width value : Nat} (hwidth : width ≠ 0) (hfits : value < 16 ^ width) :
    IsAddress (Value.markedHex width value) value := by
  obtain ⟨digits, hlength, hchars, hvalue⟩ := forall₂_fixedHex width value
  have htext : Value.markedHex width value = "0x" ++ String.ofList (fixedHex width value) := by
    apply String.toList_injective
    simp only [Value.markedHex, String.toList_append, String.toList_ofList]
    rfl
  rw [htext, isAddress_of_marker (by decide), String.toList_ofList]
  refine ⟨[], _, digits, .inl rfl, rfl, ?_, hchars, ?_⟩
  · rintro rfl
    exact hwidth hlength.symm
  · rw [hvalue, Nat.mod_eq_of_lt hfits]

/-- A text that names an address is read as that address. -/
theorem parseAddress_of_isAddress {text : String} {a : UInt16} (h : IsAddress text a.toNat) :
    parseAddress text = some a := by
  have hle : a.toNat ≤ 65535 := by
    have hlt := a.toNat_lt
    omega
  obtain ⟨b, hparse, hb⟩ := Option.map_eq_some_iff.mp (map_toNat_parseAddress.mpr ⟨h, hle⟩)
  rw [hparse, UInt16.toNat_inj.mp hb]

/-- A word as it is shown names itself. -/
theorem parseAddress_word (w : UInt16) : parseAddress (Value.word w).render = some w := by
  rw [Value.render]
  exact parseAddress_of_isAddress (isAddress_markedHex (by decide) w.toNat_lt)

/-- So does a byte, as the address with its number. -/
theorem parseAddress_byte (b : UInt8) : parseAddress (Value.byte b).render = some b.toUInt16 := by
  rw [Value.render]
  refine parseAddress_of_isAddress ?_
  rw [UInt8.toNat_toUInt16]
  exact isAddress_markedHex (by decide) b.toNat_lt

end NesMachine
