/-
# Truncated fractions

A decimal fraction that is truncated is first rounded to the nearest binary64 number, and the
integer part of that number is taken. So the integer part of the fraction itself is kept where
the format tells it from the next integer, and from `2 ^ 53` on where it is a number of the
format itself; a fraction just below an integer may move up to it. A result that does not fit
a signed word of 64 bits is refused.
-/

import Mathlib.Data.List.TakeWhile
import TreeLowering.Proofs.FractionOption
import TreeLowering.Proofs.Json.Written
import TreeLowering.Proofs.Number.Rounding

namespace TreeLowering

open TreeLowering.Lowering TreeLowering.Number TreeLowering.Reduced

variable {whole fraction digits : List Char}

/-! ## Decimal fractions -/

/-- The number that digits before and behind a point denote. -/
def decimalValue (whole fraction : List Char) : ℚ :=
  Nat.ofDigitChars 10 whole 0 + Nat.ofDigitChars 10 fraction 0 / 10 ^ fraction.length

/-- Digits continue a number to one below what the next number would begin with. -/
theorem ofDigitChars_lt (h : ∀ c ∈ digits, c.isDigit) (value : ℕ) :
    Nat.ofDigitChars 10 digits value < (value + 1) * 10 ^ digits.length := by
  induction digits generalizing value with
  | nil => simp
  | cons c rest ih =>
      obtain ⟨hc, hrest⟩ := List.forall_mem_cons.mp h
      have hdigit : c.toNat - '0'.toNat < 10 := by
        have hrange := Char.isDigit_iff_toNat.mp hc
        have hhigh : '9'.toNat = '0'.toNat + 9 := rfl
        omega
      rw [Nat.ofDigitChars_cons, List.length_cons]
      calc Nat.ofDigitChars 10 rest (10 * value + (c.toNat - '0'.toNat))
          < (10 * value + (c.toNat - '0'.toNat) + 1) * 10 ^ rest.length := ih hrest _
        _ ≤ (10 * value + 10) * 10 ^ rest.length := Nat.mul_le_mul_right _ (by omega)
        _ = (value + 1) * 10 ^ (rest.length + 1) := by ring

/-- The integer part is what the digits before the point denote. -/
theorem floor_decimalValue (h : ∀ c ∈ fraction, c.isDigit) :
    ⌊decimalValue whole fraction⌋ = Nat.ofDigitChars 10 whole 0 := by
  have hlt : (Nat.ofDigitChars 10 fraction 0 : ℚ) / 10 ^ fraction.length < 1 := by
    have hsmall := ofDigitChars_lt h 0
    rw [zero_add, one_mul] at hsmall
    rw [div_lt_one (by positivity)]
    exact_mod_cast hsmall
  rw [Int.floor_eq_iff, decimalValue, Int.cast_natCast]
  exact ⟨le_add_of_nonneg_right (by positivity), by linarith⟩

/-- Without a sign and an exponent the digits are those of the coefficient. -/
theorem read?_decimal (h : ∀ c ∈ whole ++ fraction, c.isDigit) (hsome : whole ++ fraction ≠ []) :
    Decimal.read? (whole ++ '.' :: fraction) =
      some ⟨false, Nat.ofDigitChars 10 (whole ++ fraction) 0, -fraction.length⟩ := by
  obtain ⟨hwhole, hfraction⟩ := List.forall_mem_append.mp h
  have hunsigned : Decimal.read? (whole ++ '.' :: fraction) =
      Decimal.magnitude? false (whole ++ '.' :: fraction) := by
    cases whole with
    | nil => rfl
    | cons c rest =>
        have hc := hwhole c List.mem_cons_self
        rw [Decimal.read?.eq_def]
        split
        case h_1 htext => cases htext; cases hc
        case h_2 htext => cases htext; cases hc
        case h_3 => rfl
  have htake : (whole ++ '.' :: fraction).takeWhile Char.isDigit = whole := by
    rw [List.takeWhile_append_of_pos hwhole]
    exact List.append_nil _
  have hdrop : (whole ++ '.' :: fraction).dropWhile Char.isDigit = '.' :: fraction := by
    rw [List.dropWhile_append_of_pos hwhole]
    rfl
  have hsplit : Decimal.splitFraction ('.' :: fraction) = (fraction, []) := by
    rw [Decimal.splitFraction, List.takeWhile_eq_self_iff.mpr hfraction,
      List.dropWhile_eq_nil_iff.mpr hfraction]
  have hnonempty : (whole.isEmpty && fraction.isEmpty) = false := by
    simpa [not_and_or] using hsome
  rw [hunsigned, Decimal.magnitude?, htake, hdrop, hsplit]
  simp only [hnonempty, Decimal.exponent?, Decimal.assemble, Json.continueNatural?_of_isDigit h,
    Option.map_some, Option.getD_some, zero_sub, Bool.false_eq_true, if_false]

theorem value_decimal (whole fraction : List Char) :
    Decimal.value ⟨false, Nat.ofDigitChars 10 (whole ++ fraction) 0, -fraction.length⟩ =
      decimalValue whole fraction := by
  rw [Decimal.value, decimalValue, Nat.ofDigitChars_append, Nat.ofDigitChars_eq_ofDigitChars_zero,
    zpow_neg, zpow_natCast]
  push_cast
  field_simp

/-! ## Numerals -/

/-- A numeral with a point has the number nearest to what its digits denote. -/
theorem exists_fraction? {token : Token}
    (htext : token.text.toList.filter (· != '_') = whole ++ '.' :: fraction)
    (hdigits : ∀ c ∈ whole ++ fraction, c.isDigit) (hsome : whole ++ fraction ≠ [])
    (hsmall : decimalValue whole fraction < 2 ^ 1000) :
    ∃ x : Binary64, token.fraction? = some x ∧ x.negative = false ∧
      x.IsNearest (decimalValue whole fraction) := by
  rw [← value_decimal] at hsmall ⊢
  obtain ⟨x, hx, hpositive, hnearest⟩ := exists_ofDecimal? rfl hsmall
  refine ⟨x, ?_, hpositive, hnearest⟩
  rw [Token.fraction?, htext, read?_decimal hdigits hsome, Option.bind_some, hx]

/-- A number without a sign is truncated to its integer part, if that fits. -/
theorem decodeNumber_truncate_of_positive {token : Token} (hclass : token.IsFraction)
    {x : Binary64} (hx : token.fraction? = some x) (hpositive : x.negative = false) :
    decodeNumber .truncate token =
      if x.value < 2 ^ 63 then .ok (.int ⌊x.value⌋)
      else .error (.unrecognized "float literal" token.text) := by
  have hnonneg : 0 ≤ x.value := by
    rw [Binary64.value_of_positive hpositive]
    positivity
  have hfits : fitsWord64 ⌊x.value⌋ = true ↔ x.value < 2 ^ 63 := by
    rw [fitsWord64, Bool.and_eq_true, decide_eq_true_iff, decide_eq_true_iff, Int.floor_lt]
    have hlow : -Int.pow 2 63 ≤ ⌊x.value⌋ :=
      le_trans (by decide) (Int.floor_nonneg.mpr hnonneg)
    have hpower : ((Int.pow 2 63 : ℤ) : ℚ) = 2 ^ 63 := by norm_num
    rw [and_iff_right hlow, hpower]
  simp only [decodeNumber_truncate hclass hx, Binary64.truncate_eq_floor hpositive, hfits]

/-- A numeral of digits with a point, whose integer part is below `2 ^ 63`, is rounded to the
nearest number and truncated to the integer part of that; only `2 ^ 63` itself is refused. Below
`2 ^ 53` the integer part of the numeral is kept or moves up by one, and it is kept if the
fraction is further from one than the significand can tell. From there on it is kept exactly if
it is a number of the format. -/
theorem decodeNumber_truncate_of_decimal (token : Token) (hclass : token.IsFraction)
    (whole fraction : List Char)
    (htext : token.text.toList.filter (· != '_') = whole ++ '.' :: fraction)
    (hdigits : ∀ c ∈ whole ++ fraction, c.isDigit) (hsome : whole ++ fraction ≠ [])
    (hbound : ⌊decimalValue whole fraction⌋ < 2 ^ 63) :
    (∃ x : Binary64, x.IsNearest (decimalValue whole fraction)) ∧
    ∀ x : Binary64, x.IsNearest (decimalValue whole fraction) →
      x.value ≤ 2 ^ 63 ∧
      decodeNumber .truncate token =
        (if x.value < 2 ^ 63 then .ok (.int ⌊x.value⌋)
          else .error (.unrecognized "float literal" token.text)) ∧
      (⌊decimalValue whole fraction⌋ < 2 ^ 53 →
        (⌊x.value⌋ = ⌊decimalValue whole fraction⌋ ∨
          ⌊x.value⌋ = ⌊decimalValue whole fraction⌋ + 1) ∧
        ((⌊decimalValue whole fraction⌋ + 1 : ℚ) <
            2 ^ 53 * (⌊decimalValue whole fraction⌋ + 1 - decimalValue whole fraction) →
          ⌊x.value⌋ = ⌊decimalValue whole fraction⌋)) ∧
      (2 ^ 53 ≤ ⌊decimalValue whole fraction⌋ →
        (⌊x.value⌋ = ⌊decimalValue whole fraction⌋ ↔
          ∃ y : Binary64, y.value = ⌊decimalValue whole fraction⌋)) := by
  have hfloor : ⌊decimalValue whole fraction⌋ = Nat.ofDigitChars 10 whole 0 :=
    floor_decimalValue (List.forall_mem_append.mp hdigits).2
  obtain ⟨hlow, hhigh⟩ := Int.floor_eq_iff.mp hfloor
  rw [Int.cast_natCast] at hlow hhigh
  have hnonneg : 0 ≤ decimalValue whole fraction := le_trans (by positivity) hlow
  have hlt : decimalValue whole fraction < 2 ^ 63 := by exact_mod_cast Int.floor_lt.mp hbound
  obtain ⟨read, hread, hpositive, hnearest⟩ := exists_fraction? htext hdigits hsome
    (hlt.trans (pow_lt_pow_right₀ one_lt_two (by decide)))
  refine ⟨⟨read, hnearest⟩, fun x hx => ⟨?_, ?_, ?_, ?_⟩⟩
  · obtain ⟨y, -, -, hy, -⟩ := Binary64.exists_ofGrid (s := 2 ^ 52) (e := 11) (by decide)
      (by decide) (by decide) (.inr le_rfl)
    have hlimit : y.value = 2 ^ 63 := by
      rw [hy]
      norm_num
    exact hlimit ▸ hx.value_le (hlimit ▸ hlt.le)
  · rw [hx.value_unique hnearest hnonneg]
    exact decodeNumber_truncate_of_positive hclass hread hpositive
  · rw [hfloor, Int.cast_natCast]
    intro hsmall
    have hn : Nat.ofDigitChars 10 whole 0 < 2 ^ 53 := by exact_mod_cast hsmall
    exact ⟨hx.floor_le_floor hlow hhigh hn, hx.floor_eq hlow hn⟩
  · rw [hfloor, Int.cast_natCast]
    intro hlarge
    exact hx.floor_eq_iff hlow hhigh (by exact_mod_cast hlarge)

/-- A numeral with an underscore and a short fraction. -/
def shortFraction : Token := ⟨"base__FLOAT_NUMBER", "1_234.75", .unknown⟩

/-- The fraction of `1234.75` is far enough from one. -/
theorem decodeNumber_truncate_of_decimal_short :
    shortFraction.IsFraction ∧
    shortFraction.text.toList.filter (· != '_') = "1234".toList ++ '.' :: "75".toList ∧
    (∀ c ∈ "1234".toList ++ "75".toList, c.isDigit) ∧
    decimalValue "1234".toList "75".toList = 4939 / 4 ∧
    decodeNumber .truncate shortFraction = .ok (.int 1234) := by
  have hclass : shortFraction.IsFraction := by
    rw [Token.IsFraction]
    decide
  have htext : shortFraction.text.toList.filter (· != '_') =
      "1234".toList ++ '.' :: "75".toList := by decide
  have hdigits : ∀ c ∈ "1234".toList ++ "75".toList, c.isDigit :=
    List.all_eq_true.mp (by decide)
  have hvalue : decimalValue "1234".toList "75".toList = 4939 / 4 := by
    have hwhole : Nat.ofDigitChars 10 "1234".toList 0 = 1234 := by decide
    have hfraction : Nat.ofDigitChars 10 "75".toList 0 = 75 := by decide
    have hlength : "75".toList.length = 2 := by decide
    rw [decimalValue, hwhole, hfraction, hlength]
    norm_num
  have hfloor : ⌊decimalValue "1234".toList "75".toList⌋ = 1234 := by
    rw [hvalue]
    norm_num
  obtain ⟨⟨x, hx⟩, hnearest⟩ := decodeNumber_truncate_of_decimal shortFraction hclass
    "1234".toList "75".toList htext hdigits (by decide) (by rw [hfloor]; norm_num)
  obtain ⟨-, hdecode, hkept, -⟩ := hnearest x hx
  rw [hfloor, hvalue] at hkept
  have hinteger : ⌊x.value⌋ = 1234 := (hkept (by norm_num)).2 (by norm_num)
  have hsmall : x.value < 2 ^ 63 := by
    have hnext := Int.lt_floor_add_one x.value
    rw [hinteger] at hnext
    exact hnext.trans (by norm_num)
  rw [if_pos hsmall, hinteger] at hdecode
  exact ⟨hclass, htext, hdigits, hvalue, hdecode⟩

/-- A numeral whose fraction is nearer to one than the format can tell. -/
def longFraction : Token := ⟨"FLOAT_NUMBER", "0.99999999999999999999", .unknown⟩

/-- The integer part of the numeral is zero, but it is rounded to one before it is truncated. -/
theorem decodeNumber_truncate_rounds_up :
    longFraction.IsFraction ∧
    longFraction.text.toList = ['0'] ++ '.' :: List.replicate 20 '9' ∧
    (∀ c ∈ ['0'] ++ List.replicate 20 '9', c.isDigit) ∧
    ⌊decimalValue ['0'] (List.replicate 20 '9')⌋ = 0 ∧
    decodeNumber .truncate longFraction = .ok (.int 1) := by
  have hclass : longFraction.IsFraction := by
    rw [Token.IsFraction]
    decide
  have hdigits : ∀ c ∈ ['0'] ++ List.replicate 20 '9', c.isDigit :=
    List.all_eq_true.mp (by decide)
  have hfloor : ⌊decimalValue ['0'] (List.replicate 20 '9')⌋ = 0 :=
    floor_decimalValue (List.forall_mem_append.mp hdigits).2
  exact ⟨hclass, by decide, hdigits, hfloor, by decide +kernel⟩

end TreeLowering
