/-
# Numerals of integers

An integer is read from an optional sign and digits of the base of its class, whatever their
case and wherever underscores stand between them. Its value is that of the digits in positional
notation, and one that does not fit a signed word of 64 bits is refused, so nothing wraps.
-/

import Mathlib.Data.Nat.Digits.Defs
import TreeLowering.Lowering.Literal
import TreeLowering.Proofs.Outcome

namespace TreeLowering

open TreeLowering.Lowering TreeLowering.Number

variable {base d n : ℕ} {c : Char} {text : List Char} {v : ℤ}

namespace Number

/-! ## Digits -/

/-- The characters are digits of a base with the given values, letters in either case. -/
def WritesDigits (base : ℕ) (text : List Char) (digits : List ℕ) : Prop :=
  List.Forall₂ (fun c d => d < base ∧ c.toLower = Nat.digitChar d) text digits

theorem toNat_toLower (c : Char) :
    c.toLower.toNat = if 65 ≤ c.toNat ∧ c.toNat ≤ 90 then c.toNat + 32 else c.toNat := by
  have hupper : (c.val ≥ 'A'.val ∧ c.val ≤ 'Z'.val) ↔ 65 ≤ c.toNat ∧ c.toNat ≤ 90 := Iff.rfl
  by_cases hrange : 65 ≤ c.toNat ∧ c.toNat ≤ 90
  · have hlower : c.toLower = _ := dif_pos (hupper.mpr hrange)
    rw [if_pos hrange, hlower]
    show (c.val + 32).toNat = c.val.toNat + 32
    rw [UInt32.toNat_add, Nat.mod_eq_of_lt]
    · rfl
    · show c.toNat + 32 < 2 ^ 32
      omega
  · have hlower : c.toLower = c := dif_neg (mt hupper.mp hrange)
    rw [if_neg hrange, hlower]

theorem toNat_digitChar :
    ∀ d < 16, (Nat.digitChar d).toNat = if d < 10 then 48 + d else 87 + d := by
  decide

/-- The value of a digit up to sixteen is that of the character that stands for it in small
letters. -/
theorem digit?_eq_some_iff (hbase : base ≤ 16) :
    digit? base c = some d ↔ d < base ∧ c.toLower = Nat.digitChar d := by
  rw [digit?, Option.filter_eq_some_iff, decide_eq_true_iff, and_comm]
  refine and_congr_right fun hd => ?_
  rw [← Char.toNat_inj, toNat_toLower, toNat_digitChar d (by omega)]
  show (if 48 ≤ c.toNat ∧ c.toNat ≤ 57 then some (c.toNat - 48)
    else if 97 ≤ c.toNat ∧ c.toNat ≤ 122 then some (c.toNat - 97 + 10)
    else if 65 ≤ c.toNat ∧ c.toNat ≤ 90 then some (c.toNat - 65 + 10) else none) = some d ↔ _
  split_ifs <;> simp only [Option.some.injEq, false_iff] <;> omega

/-! ## Natural numbers -/

/-- A run of digits continues the number before it in positional notation. -/
theorem continueNatural?_eq_some_iff (hbase : base ≤ 16) (value : ℕ) :
    continueNatural? base value text = some n ↔
      ∃ digits, WritesDigits base text digits ∧
        n = Nat.ofDigits base (digits.reverse ++ [value]) := by
  induction text generalizing value with
  | nil => simp [continueNatural?, WritesDigits, eq_comm]
  | cons c rest ih =>
      -- the first digit has the place before the digits of the rest
      have hplace (d : ℕ) (digits : List ℕ) :
          Nat.ofDigits base (digits.reverse ++ [value * base + d]) =
            Nat.ofDigits base ((d :: digits).reverse ++ [value]) := by
        rw [List.reverse_cons, List.append_assoc, Nat.ofDigits_append, Nat.ofDigits_append]
        congr 2
        simp [Nat.ofDigits_cons, Nat.mul_comm, Nat.add_comm]
      rw [continueNatural?, Option.bind_eq_some_iff]
      simp only [digit?_eq_some_iff hbase, ih]
      constructor
      · rintro ⟨d, hd, digits, hdigits, rfl⟩
        exact ⟨d :: digits, .cons hd hdigits, hplace d digits⟩
      · rintro ⟨_, hd | ⟨hd, hdigits⟩, rfl⟩
        exact ⟨_, hd, _, hdigits, (hplace _ _).symm⟩

/-- A natural number is read from one or more digits. -/
theorem natural?_eq_some_iff (hbase : base ≤ 16) : natural? base text = some n ↔
    text ≠ [] ∧ ∃ digits, WritesDigits base text digits ∧ n = Nat.ofDigits base digits.reverse := by
  cases text with
  | nil => simp [natural?]
  | cons c rest =>
      show continueNatural? base 0 (c :: rest) = some n ↔ _
      rw [continueNatural?_eq_some_iff hbase, and_iff_right (List.cons_ne_nil c rest)]
      simp [Nat.ofDigits_append]

/-! ## Integers -/

/-- A numeral of an integer: one or more digits of the base, behind at most one sign. -/
inductive IsNumeral (base : ℕ) : List Char → ℤ → Prop where
  | plain {text : List Char} {digits : List ℕ} (some : text ≠ [])
      (written : WritesDigits base text digits) :
      IsNumeral base text (Nat.ofDigits base digits.reverse : ℕ)
  | plus {text : List Char} {digits : List ℕ} (some : text ≠ [])
      (written : WritesDigits base text digits) :
      IsNumeral base ('+' :: text) (Nat.ofDigits base digits.reverse : ℕ)
  | minus {text : List Char} {digits : List ℕ} (some : text ≠ [])
      (written : WritesDigits base text digits) :
      IsNumeral base ('-' :: text) (-(Nat.ofDigits base digits.reverse : ℕ))

/-- A sign is no digit. -/
theorem WritesDigits.ne_sign {rest : List Char} {digits : List ℕ}
    (h : WritesDigits base (c :: rest) digits) (hbase : base ≤ 16) : c ≠ '+' ∧ c ≠ '-' := by
  cases h with
  | @cons _ d _ _ hd =>
      have hsign : ∀ d < 16, Nat.digitChar d ≠ '+' ∧ Nat.digitChar d ≠ '-' := by decide
      obtain ⟨hlt, hchar⟩ := hd
      obtain ⟨hplus, hminus⟩ := hsign d (by omega)
      rw [← hchar] at hplus hminus
      constructor
      · rintro rfl
        exact hplus (by decide)
      · rintro rfl
        exact hminus (by decide)

/-- Exactly the numerals of a base are read, each as its value. -/
theorem integer?_eq_some_iff (hbase : base ≤ 16) :
    integer? base text = some v ↔ IsNumeral base text v := by
  constructor
  · intro h
    rw [integer?.eq_def] at h
    split at h
    all_goals
      obtain ⟨n, hn, rfl⟩ := Option.map_eq_some_iff.mp h
      obtain ⟨hsome, digits, hdigits, rfl⟩ := (natural?_eq_some_iff hbase).mp hn
    · exact .plus hsome hdigits
    · exact .minus hsome hdigits
    · exact .plain hsome hdigits
  · intro h
    have hnatural {text : List Char} {digits : List ℕ} (hsome : text ≠ [])
        (hdigits : WritesDigits base text digits) :
        natural? base text = some (Nat.ofDigits base digits.reverse) :=
      (natural?_eq_some_iff hbase).mpr ⟨hsome, digits, hdigits, rfl⟩
    cases h with
    | plus hsome hdigits => rw [integer?, hnatural hsome hdigits]; rfl
    | minus hsome hdigits => rw [integer?, hnatural hsome hdigits]; rfl
    | plain hsome hdigits =>
        rw [integer?.eq_def]
        split
        case h_1 => exact absurd rfl (hdigits.ne_sign hbase).1
        case h_2 => exact absurd rfl (hdigits.ne_sign hbase).2
        case h_3 =>
          rw [hnatural hsome hdigits]
          rfl

/-- A numeral is read if its value fits a signed word of 64 bits. -/
theorem word64?_eq_some_iff (hbase : base ≤ 16) :
    word64? base text = some v ↔ IsNumeral base text v ∧ -2 ^ 63 ≤ v ∧ v < 2 ^ 63 := by
  rw [word64?, Option.filter_eq_some_iff, integer?_eq_some_iff hbase, fitsWord64,
    Bool.and_eq_true, decide_eq_true_iff, decide_eq_true_iff]
  exact Iff.rfl

end Number

/-! ## Marks of the radix -/

/-- The mark of a radix, in letters of either case. -/
def IsRadixMark (mark : List Char) : Prop :=
  ∃ letter ∈ "xXbBoO".toList, mark = ['0', letter]

/-- The numeral in a text: all of it in base ten, and in the other bases what follows the mark
of a radix, if the text begins with one. -/
inductive Unmarked (base : ℕ) : List Char → List Char → Prop where
  | decimal (text : List Char) (ten : base = 10) : Unmarked base text text
  | marked {mark : List Char} (numeral : List Char) (other : base ≠ 10) (h : IsRadixMark mark) :
      Unmarked base (mark ++ numeral) numeral
  | bare {text : List Char} (other : base ≠ 10)
      (none : ∀ mark, IsRadixMark mark → ¬ mark <+: text) : Unmarked base text text

theorem toLower_mark_iff (c : Char) :
    (c.toLower = 'x' ∨ c.toLower = 'b' ∨ c.toLower = 'o') ↔ c ∈ "xXbBoO".toList := by
  have hletters : c ∈ "xXbBoO".toList ↔ c.toNat = 120 ∨ c.toNat = 88 ∨ c.toNat = 98 ∨
      c.toNat = 66 ∨ c.toNat = 111 ∨ c.toNat = 79 := by
    show c ∈ ['x', 'X', 'b', 'B', 'o', 'O'] ↔ _
    simp only [List.mem_cons, List.not_mem_nil, or_false, ← Char.toNat_inj]
    exact Iff.rfl
  rw [hletters, ← Char.toNat_inj, ← Char.toNat_inj, ← Char.toNat_inj, toNat_toLower]
  show (_ = 120 ∨ _ = 98 ∨ _ = 111) ↔ _
  split <;> omega

theorem dropRadixMark_append {mark : List Char} (h : IsRadixMark mark) (numeral : List Char) :
    dropRadixMark (mark ++ numeral) = numeral := by
  obtain ⟨letter, hletter, rfl⟩ := h
  exact if_pos ((toLower_mark_iff letter).mpr hletter)

theorem dropRadixMark_of_bare (h : ∀ mark, IsRadixMark mark → ¬ mark <+: text) :
    dropRadixMark text = text := by
  rw [dropRadixMark.eq_def]
  split
  case h_1 letter rest =>
    refine if_neg fun hmark => ?_
    exact h ['0', letter] ⟨letter, (toLower_mark_iff letter).mp hmark, rfl⟩ ⟨rest, rfl⟩
  case h_2 => rfl

/-- Every text has one numeral in it. -/
theorem unmarked_iff {numeral : List Char} : Unmarked base text numeral ↔
    numeral = if base = 10 then text else dropRadixMark text := by
  constructor
  · rintro (⟨-, hten⟩ | ⟨-, hother, hmark⟩ | ⟨hother, hbare⟩)
    · rw [if_pos hten]
    · rw [if_neg hother, dropRadixMark_append hmark]
    · rw [if_neg hother, dropRadixMark_of_bare hbare]
  · rintro rfl
    split
    case isTrue hten => exact .decimal text hten
    case isFalse hother =>
      by_cases hbare : ∀ mark, IsRadixMark mark → ¬ mark <+: text
      · rw [dropRadixMark_of_bare hbare]
        exact .bare hother hbare
      · push Not at hbare
        obtain ⟨mark, hmark, numeral, rfl⟩ := hbare
        rw [dropRadixMark_append hmark]
        exact .marked numeral hother hmark

/-! ## The statement -/

/-- The base of the integers of a lexical class. -/
def integerBase? : String → Option ℕ
  | "HEX_NUMBER" => some 16
  | "BIN_NUMBER" => some 2
  | "OCT_NUMBER" => some 8
  | "DEC_NUMBER" => some 10
  | _ => none

theorem integerBase?_le (className : String) {base : ℕ} (h : integerBase? className = some base) :
    base ≤ 16 := by
  rw [integerBase?.eq_def] at h
  split at h <;> cases h <;> decide

/-- Without its underscores the text of a token of a class of integers is read by the base. -/
theorem decodeNumber_eq_word64? (floats : FloatLiterals) (token : Token) {base : ℕ}
    (h : integerBase? token.lexicalClass = some base) {numeral : List Char}
    (hnumeral : Unmarked base (token.text.toList.filter (· != '_')) numeral) :
    decodeNumber floats token = match word64? base numeral with
      | some v => .ok (.int v)
      | none => .error (.unrecognized "integer literal" token.text) := by
  rw [unmarked_iff.mp hnumeral, decodeNumber]
  rw [integerBase?.eq_def] at h
  split at h
  case h_5 => cases h
  all_goals
    rename_i hclass
    cases h
    rw [hclass]
    rfl

/-- A token of a class of integers is decoded to `v` exactly if its text, without underscores
and without the mark of a radix, is a numeral of `v` in the base of the class and `v` fits a
signed word of 64 bits; else it is unrecognized. So digits without a sign give their value in
positional notation if that is below `2 ^ 63` and are refused if it is not. -/
theorem decodeNumber_of_integerBase (floats : FloatLiterals) (token : Token) {base : ℕ}
    (h : integerBase? token.lexicalClass = some base) :
    (∃ numeral, Unmarked base (token.text.toList.filter (· != '_')) numeral) ∧
    ∀ numeral, Unmarked base (token.text.toList.filter (· != '_')) numeral →
      (∀ v : ℤ, decodeNumber floats token = .ok (.int v) ↔
        IsNumeral base numeral v ∧ -2 ^ 63 ≤ v ∧ v < 2 ^ 63) ∧
      (decodeNumber floats token = .error (.unrecognized "integer literal" token.text) ↔
        ∀ v, IsNumeral base numeral v → v < -2 ^ 63 ∨ 2 ^ 63 ≤ v) ∧
      ∀ digits, numeral ≠ [] → WritesDigits base numeral digits →
        (Nat.ofDigits base digits.reverse < 2 ^ 63 →
          decodeNumber floats token = .ok (.int (Nat.ofDigits base digits.reverse : ℕ))) ∧
        (2 ^ 63 ≤ Nat.ofDigits base digits.reverse →
          decodeNumber floats token = .error (.unrecognized "integer literal" token.text)) := by
  have hbase := integerBase?_le _ h
  refine ⟨⟨_, unmarked_iff.mpr rfl⟩, fun numeral hnumeral => ?_⟩
  have hok (v : ℤ) : decodeNumber floats token = .ok (.int v) ↔
      IsNumeral base numeral v ∧ -2 ^ 63 ≤ v ∧ v < 2 ^ 63 := by
    rw [decodeNumber_eq_word64? floats token h hnumeral, ← word64?_eq_some_iff hbase]
    cases word64? base numeral <;> simp
  have herror : decodeNumber floats token = .error (.unrecognized "integer literal" token.text) ↔
      ∀ v, IsNumeral base numeral v → v < -2 ^ 63 ∨ 2 ^ 63 ≤ v := by
    have hnone : word64? base numeral = none ↔
        ∀ v, IsNumeral base numeral v → v < -2 ^ 63 ∨ 2 ^ 63 ≤ v := by
      simp only [Option.eq_none_iff_forall_ne_some, ne_eq, word64?_eq_some_iff hbase, not_and,
        not_lt, or_iff_not_imp_left]
    rw [decodeNumber_eq_word64? floats token h hnumeral, ← hnone]
    cases word64? base numeral <;> simp
  refine ⟨hok, herror, fun digits hsome hdigits => ⟨fun hsmall => ?_, fun hlarge => ?_⟩⟩
  · exact (hok _).mpr ⟨.plain hsome hdigits, by omega, by exact_mod_cast hsmall⟩
  · refine herror.mpr fun v hv => .inr ?_
    have hread := (integer?_eq_some_iff hbase).mpr hv
    rw [(integer?_eq_some_iff hbase).mpr (.plain hsome hdigits)] at hread
    rw [← Option.some.inj hread]
    exact_mod_cast hlarge

/-- A numeral with a capital mark, leading zeros, digits of either case and underscores, of a
class in a namespace. -/
def paddedNumeral : Token := ⟨"base__HEX_NUMBER", "0_X_00_fF", .unknown⟩

/-- Behind its mark the numeral is `00fF`. -/
theorem decodeNumber_of_integerBase_padded :
    integerBase? paddedNumeral.lexicalClass = some 16 ∧
    Unmarked 16 (paddedNumeral.text.toList.filter (· != '_')) ['0', '0', 'f', 'F'] ∧
    WritesDigits 16 ['0', '0', 'f', 'F'] [0, 0, 15, 15] ∧
    decodeNumber .truncate paddedNumeral = .ok (.int 255) := by
  have hbase : integerBase? paddedNumeral.lexicalClass = some 16 := by decide
  have hunmarked :
      Unmarked 16 (paddedNumeral.text.toList.filter (· != '_')) ['0', '0', 'f', 'F'] :=
    @Unmarked.marked 16 ['0', 'X'] _ (by decide) ⟨'X', by decide, rfl⟩
  have hdigits : WritesDigits 16 ['0', '0', 'f', 'F'] [0, 0, 15, 15] := by
    unfold WritesDigits
    decide
  obtain ⟨-, hread⟩ := decodeNumber_of_integerBase .truncate paddedNumeral hbase
  obtain ⟨-, -, hvalue⟩ := hread _ hunmarked
  exact ⟨hbase, hunmarked, hdigits, (hvalue _ (by decide) hdigits).1 (by decide)⟩

end TreeLowering
