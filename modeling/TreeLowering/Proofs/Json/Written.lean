/-
# The lexemes of written values

The two written forms of a value without fractions divide into the same lexemes, those of the
value. A string is read back character by character, an integer within 64 bits digit by digit;
where a number or a word ends, the character behind it belongs to neither.
-/

import Mathlib.Data.Nat.Notation
import Mathlib.Tactic.SplitIfs
import TreeLowering.Json.Lexeme
import TreeLowering.Json.Write

namespace TreeLowering.Json

open TreeLowering.Number

variable {read : List Lexeme} {rest text : List Char} {value : Json} {n : ℕ}

/-! ## Digits -/

theorem digit?_of_isDigit {c : Char} (h : c.isDigit) :
    digit? 10 c = some (c.toNat - '0'.toNat) := by
  simp only [Char.isDigit, Bool.and_eq_true, decide_eq_true_eq, ge_iff_le] at h
  have hrange : '0' ≤ c ∧ c ≤ '9' := h
  have hlow : '0'.toNat ≤ c.toNat := h.1
  have hhigh : c.toNat ≤ '9'.toNat := h.2
  have hbase : c.toNat - '0'.toNat < 10 := by
    have : '9'.toNat = '0'.toNat + 9 := rfl
    omega
  rw [digit?, if_pos hrange]
  exact if_pos (decide_eq_true hbase)

theorem continueNatural?_of_isDigit {digits : List Char} (h : ∀ c ∈ digits, c.isDigit) (n : ℕ) :
    continueNatural? 10 n digits = some (Nat.ofDigitChars 10 digits n) := by
  induction digits generalizing n with
  | nil => rfl
  | cons c rest ih =>
      obtain ⟨hc, hrest⟩ := List.forall_mem_cons.1 h
      rw [continueNatural?, digit?_of_isDigit hc, Option.bind_some, ih hrest, Nat.ofDigitChars,
        Nat.ofDigitChars, List.foldl_cons, Nat.mul_comm]

theorem isDigit_of_mem_decimalDigits {c : Char} (h : c ∈ decimalDigits n) : c.isDigit :=
  Nat.isDigit_of_mem_toDigits (by decide) (Nat.le_refl 10) h

theorem natural?_decimalDigits (n : ℕ) : natural? 10 (decimalDigits n) = some n := by
  have hne : decimalDigits n ≠ [] := Nat.toDigits_ne_nil
  obtain ⟨c, rest, hdigits⟩ := List.exists_cons_of_ne_nil hne
  rw [natural?.eq_def, hdigits]
  dsimp only
  rw [← hdigits, continueNatural?_of_isDigit fun c => isDigit_of_mem_decimalDigits, decimalDigits,
    Nat.ofDigitChars_ten_toDigits]

/-- A positive number has no leading zero. -/
theorem head?_decimalDigits (h : 0 < n) : (decimalDigits n).head? ≠ some '0' := by
  induction n using Nat.strongRecOn with
  | ind n ih =>
      rw [decimalDigits, Nat.toDigits_eq_if (by decide)]
      split
      · rename_i hlt
        have hchar : ∀ d < 10, 0 < d → d.digitChar ≠ '0' := by decide
        simpa using hchar n hlt h
      · have hpos : 0 < n / 10 := by omega
        have hleading := ih (n / 10) (by omega) hpos
        obtain ⟨c, others, hdigits⟩ := List.exists_cons_of_ne_nil
          (show Nat.toDigits 10 (n / 10) ≠ [] from Nat.toDigits_ne_nil)
        rw [decimalDigits, hdigits] at hleading
        rw [hdigits]
        exact hleading

theorem isWholePart_decimalDigits (n : ℕ) : isWholePart (decimalDigits n) := by
  have hdigits : (decimalDigits n).all Char.isDigit :=
    List.all_eq_true.2 fun c => isDigit_of_mem_decimalDigits
  rcases n.eq_zero_or_pos with rfl | hpos
  · rfl
  · have hhead := head?_decimalDigits hpos
    have hne : decimalDigits n ≠ [] := Nat.toDigits_ne_nil
    rw [isWholePart.eq_def]
    split <;> simp_all

/-! ## Values that are written exactly -/

mutual

/-- A value without fractions whose integers are within 64 bits, signed below zero. -/
def IsExact : Json → Prop
  | .integer n => -Int.pow 2 63 ≤ n ∧ n < Int.pow 2 64
  | .float _ => False
  | .array items => AreExact items
  | .object members => HaveExact members
  | _ => True

/-- Items all of which are exact. -/
def AreExact : List Json → Prop
  | [] => True
  | item :: rest => IsExact item ∧ AreExact rest

/-- Members all of whose values are exact. -/
def HaveExact : List (String × Json) → Prop
  | [] => True
  | (_, value) :: rest => IsExact value ∧ HaveExact rest

end

mutual

/-- The lexemes of a value. -/
def lexemes : Json → List Lexeme
  | .array [] => [.openArray, .closeArray]
  | .array (item :: items) => .openArray :: (lexemes item ++ lexemesOfItems items)
  | .object [] => [.openObject, .closeObject]
  | .object ((key, value) :: members) =>
    .openObject :: .scalar (.string key) :: .colon :: (lexemes value ++ lexemesOfMembers members)
  | value => [.scalar value]

/-- The lexemes of the items after the first, and the end of the array. -/
def lexemesOfItems : List Json → List Lexeme
  | [] => [.closeArray]
  | item :: items => .comma :: (lexemes item ++ lexemesOfItems items)

/-- The lexemes of the members after the first, and the end of the object. -/
def lexemesOfMembers : List (String × Json) → List Lexeme
  | [] => [.closeObject]
  | (key, value) :: members =>
    .comma :: .scalar (.string key) :: .colon :: (lexemes value ++ lexemesOfMembers members)

end

/-! ## Integers -/

theorem number?_decimalText {n : Int} (hlow : -Int.pow 2 63 ≤ n) (hhigh : n < Int.pow 2 64) :
    number? (decimalText n) = some (.integer n) := by
  have hwhole := isWholePart_decimalDigits n.natAbs
  have hvalue := natural?_decimalDigits n.natAbs
  rw [show Int.pow 2 63 = 9223372036854775808 from rfl] at hlow
  rw [show Int.pow 2 64 = 18446744073709551616 from rfl] at hhigh
  rw [decimalText]
  split
  · have hrange : 0 < n.natAbs ∧ n.natAbs ≤ Nat.pow 2 63 := by
      rw [show Nat.pow 2 63 = 9223372036854775808 from rfl]
      omega
    rw [number?, magnitude?, if_pos hwhole, hvalue]
    simp only [if_pos hrange, if_true]
    congr 2
    omega
  · have hrange : n.natAbs < Nat.pow 2 64 := by
      rw [show Nat.pow 2 64 = 18446744073709551616 from rfl]
      omega
    rw [number?, magnitude?, if_pos hwhole, hvalue]
    · simp only [if_pos hrange, Bool.false_eq_true, if_false]
      congr 2
      omega
    · intro digits hsign
      have hminus := isDigit_of_mem_decimalDigits (hsign ▸ List.mem_cons_self)
      exact absurd hminus (by decide)

/-! ## Ends of numbers and words -/

/-- No number and no word goes on at the front of a text. -/
def Stops (rest : List Char) : Prop :=
  ∀ c ∈ rest.head?, isNumeric c = false ∧ c.isLower = false

/-- The character that ends a lexeme is looked at again between lexemes. -/
theorem lexFrom_ended {state : LexerState} {c : Char}
    (h : lexStep state c = endLexeme (some value) c) :
    lexFrom state read (c :: rest) = lexFrom .between (.scalar value :: read) (c :: rest) := by
  rw [lexFrom, lexFrom, h, lexStep]
  simp only [endLexeme]
  cases beginLexeme c with
  | none => rfl
  | some found => simp

theorem lexFrom_number (hvalue : number? text.reverse = some value) (hstops : Stops rest) :
    lexFrom (.number text) read rest = lexFrom .between (.scalar value :: read) rest := by
  cases rest with
  | nil => simp [lexFrom, lexEnd, hvalue]
  | cons c rest =>
      obtain ⟨hnumeric, -⟩ := hstops c rfl
      exact lexFrom_ended (by simp [lexStep, hnumeric, hvalue])

theorem lexFrom_word (hvalue : word? text.reverse = some value) (hstops : Stops rest) :
    lexFrom (.word text) read rest = lexFrom .between (.scalar value :: read) rest := by
  cases rest with
  | nil => simp [lexFrom, lexEnd, hvalue]
  | cons c rest =>
      obtain ⟨-, hlower⟩ := hstops c rfl
      exact lexFrom_ended (by simp [lexStep, hlower, hvalue])

theorem lexFrom_numeric {digits : List Char} (h : ∀ c ∈ digits, isNumeric c) (text : List Char) :
    lexFrom (.number text) read (digits ++ rest) =
      lexFrom (.number (digits.reverse ++ text)) read rest := by
  induction digits generalizing text with
  | nil => rfl
  | cons c others ih =>
      obtain ⟨hc, hothers⟩ := List.forall_mem_cons.1 h
      rw [List.cons_append, lexFrom, lexStep, if_pos hc]
      simp [ih hothers]

/-! ## Strings -/

theorem digit?_hexDigit {d : ℕ} (h : d < 16) : digit? 16 (hexDigit d) = some d := by
  have hall : ∀ d < 16, digit? 16 (hexDigit d) = some d := by decide
  exact hall d h

/-- A control character is written as its code unit. -/
theorem lexFrom_unit {c : Char} (h : c.toNat < 0x20) :
    lexFrom (.string text) read
        ('\\' :: 'u' :: '0' :: '0' :: hexDigit (c.toNat / 16) :: hexDigit (c.toNat % 16) :: rest) =
      lexFrom (.string (c :: text)) read rest := by
  have hhigh : digit? 16 (hexDigit (c.toNat / 16)) = some (c.toNat / 16) :=
    digit?_hexDigit (by omega)
  have hlow : digit? 16 (hexDigit (c.toNat % 16)) = some (c.toNat % 16) :=
    digit?_hexDigit (by omega)
  have hunit : endUnit text none (c.toNat / 16 * 16 + c.toNat % 16) =
      some (.string (c :: text)) := by
    rw [Nat.div_add_mod' c.toNat 16, endUnit, if_neg (by omega), if_neg (by omega),
      Char.ofNat_toNat]
  show lexFrom (.unit text none 2 0) read _ = _
  simp [lexFrom, lexStep, hhigh, hlow, hunit]

/-- A character in a string is read back as it was, however it is written. -/
theorem lexFrom_writeChar (c : Char) (text rest : List Char) :
    lexFrom (.string text) read (writeChar c rest) = lexFrom (.string (c :: text)) read rest := by
  rw [writeChar]
  split_ifs with hquote hbackslash hback hform hfeed hreturn htab hcontrol
  · rw [hquote]; rfl
  · rw [hbackslash]; rfl
  · rw [hback]; rfl
  · rw [hform]; rfl
  · rw [hfeed]; rfl
  · rw [hreturn]; rfl
  · rw [htab]; rfl
  · exact lexFrom_unit hcontrol
  · rw [lexFrom, lexStep, if_neg hquote, if_neg hbackslash, if_neg hcontrol]
    rfl

/-- A string is read back as it was. -/
theorem lexFrom_writeString (text : String) (rest : List Char) :
    lexFrom .between read (writeString text rest) =
      lexFrom .between (.scalar (.string text) :: read) rest := by
  have hrun : ∀ (characters done : List Char),
      lexFrom (.string done) read (characters.foldr writeChar ('"' :: rest)) =
        lexFrom .between
          (.scalar (.string (String.ofList (done.reverse ++ characters))) :: read) rest := by
    intro characters
    induction characters with
    | nil => intro done; simp [lexFrom, lexStep]
    | cons c others ih => intro done; simp [lexFrom_writeChar, ih]
  show lexFrom (.string []) read _ = _
  simp [hrun]

/-! ## Values -/

/-- A key and the colon behind it. -/
theorem lexFrom_key (key : String) (rest : List Char) :
    lexFrom .between read (writeString key (':' :: rest)) =
      lexFrom .between (.colon :: .scalar (.string key) :: read) rest := by
  rw [lexFrom_writeString]
  rfl

/-- A number begins with a sign or a digit. -/
theorem beginLexeme_numeric {c : Char} (h : c = '-' ∨ c.isDigit) :
    beginLexeme c = some (.number [c], []) := by
  rcases h with rfl | h
  · rfl
  · have hother : ∀ d : Char, d.isDigit = false → c ≠ d := by
      rintro d hd rfl
      exact absurd h (by simp [hd])
    have hseparator : isSeparator c = false := by
      simp [isSeparator, hother]
    simp [beginLexeme, hseparator, hother, h]

theorem lexFrom_decimalText {n : Int} (hlow : -Int.pow 2 63 ≤ n) (hhigh : n < Int.pow 2 64)
    (hstops : Stops rest) :
    lexFrom .between read (decimalText n ++ rest) =
      lexFrom .between (.scalar (.integer n) :: read) rest := by
  have hdigits : ∀ c ∈ decimalDigits n.natAbs, isNumeric c := fun c hc => by
    simp [isNumeric, isDigit_of_mem_decimalDigits hc]
  obtain ⟨c, others, htext, hc, hothers⟩ : ∃ c others, decimalText n = c :: others ∧
      (c = '-' ∨ c.isDigit) ∧ ∀ d ∈ others, isNumeric d := by
    rw [decimalText]
    split
    · exact ⟨_, _, rfl, .inl rfl, hdigits⟩
    · obtain ⟨c, others, htext⟩ := List.exists_cons_of_ne_nil
        (show decimalDigits n.natAbs ≠ [] from Nat.toDigits_ne_nil)
      rw [htext] at hdigits
      exact ⟨c, others, htext, .inr (isDigit_of_mem_decimalDigits (htext ▸ List.mem_cons_self)),
        fun d hd => hdigits d (List.mem_cons_of_mem _ hd)⟩
  have hvalue := number?_decimalText hlow hhigh
  rw [htext] at hvalue ⊢
  rw [List.cons_append, lexFrom, lexStep, beginLexeme_numeric hc]
  exact (lexFrom_numeric hothers [c]).trans (lexFrom_number (by simpa using hvalue) hstops)

theorem stops_of_head {c : Char} (hnumeric : isNumeric c = false) (hlower : c.isLower = false) :
    Stops (c :: rest) := by
  rintro _ ⟨rfl⟩
  exact ⟨hnumeric, hlower⟩

theorem stops_writeItems (items : List Json) : Stops (writeItems rest items) := by
  cases items <;> exact stops_of_head rfl rfl

theorem stops_writeMembers (members : List (String × Json)) :
    Stops (writeMembers rest members) := by
  cases members <;> exact stops_of_head rfl rfl

mutual

/-- A value on one line divides into its lexemes. -/
theorem lexFrom_write : ∀ {value : Json} {read : List Lexeme} {rest : List Char},
    IsExact value → Stops rest → lexFrom .between read (write rest value) =
      lexFrom .between (value.lexemes.reverse ++ read) rest
  | .null, _, _, _, hstops => lexFrom_word rfl hstops
  | .bool true, _, _, _, hstops => lexFrom_word rfl hstops
  | .bool false, _, _, _, hstops => lexFrom_word rfl hstops
  | .integer _, _, _, h, hstops => lexFrom_decimalText h.1 h.2 hstops
  | .float _, _, _, h, _ => h.elim
  | .string text, _, rest, _, _ => lexFrom_writeString text rest
  | .array [], _, _, _, _ => rfl
  | .array (item :: items), read, rest, h, _ => by
      show lexFrom .between (.openArray :: read) (write (writeItems rest items) item) = _
      rw [lexFrom_write h.1 (stops_writeItems items), lexFrom_writeItems h.2]
      simp [lexemes]
  | .object [], _, _, _, _ => rfl
  | .object ((key, value) :: members), read, rest, h, _ => by
      show lexFrom .between (.openObject :: read)
        (writeString key (':' :: write (writeMembers rest members) value)) = _
      rw [lexFrom_key, lexFrom_write h.1 (stops_writeMembers members), lexFrom_writeMembers h.2]
      simp [lexemes]

theorem lexFrom_writeItems : ∀ {items : List Json} {read : List Lexeme} {rest : List Char},
    AreExact items → lexFrom .between read (writeItems rest items) =
      lexFrom .between ((lexemesOfItems items).reverse ++ read) rest
  | [], _, _, _ => rfl
  | item :: items, read, rest, h => by
      show lexFrom .between (.comma :: read) (write (writeItems rest items) item) = _
      rw [lexFrom_write h.1 (stops_writeItems items), lexFrom_writeItems h.2]
      simp [lexemesOfItems]

theorem lexFrom_writeMembers : ∀ {members : List (String × Json)} {read : List Lexeme}
    {rest : List Char}, HaveExact members → lexFrom .between read (writeMembers rest members) =
      lexFrom .between ((lexemesOfMembers members).reverse ++ read) rest
  | [], _, _, _ => rfl
  | (key, value) :: members, read, rest, h => by
      show lexFrom .between (.comma :: read)
        (writeString key (':' :: write (writeMembers rest members) value)) = _
      rw [lexFrom_key, lexFrom_write h.1 (stops_writeMembers members), lexFrom_writeMembers h.2]
      simp [lexemesOfMembers]

end

/-! ## Indented lines -/

/-- A line break and the blanks behind it separate lexemes and are none. -/
theorem lexFrom_writeLine (level : ℕ) (rest : List Char) :
    lexFrom .between read (writeLine level rest) = lexFrom .between read rest := by
  have hblanks : ∀ count, lexFrom .between read (List.replicate count ' ' ++ rest) =
      lexFrom .between read rest := by
    intro count
    induction count with
    | zero => rfl
    | succ count ih => exact ih
  exact hblanks (2 * level)

theorem stops_writeItemLines (level : ℕ) (items : List Json) :
    Stops (writeItemLines level rest items) := by
  cases items <;> exact stops_of_head rfl rfl

theorem stops_writeMemberLines (level : ℕ) (members : List (String × Json)) :
    Stops (writeMemberLines level rest members) := by
  cases members <;> exact stops_of_head rfl rfl

/-- A key with the colon and the blank behind it. -/
theorem lexFrom_spacedKey (key : String) (rest : List Char) :
    lexFrom .between read (writeString key (':' :: ' ' :: rest)) =
      lexFrom .between (.colon :: .scalar (.string key) :: read) rest := by
  rw [lexFrom_key]
  rfl

mutual

/-- A value on indented lines divides into the same lexemes. -/
theorem lexFrom_writeIndented : ∀ {value : Json} {level : ℕ} {read : List Lexeme}
    {rest : List Char}, IsExact value → Stops rest →
    lexFrom .between read (writeIndented level rest value) =
      lexFrom .between (value.lexemes.reverse ++ read) rest
  | .null, _, _, _, _, hstops => lexFrom_word rfl hstops
  | .bool true, _, _, _, _, hstops => lexFrom_word rfl hstops
  | .bool false, _, _, _, _, hstops => lexFrom_word rfl hstops
  | .integer _, _, _, _, h, hstops => lexFrom_decimalText h.1 h.2 hstops
  | .float _, _, _, _, h, _ => h.elim
  | .string text, _, _, rest, _, _ => lexFrom_writeString text rest
  | .array [], _, _, _, _, _ => rfl
  | .array (item :: items), level, read, rest, h, _ => by
      show lexFrom .between (.openArray :: read) (writeLine (level + 1)
        (writeIndented (level + 1) (writeItemLines level rest items) item)) = _
      rw [lexFrom_writeLine, lexFrom_writeIndented h.1 (stops_writeItemLines level items),
        lexFrom_writeItemLines h.2]
      simp [lexemes]
  | .object [], _, _, _, _, _ => rfl
  | .object ((key, value) :: members), level, read, rest, h, _ => by
      show lexFrom .between (.openObject :: read) (writeLine (level + 1) (writeString key
        (':' :: ' ' :: writeIndented (level + 1) (writeMemberLines level rest members) value))) = _
      rw [lexFrom_writeLine, lexFrom_spacedKey,
        lexFrom_writeIndented h.1 (stops_writeMemberLines level members),
        lexFrom_writeMemberLines h.2]
      simp [lexemes]

theorem lexFrom_writeItemLines : ∀ {items : List Json} {level : ℕ} {read : List Lexeme}
    {rest : List Char}, AreExact items →
    lexFrom .between read (writeItemLines level rest items) =
      lexFrom .between ((lexemesOfItems items).reverse ++ read) rest
  | [], level, _, _, _ => lexFrom_writeLine level _
  | item :: items, level, read, rest, h => by
      show lexFrom .between (.comma :: read) (writeLine (level + 1)
        (writeIndented (level + 1) (writeItemLines level rest items) item)) = _
      rw [lexFrom_writeLine, lexFrom_writeIndented h.1 (stops_writeItemLines level items),
        lexFrom_writeItemLines h.2]
      simp [lexemesOfItems]

theorem lexFrom_writeMemberLines : ∀ {members : List (String × Json)} {level : ℕ}
    {read : List Lexeme} {rest : List Char}, HaveExact members →
    lexFrom .between read (writeMemberLines level rest members) =
      lexFrom .between ((lexemesOfMembers members).reverse ++ read) rest
  | [], level, _, _, _ => lexFrom_writeLine level _
  | (key, value) :: members, level, read, rest, h => by
      show lexFrom .between (.comma :: read) (writeLine (level + 1) (writeString key
        (':' :: ' ' :: writeIndented (level + 1) (writeMemberLines level rest members) value))) = _
      rw [lexFrom_writeLine, lexFrom_spacedKey,
        lexFrom_writeIndented h.1 (stops_writeMemberLines level members),
        lexFrom_writeMemberLines h.2]
      simp [lexemesOfMembers]

end

/-! ## Whole texts -/

theorem lexemes?_compact (h : value.IsExact) : lexemes? value.compact = some value.lexemes := by
  rw [lexemes?, compact, String.toList_ofList, lexFrom_write h (by simp [Stops])]
  simp [lexFrom, lexEnd]

theorem lexemes?_pretty (h : value.IsExact) : lexemes? value.pretty = some value.lexemes := by
  rw [lexemes?, pretty, String.toList_ofList, lexFrom_writeIndented h (by simp [Stops])]
  simp [lexFrom, lexEnd]

end TreeLowering.Json
