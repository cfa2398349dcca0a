/-
# Spellings of operators

An operator rule reads the words of its tokens and knows the operators that it stands for by
their words. A word ends at a blank and at the end of a token, so it does not matter how the
words of an operator are spread over tokens and which blanks stand around them, but a symbol
that is broken is not put together again.
-/

import TreeLowering.Proofs.Reduction.Transform

namespace TreeLowering

open TreeLowering.Lowering TreeLowering.Reduced

/-! ## Words of a text -/

namespace Text

variable {c : Char} {w text : List Char} {ws : List (List Char)}

/-- A word has characters, and none of them is blank. -/
def IsWord (w : List Char) : Prop :=
  w ≠ [] ∧ ∀ c ∈ w, isBlank c = false

instance : DecidablePred IsWord := fun w =>
  decidable_of_iff (w ≠ [] ∧ w.all (isBlank · == false)) (by simp [IsWord])

/-- A text consists of words and of blanks around them, where a word goes on up to a blank or
the end of the text. -/
inductive Spaced : List Char → List (List Char) → Prop
  | nil : Spaced [] []
  | blank {c : Char} {text : List Char} {ws : List (List Char)} (gap : isBlank c)
      (behind : Spaced text ws) : Spaced (c :: text) ws
  | word {w text : List Char} {ws : List (List Char)} (whole : IsWord w)
      (ends : ∀ c ∈ text.head?, isBlank c) (behind : Spaced text ws) :
      Spaced (w ++ text) (w :: ws)

theorem words_blank (h : isBlank c) (text : List Char) : words (c :: text) = words text := by
  rw [words.eq_def]
  exact if_pos h

/-- A character before a blank or the end of the text is the end of a word. -/
theorem words_last (h : isBlank c = false) (hends : ∀ d ∈ text.head?, isBlank d) :
    words (c :: text) = [c] :: words text := by
  rw [words.eq_def]
  simp only [h, Bool.false_eq_true, if_false]
  cases text with
  | nil => rfl
  | cons d others => exact if_pos (hends d rfl)

/-- A character before another one that is not blank joins its word. -/
theorem words_join {d : Char} (h : isBlank c = false) (hd : isBlank d = false)
    (text : List Char) : words (c :: d :: text) = (words (d :: text)).modifyHead (c :: ·) := by
  rw [words.eq_def]
  simp only [h, hd, Bool.false_eq_true, if_false]

theorem words_word (hword : IsWord w) (hends : ∀ c ∈ text.head?, isBlank c) :
    words (w ++ text) = w :: words text := by
  obtain ⟨hsome, hplain⟩ := hword
  induction w with
  | nil => exact absurd rfl hsome
  | cons c rest ih =>
      obtain ⟨hc, hrest⟩ := List.forall_mem_cons.mp hplain
      cases rest with
      | nil => exact words_last hc hends
      | cons d others =>
          have hbehind := ih (List.cons_ne_nil d others) hrest
          rw [List.cons_append] at hbehind
          rw [List.cons_append, List.cons_append, words_join hc (hrest d List.mem_cons_self),
            hbehind]
          rfl

theorem words_eq_of_spaced (h : Spaced text ws) : words text = ws := by
  induction h with
  | nil => rfl
  | blank gap _ ih => rw [words_blank gap, ih]
  | word whole ends _ ih => rw [words_word whole ends, ih]

/-- What is not blank begins with a word. -/
theorem Spaced.exists_word (hc : isBlank c = false) (h : Spaced (c :: text) ws) :
    ∃ w behind others, c :: text = w ++ behind ∧ ws = w :: others ∧ IsWord w ∧
      (∀ d ∈ behind.head?, isBlank d) ∧ Spaced behind others := by
  generalize htext : c :: text = given at h
  cases h with
  | nil => cases htext
  | blank gap =>
      cases htext
      cases hc.symm.trans gap
  | @word w behind others whole ends spaced =>
      exact ⟨w, behind, others, rfl, rfl, whole, ends, spaced⟩

theorem spaced_words (text : List Char) : Spaced text (words text) := by
  induction text with
  | nil => exact .nil
  | cons c rest ih =>
      cases hc : isBlank c with
      | true =>
          rw [words_blank hc]
          exact .blank hc ih
      | false =>
          by_cases hends : ∀ d ∈ rest.head?, isBlank d
          · rw [words_last hc hends]
            have hword : IsWord [c] := ⟨List.cons_ne_nil c [], by simpa using hc⟩
            exact .word hword hends ih
          · cases rest with
            | nil => simp at hends
            | cons d others =>
                have hd : isBlank d = false := by simpa using hends
                rw [words_join hc hd]
                -- the word behind is made longer by one character
                obtain ⟨w, behind, ws, htext, hws, hword, hends, hspaced⟩ := ih.exists_word hd
                rw [hws, List.modifyHead_cons, htext, ← List.cons_append]
                have hlonger : IsWord (c :: w) :=
                  ⟨List.cons_ne_nil c w, List.forall_mem_cons.mpr ⟨hc, hword.2⟩⟩
                exact .word hlonger hends hspaced

/-- Every text is divided into words in one way. -/
theorem words_eq_iff : words text = ws ↔ Spaced text ws :=
  ⟨fun h => h ▸ spaced_words text, words_eq_of_spaced⟩

/-- Words that are put one blank apart are the words of the text. -/
theorem spaced_intercalate (h : ∀ w ∈ ws, IsWord w) : Spaced ([' '].intercalate ws) ws := by
  induction ws with
  | nil => exact .nil
  | cons w others ih =>
      obtain ⟨hword, hothers⟩ := List.forall_mem_cons.mp h
      cases others with
      | nil => simpa using Spaced.word hword (by simp) .nil
      | cons next behind =>
          have hjoined : [' '].intercalate (w :: next :: behind) =
              w ++ (' ' :: [' '].intercalate (next :: behind)) := by
            simp [List.intercalate, List.intersperse]
          rw [hjoined]
          exact .word hword (by simp; decide) (.blank (by decide) (ih hothers))

theorem splitWords_intercalate {ws : List String} (h : ∀ w ∈ ws, IsWord w.toList) :
    splitWords (" ".intercalate ws) = ws := by
  have hwords : words (" ".intercalate ws).toList = ws.map String.toList := by
    rw [String.toList_intercalate]
    exact words_eq_of_spaced (spaced_intercalate (by simpa using h))
  rw [splitWords, hwords]
  simp [Function.comp_def]

end Text

open TreeLowering.Text

/-! ## Spellings -/

namespace Rule

/-- The rules that look an operator up. -/
def operatorRules : List Rule :=
  [.addOp, .mulOp, .shiftOp, .unaryOp, .notOp, .compOp, .augAssignOp, .orOp, .andOp]

/-- The operators of a rule, each with the words that spell it. -/
def spellings : Rule → List (List String × Operator)
  | .addOp => [(["+"], .add), (["-"], .sub)]
  | .mulOp =>
    [(["*"], .mult), (["@"], .matMult), (["/"], .div), (["//"], .floorDiv), (["%"], .mod)]
  | .shiftOp => [(["<<"], .leftShift), ([">>"], .rightShift)]
  | .unaryOp => [(["+"], .plus), (["-"], .minus), (["~"], .invert)]
  | .notOp => [(["not"], .not)]
  | .compOp => [
    (["=="], .equal), (["!="], .notEqual), (["<>"], .notEqual), (["<"], .less),
    (["<="], .lessEqual), ([">"], .greater), ([">="], .greaterEqual), (["is"], .identical),
    (["is", "not"], .notIdentical), (["in"], .member), (["not", "in"], .notMember)]
  | .augAssignOp => Operator.binarySpellings.map fun spelling => ([spelling.1 ++ "="], spelling.2)
  | .orOp => [(["or"], .or)]
  | .andOp => [(["and"], .and)]
  | _ => []

end Rule

variable {rule : Rule} {op : Operator} {text : String} {words : List String}

theorem among_lookup_eq_some_iff {table : List (String × Operator)}
    (h : (table.map Prod.fst).Nodup) (operators : List Operator) :
    among operators (table.lookup text) = some op ↔
      (text, op) ∈ table.filter fun entry => operators.contains entry.2 := by
  rw [among, Option.filter_eq_some_iff, lookup_eq_some_iff_mem h, List.mem_filter]

/-- An augmented assignment is spelled by a binary operator and an equals sign. -/
theorem augmented?_eq_some_iff : Operator.augmented? text = some op ↔
    ∃ symbol, text = symbol ++ "=" ∧ (symbol, op) ∈ Operator.binarySpellings := by
  have hbinary (symbol : String) : Operator.binary? symbol = some op ↔ _ :=
    lookup_eq_some_iff_mem (by decide)
  rw [Operator.augmented?]
  constructor
  · intro h
    split at h
    case h_1 symbol hreverse =>
      refine ⟨String.ofList symbol.reverse, ?_, (hbinary _).mp h⟩
      have htext : text.toList = symbol.reverse ++ ['='] := by
        rw [← List.reverse_cons, ← hreverse, List.reverse_reverse]
      rw [← String.toList_inj, htext, String.toList_append, String.toList_ofList]
      rfl
    case h_2 => cases h
  · rintro ⟨symbol, rfl, hmem⟩
    have hreverse : (symbol ++ "=").toList.reverse = '=' :: symbol.toList.reverse := by simp
    rw [hreverse]
    simpa using (hbinary symbol).mpr hmem

/-- A text spells an operator for a rule if it has the words of one of the rule's spellings, one
blank apart. -/
theorem spelled?_eq_some_iff (hrule : rule ∈ Rule.operatorRules) :
    spelled? text rule = some (some op) ↔
      (text, op) ∈ rule.spellings.map fun spelling => (" ".intercalate spelling.1, spelling.2) := by
  have hbinary : (Operator.binarySpellings.map Prod.fst).Nodup := by decide
  have hunary : (Operator.unarySpellings.map Prod.fst).Nodup := by decide
  have hcomparison : (Operator.comparisonSpellings.map Prod.fst).Nodup := by decide
  have hboolean : (Operator.booleanSpellings.map Prod.fst).Nodup := by decide
  simp only [Rule.operatorRules, List.mem_cons, List.not_mem_nil, or_false] at hrule
  rcases hrule with rfl | rfl | rfl | rfl | rfl | rfl | rfl | rfl | rfl <;>
    rw [spelled?, Option.some_inj]
  · exact among_lookup_eq_some_iff hbinary _
  · exact among_lookup_eq_some_iff hbinary _
  · exact among_lookup_eq_some_iff hbinary _
  · exact among_lookup_eq_some_iff hunary _
  · exact among_lookup_eq_some_iff hunary _
  · exact lookup_eq_some_iff_mem hcomparison
  · rw [augmented?_eq_some_iff, Rule.spellings, List.map_map, List.mem_map]
    constructor
    · rintro ⟨symbol, rfl, hmem⟩
      exact ⟨(symbol, op), hmem, rfl⟩
    · rintro ⟨⟨symbol, found⟩, hmem, hsame⟩
      cases hsame
      exact ⟨symbol, rfl, hmem⟩
  · exact among_lookup_eq_some_iff hboolean _
  · exact among_lookup_eq_some_iff hboolean _

/-- The spellings of a rule consist of words. -/
theorem isWord_of_mem_spellings {entry : List String × Operator} (h : entry ∈ rule.spellings) :
    ∀ w ∈ entry.1, IsWord w.toList := by
  have hall : ∀ entry ∈ rule.spellings, ∀ w ∈ entry.1, IsWord w.toList := by
    cases rule <;> decide
  exact hall entry h

/-- An operator is spelled by one word, or by one of two pairs of words. -/
theorem shape_of_mem_spellings (h : (words, op) ∈ rule.spellings) :
    words.length = 1 ∨ rule = .compOp ∧ (words = ["is", "not"] ∨ words = ["not", "in"]) := by
  have hall : ∀ entry ∈ rule.spellings, entry.1.length = 1 ∨
      rule = .compOp ∧ (entry.1 = ["is", "not"] ∨ entry.1 = ["not", "in"]) := by
    cases rule <;> decide
  exact hall _ h

/-- Words spell an operator for a rule exactly if they are one of its spellings. -/
theorem spelled?_intercalate_eq_some_iff (hrule : rule ∈ Rule.operatorRules)
    (hwords : ∀ w ∈ words, IsWord w.toList) :
    spelled? (" ".intercalate words) rule = some (some op) ↔ (words, op) ∈ rule.spellings := by
  rw [spelled?_eq_some_iff hrule, List.mem_map]
  constructor
  · rintro ⟨⟨spelling, found⟩, hmem, hsame⟩
    obtain ⟨htext, rfl⟩ := Prod.mk.inj hsame
    -- words can be read back from the text that joins them
    have hback := congrArg splitWords htext
    rw [splitWords_intercalate (isWord_of_mem_spellings hmem), splitWords_intercalate hwords]
      at hback
    exact hback ▸ hmem
  · intro hmem
    exact ⟨(words, op), hmem, rfl⟩

/-! ## Lookup -/

/-- The words of some tokens, in order. -/
def WordsOf (tokens : List Token) (words : List String) : Prop :=
  ∃ parts : List (List String), parts.flatten = words ∧
    List.Forall₂ (fun t part => Spaced t.text.toList (part.map String.toList)) tokens parts

variable {tokens : List Token}

theorem splitWords_eq_iff :
    splitWords text = words ↔ Spaced text.toList (words.map String.toList) := by
  rw [← words_eq_iff, splitWords]
  constructor
  · rintro rfl
    simp [Function.comp_def]
  · intro h
    rw [h]
    simp [Function.comp_def]

theorem wordsOf_iff : WordsOf tokens words ↔
    tokens.flatMap (fun t => splitWords t.text) = words := by
  simp only [WordsOf, ← splitWords_eq_iff]
  constructor
  · rintro ⟨parts, rfl, hparts⟩
    induction hparts with
    | nil => rfl
    | cons hpart _ ih => rw [List.flatMap_cons, List.flatten_cons, hpart, ih]
  · rintro rfl
    refine ⟨tokens.map fun t => splitWords t.text, rfl, ?_⟩
    rw [List.forall₂_map_right_iff]
    exact List.forall₂_same.mpr fun _ _ => rfl

theorem mapM_tokenWords (tokens : List Token) : (tokens.map Reduced.token).mapM tokenWords =
    .ok (tokens.map fun t => splitWords t.text) := by
  induction tokens with
  | nil => rfl
  | cons t rest ih =>
      rw [List.map_cons, List.mapM_cons, ih]
      rfl

/-- Of tokens only the words matter. -/
theorem lexeme_eq (h : WordsOf tokens words) : lexeme (tokens.map .token) =
    if words.isEmpty then .error (.shape "operator token" "nothing")
    else .ok (" ".intercalate words) := by
  rw [← wordsOf_iff.mp h, List.flatMap_def, lexeme, mapM_tokenWords]
  rfl

theorem isWord_of_wordsOf (h : WordsOf tokens words) : ∀ w ∈ words, IsWord w.toList := by
  have hspaced {text : List Char} {ws : List (List Char)} (h : Spaced text ws) :
      ∀ w ∈ ws, IsWord w := by
    induction h with
    | nil => simp
    | blank _ _ ih => exact ih
    | word whole _ _ ih => exact List.forall_mem_cons.mpr ⟨whole, ih⟩
  obtain ⟨parts, rfl, hparts⟩ := h
  intro w hw
  obtain ⟨part, hpart, hmem⟩ := List.mem_flatten.mp hw
  obtain ⟨t, -, htext⟩ := exists_of_forall₂_right hparts hpart
  exact hspaced htext _ (List.mem_map_of_mem hmem)

theorem operator_eq_of_wordsOf {r : Reduction} (h : WordsOf tokens words) :
    Lowering.operator r (tokens.map .token) =
      if words.isEmpty then .error (.shape "operator token" "nothing")
      else match spelled? (" ".intercalate words) r.rule with
        | some (some op) => .ok (.operator op)
        | some none =>
          .error (.unrecognized s!"`{r.rule.name}` token" (" ".intercalate words))
        | none => .error (.unrecognized "operator rule" r.rule.name) := by
  rw [Lowering.operator, lexeme_eq h]
  split <;> rfl

theorem ne_nil_of_mem_spellings (h : (words, op) ∈ rule.spellings) : words ≠ [] := by
  rintro rfl
  rcases shape_of_mem_spellings h with hlength | ⟨-, hpair | hpair⟩
  · cases hlength
  · cases hpair
  · cases hpair

theorem operator_eq_ok_iff {r : Reduction} (hrule : r.rule ∈ Rule.operatorRules)
    (h : WordsOf tokens words) {result : Reduced} :
    Lowering.operator r (tokens.map .token) = .ok result ↔
      ∃ op, (words, op) ∈ r.rule.spellings ∧ result = .operator op := by
  have hspelled (op : Operator) :
      spelled? (" ".intercalate words) r.rule = some (some op) ↔ (words, op) ∈ r.rule.spellings :=
    spelled?_intercalate_eq_some_iff hrule (isWord_of_wordsOf h)
  rw [operator_eq_of_wordsOf h]
  simp only [← hspelled]
  split
  case isTrue hempty =>
    rw [List.isEmpty_iff] at hempty
    constructor
    · intro hresult
      cases hresult
    · rintro ⟨op, hop, -⟩
      exact absurd hempty (ne_nil_of_mem_spellings ((hspelled op).mp hop))
  case isFalse =>
    split
    case h_1 op hop => simp [hop, eq_comm]
    case h_2 hnone => simp [hnone]
    case h_3 hnone => simp [hnone]

theorem handlerOf_of_mem_operatorRules (hrule : rule ∈ Rule.operatorRules) :
    handlerOf rule = Lowering.operator := by
  simp only [Rule.operatorRules, List.mem_cons, List.not_mem_nil, or_false] at hrule
  rcases hrule with rfl | rfl | rfl | rfl | rfl | rfl | rfl | rfl | rfl <;> rfl

/-- An operator rule finds an operator exactly if the words of all its tokens, in order, are one
of the spellings of the rule, and it finds the operator that they spell. Tokens with the same
words have the same outcome. More than one word spells an operator only in `is not` and
`not in`, so nothing that is broken by a blank or by the end of a token is joined. -/
theorem apply_operatorRule_eq_ok_iff (options : Options) (position : Position) {rule : Rule}
    (hrule : rule ∈ Rule.operatorRules) (tokens : List Token) :
    ∃ words, WordsOf tokens words ∧ (∀ other, WordsOf tokens other → other = words) ∧
      (∀ result, apply options rule position (tokens.map .token) = .ok result ↔
        ∃ op, (words, op) ∈ rule.spellings ∧ result = .operator op) ∧
      (∀ tokens', WordsOf tokens' words →
        apply options rule position (tokens'.map .token) =
          apply options rule position (tokens.map .token)) ∧
      ∀ result, apply options rule position (tokens.map .token) = .ok result →
        words.length = 1 ∨ rule = .compOp ∧ (words = ["is", "not"] ∨ words = ["not", "in"]) := by
  have hwords : WordsOf tokens (tokens.flatMap fun t => splitWords t.text) := wordsOf_iff.mpr rfl
  have hok (result : Reduced) : apply options rule position (tokens.map .token) = .ok result ↔
      ∃ op, (tokens.flatMap fun t => splitWords t.text, op) ∈ rule.spellings ∧
        result = .operator op := by
    rw [apply_eq_ok_iff, handlerOf_of_mem_operatorRules hrule]
    exact operator_eq_ok_iff (r := ⟨rule, position, options⟩) hrule hwords
  refine ⟨_, hwords, fun other hother => (wordsOf_iff.mp hother).symm, hok, ?_, ?_⟩
  · intro tokens' hwords'
    rw [apply, apply, handlerOf_of_mem_operatorRules hrule, operator_eq_of_wordsOf hwords,
      operator_eq_of_wordsOf hwords']
  · intro result hresult
    obtain ⟨op, hspelled, -⟩ := (hok result).mp hresult
    exact shape_of_mem_spellings hspelled

/-- `is not` on three tokens, with a blank that is no ASCII character for one of them. -/
def scatteredTokens : List Token :=
  [⟨"IS", " is", .unknown⟩, ⟨"WS", "\u2003", .unknown⟩, ⟨"NOT", "not\n", .unknown⟩]

/-- The words of the three tokens spell an operator. -/
theorem apply_operatorRule_eq_ok_iff_scattered :
    Rule.compOp ∈ Rule.operatorRules ∧ WordsOf scatteredTokens ["is", "not"] ∧
    apply .default .compOp .unknown (scatteredTokens.map .token) =
      .ok (.operator .notIdentical) := by
  have hrule : Rule.compOp ∈ Rule.operatorRules := by decide
  have hscattered : WordsOf scatteredTokens ["is", "not"] := wordsOf_iff.mpr (by decide)
  obtain ⟨words, -, hunique, hok, -⟩ :=
    apply_operatorRule_eq_ok_iff .default .unknown hrule scatteredTokens
  obtain rfl := hunique _ hscattered
  exact ⟨hrule, hscattered, (hok _).mpr ⟨.notIdentical, by decide, rfl⟩⟩

/-- A symbol that is broken over two tokens is not put together. -/
example : apply .default .augAssignOp .unknown
    [.token ⟨"OP", "+", .unknown⟩, .token ⟨"OP", "=", .unknown⟩] =
      .error (.inRule "augassign_op" .unknown (.unrecognized "`augassign_op` token" "+ =")) := by
  rfl

end TreeLowering
