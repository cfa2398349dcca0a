/-
# Delimiters of string literals

A string literal is a run of marks and then a body between two occurrences of a delimiter. It
loses the marks and the delimiters and nothing else. A body between single delimiters is
found unless it could as well be a shorter one between tripled delimiters, which are tried
first; there is no other way to read a literal in two ways.
-/

import TreeLowering.Lowering.Literal
import TreeLowering.Proofs.Outcome

namespace TreeLowering.Lowering

variable {literal marks delimiter body text : List Char}

/-! ## Literals -/

/-- A delimiter is one or three of one kind of quotation mark. -/
inductive IsDelimiter : List Char → Prop where
  | single {mark : Char} (kind : mark = '"' ∨ mark = '\'') : IsDelimiter [mark]
  | tripled {mark : Char} (kind : mark = '"' ∨ mark = '\'') : IsDelimiter [mark, mark, mark]

/-- A literal with the given marks, delimiter and body. -/
structure IsQuoted (literal marks delimiter body : List Char) : Prop where
  marked : ∀ c ∈ marks, c ∈ "rRbBuUfF".toList
  delimited : IsDelimiter delimiter
  spelled : literal = marks ++ (delimiter ++ body ++ delimiter)

/-- A body together with its delimiters is not a body between tripled delimiters, unless its
own are tripled. -/
def KeepsApart (delimiter body : List Char) : Prop :=
  delimiter.length = 3 ∨ body.length < 4 ∨ ¬ delimiter ++ delimiter <+: body ∨
    ¬ delimiter ++ delimiter <:+ body

theorem isDelimiter_iff_mem : IsDelimiter delimiter ↔ delimiter ∈ delimiters := by
  constructor
  · rintro (⟨rfl | rfl⟩ | ⟨rfl | rfl⟩) <;> decide
  · intro h
    simp only [delimiters, List.mem_cons, List.not_mem_nil, or_false] at h
    rcases h with rfl | rfl | rfl | rfl
    · exact .tripled (.inl rfl)
    · exact .tripled (.inr rfl)
    · exact .single (.inl rfl)
    · exact .single (.inr rfl)

/-! ## One delimiter -/

theorem between?_isSome_iff : (between? delimiter text).isSome ↔
    2 * delimiter.length ≤ text.length ∧ delimiter <+: text ∧ delimiter <:+ text := by
  simp [between?]

/-- What stands between two occurrences of a delimiter is what they were put around. -/
theorem between?_eq_some_iff :
    between? delimiter text = some body ↔ text = delimiter ++ body ++ delimiter := by
  have hinner (inner : List Char) :
      ((delimiter ++ inner ++ delimiter).drop delimiter.length).take
        ((delimiter ++ inner ++ delimiter).length - 2 * delimiter.length) = inner := by
    have hlength : (delimiter ++ inner ++ delimiter).length - 2 * delimiter.length =
        inner.length := by
      simp only [List.length_append]
      omega
    rw [hlength, List.append_assoc, List.drop_left, List.take_left]
  constructor
  · intro h
    obtain ⟨hlength, ⟨rest, rfl⟩, ⟨front, hfront⟩⟩ :=
      between?_isSome_iff.mp (Option.isSome_of_mem h)
    rw [List.length_append] at hlength
    -- the closing delimiter lies behind the opening one
    have hclosing : delimiter <:+ rest :=
      List.suffix_of_suffix_length_le ⟨front, hfront⟩ (List.suffix_append ..) (by omega)
    obtain ⟨inner, rfl⟩ := hclosing
    rw [← List.append_assoc, between?, hinner] at h
    obtain ⟨-, hsome⟩ := Option.ite_none_right_eq_some.mp h
    rw [← Option.some.inj hsome, List.append_assoc]
  · rintro rfl
    rw [between?, hinner, if_pos]
    refine ⟨?_, ?_, ?_⟩
    · simp only [List.length_append]
      omega
    · rw [List.isPrefixOf_iff_prefix, List.append_assoc]
      exact List.prefix_append ..
    · rw [List.isSuffixOf_iff_suffix]
      exact List.suffix_append ..

/-! ## The delimiters in their order -/

/-- Tripled delimiters around a text with single ones are pairs of them around its body. -/
theorem between?_tripled (mark : Char) (body : List Char) :
    between? [mark, mark, mark] ([mark] ++ body ++ [mark]) = between? [mark, mark] body := by
  ext inner
  rw [between?_eq_some_iff, between?_eq_some_iff]
  have htripled : [mark, mark, mark] ++ inner ++ [mark, mark, mark] =
      [mark] ++ ([mark, mark] ++ inner ++ [mark, mark]) ++ [mark] := by simp
  rw [htripled, List.append_left_inj, List.append_right_inj]

theorem between?_eq_none {mark other : Char} (hne : mark ≠ other) (rest marks : List Char) :
    between? (mark :: marks) (other :: rest) = none := by
  rw [Option.eq_none_iff_forall_ne_some]
  intro body hbody
  have hsame := between?_eq_some_iff.mp hbody
  rw [List.cons_append, List.cons_append] at hsame
  exact hne (List.cons.inj hsame).1.symm

/-- The body that is found in a text without marks. -/
def bodyOf? (text : List Char) : Option (List Char) :=
  delimiters.findSome? fun delimiter => between? delimiter text

/-- Only the delimiters of the mark that a text begins with can be its delimiters. -/
theorem bodyOf?_cons {mark : Char} (kind : mark = '"' ∨ mark = '\'') (rest : List Char) :
    bodyOf? (mark :: rest) =
      (between? [mark, mark, mark] (mark :: rest)).or (between? [mark] (mark :: rest)) := by
  rcases kind with rfl | rfl
  · have hother := between?_eq_none (show '\'' ≠ '"' by decide) rest
    simp only [bodyOf?, delimiters, List.findSome?_cons, List.findSome?_nil, hother]
    cases between? ['"', '"', '"'] ('"' :: rest) <;> cases between? ['"'] ('"' :: rest) <;> rfl
  · have hother := between?_eq_none (show '"' ≠ '\'' by decide) rest
    simp only [bodyOf?, delimiters, List.findSome?_cons, List.findSome?_nil, hother]
    cases between? ['\'', '\'', '\''] ('\'' :: rest) <;>
      cases between? ['\''] ('\'' :: rest) <;> rfl

theorem bodyOf?_tripled {mark : Char} (kind : mark = '"' ∨ mark = '\'') (body : List Char) :
    bodyOf? ([mark, mark, mark] ++ body ++ [mark, mark, mark]) = some body := by
  have hown : between? [mark, mark, mark] ([mark, mark, mark] ++ body ++ [mark, mark, mark]) =
      some body := between?_eq_some_iff.mpr rfl
  have hfirst := bodyOf?_cons kind ([mark, mark] ++ body ++ [mark, mark, mark])
  rw [show mark :: ([mark, mark] ++ body ++ [mark, mark, mark]) =
    [mark, mark, mark] ++ body ++ [mark, mark, mark] from rfl, hown] at hfirst
  exact hfirst

/-- Of a text with single delimiters the shorter body between tripled ones is found, and the
body itself if there is none. -/
theorem bodyOf?_single {mark : Char} (kind : mark = '"' ∨ mark = '\'') (body : List Char) :
    bodyOf? ([mark] ++ body ++ [mark]) = (between? [mark, mark] body).or (some body) := by
  have hown : between? [mark] ([mark] ++ body ++ [mark]) = some body :=
    between?_eq_some_iff.mpr rfl
  have hfirst := bodyOf?_cons kind (body ++ [mark])
  rw [show mark :: (body ++ [mark]) = [mark] ++ body ++ [mark] from rfl, hown,
    between?_tripled] at hfirst
  exact hfirst

/-- A body is found exactly if it keeps apart from its delimiters. -/
theorem bodyOf?_eq_some_iff (h : IsDelimiter delimiter) :
    bodyOf? (delimiter ++ body ++ delimiter) = some body ↔ KeepsApart delimiter body := by
  cases h with
  | tripled kind =>
      rw [bodyOf?_tripled kind]
      exact iff_of_true rfl (.inl rfl)
  | @single mark kind =>
      rw [bodyOf?_single kind]
      have hapart : KeepsApart [mark] body ↔ ¬ (between? [mark, mark] body).isSome := by
        rw [between?_isSome_iff, KeepsApart]
        simp only [List.length_cons, List.length_nil, List.singleton_append]
        grind
      rw [hapart]
      cases hinner : between? [mark, mark] body with
      | none => simp
      | some inner =>
          have hspelled := between?_eq_some_iff.mp hinner
          have hshorter : inner ≠ body := by
            rintro rfl
            have hlength := congrArg List.length hspelled
            simp only [List.length_append, List.length_cons] at hlength
            omega
          simpa using hshorter

theorem exists_of_bodyOf?_eq_some (h : bodyOf? text = some body) :
    ∃ delimiter, IsDelimiter delimiter ∧ text = delimiter ++ body ++ delimiter := by
  obtain ⟨delimiter, hmem, hbody⟩ := List.exists_of_findSome?_eq_some h
  exact ⟨delimiter, isDelimiter_iff_mem.mpr hmem, between?_eq_some_iff.mp hbody⟩

theorem bodyOf?_ne_none (h : IsDelimiter delimiter) (body : List Char) :
    bodyOf? (delimiter ++ body ++ delimiter) ≠ none := by
  cases h with
  | tripled kind =>
      rw [bodyOf?_tripled kind]
      exact Option.some_ne_none body
  | single kind =>
      rw [bodyOf?_single kind]
      simp

/-! ## Marks -/

/-- Behind the marks of a literal its first delimiter begins. -/
theorem IsQuoted.dropWhile_eq (h : IsQuoted literal marks delimiter body) :
    literal.dropWhile isStringMark = delimiter ++ body ++ delimiter := by
  obtain ⟨hmarks, hdelimiter, rfl⟩ := h
  rw [List.dropWhile_append_of_pos (by simpa [isStringMark] using hmarks)]
  rcases hdelimiter with ⟨rfl | rfl⟩ | ⟨rfl | rfl⟩ <;> rfl

theorem isQuoted_of_dropWhile_eq (hdelimiter : IsDelimiter delimiter)
    (h : literal.dropWhile isStringMark = delimiter ++ body ++ delimiter) :
    IsQuoted literal (literal.takeWhile isStringMark) delimiter body where
  marked c hc := by
    have hmark := List.all_eq_true.mp (List.all_takeWhile (l := literal)) c hc
    rwa [isStringMark, List.contains_iff_mem] at hmark
  delimited := hdelimiter
  spelled := by rw [← h, List.takeWhile_append_dropWhile]

/-! ## The statement -/

theorem stripDelimiters_eq (literal : String) : stripDelimiters literal =
    match bodyOf? (literal.toList.dropWhile isStringMark) with
    | some body => .ok (String.ofList body)
    | none => .error (.unrecognized "string literal" literal) := rfl

theorem stripDelimiters_eq_ok_iff {literal body : String} : stripDelimiters literal = .ok body ↔
    ∃ marks delimiter, IsQuoted literal.toList marks delimiter body.toList ∧
      KeepsApart delimiter body.toList := by
  rw [stripDelimiters_eq]
  constructor
  · intro h
    split at h
    case h_1 found hfound =>
      obtain rfl : String.ofList found = body := Except.ok.inj h
      rw [String.toList_ofList]
      obtain ⟨delimiter, hdelimiter, hspelled⟩ := exists_of_bodyOf?_eq_some hfound
      rw [hspelled] at hfound
      exact ⟨_, delimiter, isQuoted_of_dropWhile_eq hdelimiter hspelled,
        (bodyOf?_eq_some_iff hdelimiter).mp hfound⟩
    case h_2 => cases h
  · rintro ⟨marks, delimiter, hquoted, hapart⟩
    rw [hquoted.dropWhile_eq, (bodyOf?_eq_some_iff hquoted.delimited).mpr hapart]
    exact congrArg Except.ok String.ofList_toList

theorem stripDelimiters_eq_error_iff {literal : String} {e : Error} :
    stripDelimiters literal = .error e ↔ e = .unrecognized "string literal" literal ∧
      ∀ marks delimiter body, ¬ IsQuoted literal.toList marks delimiter body := by
  rw [stripDelimiters_eq]
  constructor
  · intro h
    split at h
    case h_1 => cases h
    case h_2 hnone =>
      refine ⟨(Except.error.inj h).symm, fun marks delimiter body hquoted => ?_⟩
      rw [hquoted.dropWhile_eq] at hnone
      exact bodyOf?_ne_none hquoted.delimited body hnone
  · rintro ⟨rfl, hnone⟩
    split
    case h_1 found hfound =>
      obtain ⟨delimiter, hdelimiter, hspelled⟩ := exists_of_bodyOf?_eq_some hfound
      exact absurd (isQuoted_of_dropWhile_eq hdelimiter hspelled) (hnone _ _ _)
    case h_2 => rfl

/-- A string literal has a body exactly if it consists of marks, a delimiter, that body and the
delimiter again, and the body is not taken for one between tripled delimiters. It is refused
exactly if it cannot be cut in this way at all, with any body. -/
theorem stripDelimiters_iff_isQuoted (literal : String) :
    (∀ body, stripDelimiters literal = .ok body ↔
      ∃ marks delimiter, IsQuoted literal.toList marks delimiter body.toList ∧
        KeepsApart delimiter body.toList) ∧
    ∀ e, stripDelimiters literal = .error e ↔
      e = .unrecognized "string literal" literal ∧
        ∀ marks delimiter body, ¬ IsQuoted literal.toList marks delimiter body :=
  ⟨fun _ => stripDelimiters_eq_ok_iff, fun _ => stripDelimiters_eq_error_iff⟩

/-- Four marks on either side are a tripled delimiter and a mark of the body. -/
example : stripDelimiters "b\"\"\"\"x\"\"\"\"" = .ok "\"x\"" := by rfl

end TreeLowering.Lowering
