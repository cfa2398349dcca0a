/-
# Reading written values

The reader takes the lexemes of a value back to the value, in whatever container it stands. So
a written value without fractions denotes itself.
-/

import TreeLowering.Json.Read
import TreeLowering.Proofs.Json.Written

namespace TreeLowering.Json

variable {value : Json}

/-- The lexemes of a value, where one may begin an array as well. -/
theorem readAll_firstItem (value : Json) (frames : List Frame) (rest : List Lexeme) :
    (value.lexemes ++ rest).foldlM (readStep none) ⟨frames, .firstItem⟩ =
      (value.lexemes ++ rest).foldlM (readStep none) ⟨frames, .value⟩ := by
  cases value with
  | array items => cases items <;> rfl
  | object members => cases members <;> rfl
  | _ => rfl

mutual

/-- The reader comes from the lexemes of a value to the value. -/
theorem readAll_lexemes : ∀ (value : Json) (frames : List Frame) (rest : List Lexeme),
    (value.lexemes ++ rest).foldlM (readStep none) ⟨frames, .value⟩ =
      rest.foldlM (readStep none) ⟨frames, .separator value⟩
  | .null, _, _ | .bool _, _, _ | .integer _, _, _ | .float _, _, _ | .string _, _, _ => rfl
  | .array [], _, _ | .object [], _, _ => rfl
  | .array (item :: items), frames, rest => by
      show (lexemes item ++ lexemesOfItems items ++ rest).foldlM (readStep none)
        ⟨.items [] :: frames, .firstItem⟩ = _
      rw [List.append_assoc, readAll_firstItem, readAll_lexemes item, readAll_items items]
      rfl
  | .object ((key, value) :: members), frames, rest => by
      show (lexemes value ++ lexemesOfMembers members ++ rest).foldlM (readStep none)
        ⟨.member [] key :: frames, .value⟩ = _
      rw [List.append_assoc, readAll_lexemes value, readAll_members members]
      rfl

/-- In an array, after its first items. -/
theorem readAll_items : ∀ (items : List Json) (last : Json) (read : List Json)
    (frames : List Frame) (rest : List Lexeme),
    (lexemesOfItems items ++ rest).foldlM (readStep none) ⟨.items read :: frames, .separator last⟩ =
      rest.foldlM (readStep none) ⟨frames, .separator (.array (read.reverse ++ last :: items))⟩
  | [], last, read, frames, rest => by
      show rest.foldlM (readStep none) ⟨frames, .separator (.array (last :: read).reverse)⟩ = _
      rw [List.reverse_cons]
  | item :: items, last, read, frames, rest => by
      show (lexemes item ++ lexemesOfItems items ++ rest).foldlM (readStep none)
        ⟨.items (last :: read) :: frames, .value⟩ = _
      rw [List.append_assoc, readAll_lexemes item, readAll_items items]
      simp

/-- In an object, after its first members. -/
theorem readAll_members : ∀ (members : List (String × Json)) (key : String) (last : Json)
    (read : List (String × Json)) (frames : List Frame) (rest : List Lexeme),
    (lexemesOfMembers members ++ rest).foldlM (readStep none)
        ⟨.member read key :: frames, .separator last⟩ =
      rest.foldlM (readStep none)
        ⟨frames, .separator (.object (read.reverse ++ (key, last) :: members))⟩
  | [], key, last, read, frames, rest => by
      show rest.foldlM (readStep none)
        ⟨frames, .separator (.object ((key, last) :: read).reverse)⟩ = _
      rw [List.reverse_cons]
  | (next, value) :: members, key, last, read, frames, rest => by
      show (lexemes value ++ lexemesOfMembers members ++ rest).foldlM (readStep none)
        ⟨.member ((key, last) :: read) next :: frames, .value⟩ = _
      rw [List.append_assoc, readAll_lexemes value, readAll_members members]
      simp

end

theorem ofLexemes?_lexemes (value : Json) : ofLexemes? none value.lexemes = some value := by
  have hread := readAll_lexemes value [] []
  rw [List.append_nil] at hread
  rw [ofLexemes?, hread]
  rfl

/-- A value without fractions is read back from its line. -/
theorem parse?_compact (h : value.IsExact) : parse? none value.compact = some value := by
  rw [parse?, lexemes?_compact h]
  exact ofLexemes?_lexemes value

/-- A value without fractions is read back from its indented lines. -/
theorem parse?_pretty (h : value.IsExact) : parse? none value.pretty = some value := by
  rw [parse?, lexemes?_pretty h]
  exact ofLexemes?_lexemes value

end TreeLowering.Json
