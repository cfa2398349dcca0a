/-
# Adjacent string literals

Adjacent literals become one constant, and its text is what their bodies spell behind each other,
with the escapes as they are written. A reader of escapes finds in it what it finds in the bodies
one by one, unless a body ends in an octal escape of fewer than three digits and the next one
begins with an octal digit: the escape does not end there any more and takes the digit.
-/

import TreeLowering.Proofs.LeafMatch
import TreeLowering.Proofs.Reduction.Places
import TreeLowering.Proofs.Reduction.Transform
import TreeLowering.Proofs.Text.Escape

namespace TreeLowering

open TreeLowering.Lowering TreeLowering.Reduced TreeLowering.Text

/-- The tree of a string literal, and what stands between its delimiters. -/
inductive IsLiteral : ParseTree → String → Prop
  | mk {t : Token} {body : String} (position : Position)
      (spelled : stripDelimiters t.text = .ok body) :
      IsLiteral (.rule "string" [.token t] position) body

/-- The constant with a text. -/
def stringNode (text : String) (position : Position) : Node :=
  .mk .constant [("value", .scalar (.text text))] position

variable {options : Options} {tree : ParseTree} {trees : List ParseTree} {body : String}
  {bodies : List String} {items : List Reduced}

/-! ## The text of the constant -/

theorem constant_text (r : Reduction) (text : String) :
    constant r (.text text) = .ok (.node (stringNode text r.position)) := by
  rw [constant, r.build_of_slots rfl]
  rfl

/-- A literal becomes the constant with its body. -/
theorem reduce_of_isLiteral (options : Options) (h : IsLiteral tree body) :
    ∃ position, reduce options tree = .ok (.node (stringNode body position)) := by
  obtain @⟨t, _, position, hspelled⟩ := h
  have hreduce : reduce options (.rule "string" [.token t] position) =
      apply options .string position [.token t] := reduce_name options .string position rfl
  refine ⟨position, ?_⟩
  rw [hreduce, apply_eq_ok_iff, handlerOf, string_eq]
  show (stripDelimiters t.text >>= fun text => constant _ (.text text)) = _
  rw [hspelled]
  exact constant_text _ body

theorem mapM_stringText_of_literals (options : Options) (h : List.Forall₂ IsLiteral trees bodies) :
    ∃ items, reduceAll options trees = .ok items ∧ items.mapM stringText = .ok bodies := by
  induction h with
  | nil => exact ⟨[], rfl, rfl⟩
  | @cons _ body _ _ hliteral _ ih =>
      obtain ⟨position, hfirst⟩ := reduce_of_isLiteral options hliteral
      obtain ⟨items, hrest, htexts⟩ := ih
      refine ⟨.node (stringNode body position) :: items, ?_, ?_⟩
      · rw [reduceAll, hfirst, hrest]
      · rw [List.mapM_cons, htexts]
        rfl

/-- Adjacent literals become the constant with their bodies behind each other. -/
theorem reduce_stringConcat (options : Options) (position : Position)
    (h : List.Forall₂ IsLiteral trees bodies) :
    reduce options (.rule "string_concat" trees position) =
      .ok (.node (stringNode (String.join bodies) position)) := by
  obtain ⟨items, hitems, htexts⟩ := mapM_stringText_of_literals options h
  have hreduce : reduce options (.rule "string_concat" trees position) =
      apply options .stringConcat position items := reduce_name options .stringConcat position hitems
  rw [hreduce, apply_eq_ok_iff]
  show (items.mapM stringText >>= fun texts => constant _ (.text (String.join texts))) = _
  rw [htexts]
  exact constant_text _ (String.join bodies)

/-! ## The escapes of the constant -/

/-- Literals all of whose bodies are complete become the constant with all the bodies, which is
complete. It stands for what the bodies stand for, one behind the other, exactly if no octal escape
at the end of what is joined takes digits of the next body, and else for fewer characters. -/
theorem reduce_stringConcat_decodes_iff (options : Options) (position : Position)
    (named : List Char → Option ℕ) {trees : List ParseTree} {bodies : List String}
    {decoded : List (List ℕ)} (hliterals : List.Forall₂ IsLiteral trees bodies)
    (hdecoded : List.Forall₂ (fun body points => decode named body.toList = some points) bodies
      decoded) :
    reduce options (.rule "string_concat" trees position) =
        .ok (.node (stringNode (String.join bodies) position)) ∧
      ∃ points, decode named (String.join bodies).toList = some points ∧
        (points = decoded.flatten ↔ NoneTakesDigits named [] (bodies.map String.toList)) ∧
        (points ≠ decoded.flatten → points.length < decoded.flatten.length) := by
  have htexts : List.Forall₂ (fun text points => decode named text = some points)
      (bodies.map String.toList) decoded := List.forall₂_map_left_iff.mpr hdecoded
  obtain ⟨points, hpoints, hequal, -, hless⟩ := exists_decode_append_flatten (a := []) rfl htexts
  simp only [List.nil_append, List.length_nil, Nat.zero_add] at hpoints hequal hless
  refine ⟨reduce_stringConcat options position hliterals, points, ?_, ⟨fun h => ?_, hequal⟩, ?_⟩
  · rw [String.toList_join, List.flatMap_def]
    exact hpoints
  · by_contra htakes
    exact absurd (congrArg List.length h) (Nat.ne_of_lt (hless htakes))
  · exact fun hother => hless fun hnone => hother (hequal hnone)

/-- The tree of a literal on the first line. -/
def literalTree (text : String) (column next : ℕ) : ParseTree :=
  .rule "string" [.token ⟨"STRING", text, ⟨1, column, 1, next⟩⟩] ⟨1, column, 1, next⟩

/-- An escape of three digits keeps apart from the digit in the next literal. -/
theorem reduce_stringConcat_decodes_iff_full :
    List.Forall₂ IsLiteral [literalTree "\"\\101\"" 1 7, literalTree "'7'" 8 11] ["\\101", "7"] ∧
    List.Forall₂ (fun body points => decode (fun _ => none) body.toList = some points)
      ["\\101", "7"] [[65], [55]] ∧
    reduce .default (.rule "string_concat" [literalTree "\"\\101\"" 1 7, literalTree "'7'" 8 11]
      ⟨1, 1, 1, 11⟩) = .ok (.node (stringNode "\\1017" ⟨1, 1, 1, 11⟩)) ∧
    decode (fun _ => none) "\\1017".toList = some [65, 55] := by
  have hliterals : List.Forall₂ IsLiteral
      [literalTree "\"\\101\"" 1 7, literalTree "'7'" 8 11] ["\\101", "7"] :=
    .cons (.mk _ rfl) (.cons (.mk _ rfl) .nil)
  have hdecoded : List.Forall₂
      (fun body points => decode (fun _ => none) body.toList = some points)
      ["\\101", "7"] [[65], [55]] := .cons rfl (.cons rfl .nil)
  obtain ⟨hreduce, points, hpoints, hiff, -⟩ :=
    reduce_stringConcat_decodes_iff .default ⟨1, 1, 1, 11⟩ (fun _ => none) hliterals hdecoded
  obtain rfl : points = [65, 55] := hiff.mpr (by decide)
  exact ⟨hliterals, hdecoded, hreduce, hpoints⟩

/-- The escape for the first code point and the digit two become the escape for the tenth. -/
theorem reduce_stringConcat_takes_digit :
    decode (fun _ => none) "\\1".toList = some [1] ∧
    decode (fun _ => none) "2".toList = some [50] ∧
    reduce .default (.rule "string_concat" [literalTree "\"\\1\"" 1 5, literalTree "\"2\"" 6 9]
      ⟨1, 1, 1, 9⟩) = .ok (.node (stringNode "\\12" ⟨1, 1, 1, 9⟩)) ∧
    decode (fun _ => none) "\\12".toList = some [10] ∧
    decode (fun _ => none) "\\12".toList ≠ some ([1] ++ [50]) :=
  ⟨rfl, rfl, rfl, rfl, by decide⟩

end TreeLowering
