/-
# Matches with nothing inside

A rule all of whose parts may be left out can match a text and have no match inside. Its
text is then kept as a token, which most of these rules pass over, so that they reduce as
without any parts. Five rules look for an operand in the place of that token and refuse
it: for them the match reduces as without parts only if its text is empty.
-/

import Mathlib.Tactic.FinCases
import TreeLowering.Grammar.Match
import TreeLowering.Lowering.Transform
import TreeLowering.Proofs.Tree.Schema

namespace TreeLowering

open TreeLowering.Lowering TreeLowering.Reduced

namespace Rule

/-- The rules that may have no parts at all. -/
def mayBeBare : List Rule := [
    .returnStmt, .yieldExpr, .raiseStmt, .slice, .starParam, .passStmt, .breakStmt, .continueStmt,
    .importStar, .slash, .listDisplay, .tupleDisplay, .setDisplay, .dictDisplay, .argumentList,
    .parameterList, .suite, .simpleStmt, .fileInput, .moduleRoot]

/-- What a rule that may have no parts looks for in the first place, if it takes an operand
there. -/
def firstOperand? : Rule → Option String
  | .returnStmt | .yieldExpr => some "returned value"
  | .raiseStmt => some "raised exception"
  | .slice => some "slice lower bound"
  | .starParam => some "variadic parameter"
  | _ => none

theorem mem_all (rule : Rule) : rule ∈ all := by
  cases rule <;> decide +kernel

/-- Every rule is found by its name. -/
theorem ofName?_name (rule : Rule) : ofName? rule.name = some rule := by
  have hnames : ∀ rule ∈ all, ofName? rule.name = some rule := by decide +kernel
  exact hnames rule rule.mem_all

/-- No rule that builds something is named as a token or as a placeholder. -/
theorem name_is_lower (rule : Rule) :
    rule.name ≠ absentRule ∧ Text.isCapitalized rule.name = false := by
  cases rule <;> decide +kernel

end Rule

variable {options : Options} {rule : Rule} {position : Position}

theorem reduce_name (options : Options) (rule : Rule) (position : Position)
    {children : List ParseTree} {items : List Reduced}
    (h : reduceAll options children = .ok items) :
    reduce options (.rule rule.name children position) = apply options rule position items := by
  rw [reduce, h]
  simp only [rule.ofName?_name]

/-! ## Tokens in the first place -/

/-- Rules without an operand in the first place pass over a token. -/
theorem apply_token_of_no_operand (hrule : rule ∈ Rule.mayBeBare)
    (hoperand : rule.firstOperand? = none) (t : Token) :
    apply options rule position [.token t] = apply options rule position [] := by
  revert hoperand
  fin_cases hrule <;> intro hoperand <;> first | rfl | cases hoperand

/-- A token is no operand. -/
theorem apply_token_of_operand {what : String} (hoperand : rule.firstOperand? = some what)
    (t : Token) : apply options rule position [.token t] =
      .error (.inRule rule.name position (.shape what (Reduced.token t).describe)) := by
  cases rule <;> cases hoperand <;> rfl

/-- Without parts these rules succeed. -/
theorem apply_nil_of_mayBeBare (options : Options) (position : Position)
    (hrule : rule ∈ Rule.mayBeBare) : ∃ value, apply options rule position [] = .ok value := by
  fin_cases hrule <;> exact ⟨_, rfl⟩

/-! ## Matches -/

variable {source : List Char} {start stop : Nat}

/-- A match with nothing inside is its rule, with its text as the only part unless that is
empty. -/
theorem reduce_leaf_match (options : Options) (rule : Rule) (source : List Char)
    (start stop : Nat) :
    reduce options (Match.toTree source (.mk rule.name start stop [])) =
      apply options rule (spanPosition source start stop)
        (if spanText source start stop = "" then []
          else [.token ⟨Text.capitalize rule.name, spanText source start stop,
            spanPosition source start stop⟩]) := by
  obtain ⟨hpresent, hlower⟩ := rule.name_is_lower
  rw [Match.toTree, if_neg hpresent]
  by_cases hempty : spanText source start stop = ""
  · simp only [hlower, hempty, Bool.false_eq_true, if_false, if_true]
    exact reduce_name options rule _ rfl
  · have hsome : (spanText source start stop).isEmpty = false := by simpa using hempty
    simp only [hlower, hsome, hempty, Bool.false_eq_true, if_false]
    exact reduce_name options rule _ rfl

/-- A match with nothing inside, of a rule that may have no parts, reduces as without parts
exactly when its text is empty or the rule takes no operand in the first place. Otherwise
the rule refuses its own text, where without parts it would have succeeded. -/
theorem reduce_leaf_match_eq_apply_nil_iff (options : Options) (source : List Char)
    (start stop : Nat) (rule : Rule) (hrule : rule ∈ Rule.mayBeBare) :
    (reduce options (Match.toTree source (.mk rule.name start stop [])) =
        apply options rule (spanPosition source start stop) [] ↔
      spanText source start stop = "" ∨ rule.firstOperand? = none) ∧
    ∀ what, rule.firstOperand? = some what → spanText source start stop ≠ "" →
      reduce options (Match.toTree source (.mk rule.name start stop [])) =
        .error (.inRule rule.name (spanPosition source start stop)
          (.shape what s!"token `{spanText source start stop}`")) ∧
      ∃ value, apply options rule (spanPosition source start stop) [] = .ok value := by
  have hrefused : ∀ what, rule.firstOperand? = some what → spanText source start stop ≠ "" →
      reduce options (Match.toTree source (.mk rule.name start stop [])) =
        .error (.inRule rule.name (spanPosition source start stop)
          (.shape what s!"token `{spanText source start stop}`")) := by
    intro what hwhat htext
    rw [reduce_leaf_match, if_neg htext, apply_token_of_operand hwhat]
    rfl
  obtain ⟨value, hvalue⟩ := apply_nil_of_mayBeBare options (spanPosition source start stop) hrule
  refine ⟨⟨fun heq => ?_, ?_⟩, fun what hwhat htext => ⟨hrefused what hwhat htext, value, hvalue⟩⟩
  · by_contra hneither
    obtain ⟨htext, hoperand⟩ := not_or.mp hneither
    obtain ⟨what, hwhat⟩ := Option.ne_none_iff_exists'.mp hoperand
    rw [hvalue, hrefused what hwhat htext] at heq
    cases heq
  · rintro (htext | hoperand)
    · rw [reduce_leaf_match, if_pos htext]
    · rw [reduce_leaf_match]
      by_cases htext : spanText source start stop = ""
      · rw [if_pos htext]
      · rw [if_neg htext, apply_token_of_no_operand hrule hoperand]

/-- The text `raise` alone does not reduce as a `raise` without parts. -/
theorem reduce_leaf_match_eq_apply_nil_iff_raise :
    Rule.raiseStmt ∈ Rule.mayBeBare ∧
      reduce .default (Match.toTree "raise".toList (.mk "raise_stmt" 0 5 [])) =
        .error (.inRule "raise_stmt" ⟨1, 1, 1, 6⟩ (.shape "raised exception" "token `raise`")) :=
  ⟨by decide, ((reduce_leaf_match_eq_apply_nil_iff .default "raise".toList 0 5
    .raiseStmt (by decide)).2 _ rfl (by decide)).1⟩

/-- The text `return` alone is refused as the value that it might return, although a `return`
without parts is a statement. -/
theorem return_leaf_match_ne_apply_nil :
    reduce .default (Match.toTree "return".toList (.mk "return_stmt" 0 6 [])) ≠
      apply .default .returnStmt (spanPosition "return".toList 0 6) [] := by
  have hleaf := reduce_leaf_match .default .returnStmt "return".toList 0 6
  rw [if_neg (by decide), apply_token_of_operand rfl] at hleaf
  intro heq
  exact nomatch hleaf.symm.trans heq

end TreeLowering
