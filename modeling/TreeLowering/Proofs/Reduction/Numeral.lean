/-
# Numerals

The token that a number is read from stands alone beneath the rule of the number, bare or
in groups. So it can be found in the tree without reducing it, and a numeral that reduces
is the constant that is read from that token.
-/

import TreeLowering.Proofs.Reduction.Places
import TreeLowering.Proofs.Reduction.Transform
import TreeLowering.Proofs.Tree.Branches

namespace TreeLowering

open TreeLowering.Lowering TreeLowering.Reduced

/-- Whether a rule is one of a number. -/
def Rule.isNumeral : Rule → Bool
  | .constNumber | .number => true
  | _ => false

/-- Whether a rule is one of a literal other than a number. -/
def Rule.isLiteral : Rule → Bool
  | .constTrue | .constFalse | .constNone | .string | .stringConcat => true
  | _ => false

/-- The token that a tree amounts to, bare or alone in groups. -/
def ParseTree.loneToken? : ParseTree → Option Token
  | .token t => some t
  | .rule name [child] _ => if (Rule.ofName? name).isNone then child.loneToken? else none
  | _ => none

/-- The token that a number is read from. -/
def Branch.numeral? (b : Branch) : Option Token :=
  if (Rule.ofName? b.name).any Rule.isNumeral then b.children.head?.bind ParseTree.loneToken?
  else none

/-- A branch of a literal other than a number. -/
def Branch.IsLiteral (b : Branch) : Prop :=
  (Rule.ofName? b.name).any Rule.isLiteral = true

variable {options : Options} {token : Token} {b : Branch} {rule : Rule} {p : Position}
variable {items : List Reduced}

/-! ## Steps -/

theorem reduceAll_cons (t : ParseTree) (rest : List ParseTree) :
    reduceAll options (t :: rest) =
      reduce options t >>= fun first => reduceAll options rest >>= fun others =>
        .ok (first :: others) := by
  rw [reduceAll]
  cases reduce options t with
  | error e => rfl
  | ok first => cases reduceAll options rest <;> rfl

theorem reduce_rule (name : String) (children : List ParseTree) :
    reduce options (.rule name children p) =
      reduceAll options children >>= fun items =>
        match Rule.ofName? name with
        | some rule => apply options rule p items
        | none => .ok (.fragment name items p) := by
  rw [reduce]
  cases reduceAll options children <;> rfl

theorem handlerOf_of_isNumeral (h : rule.isNumeral = true) : handlerOf rule = number := by
  cases rule with cases h
  | constNumber | number => rfl

/-- What a number is read as depends on the text and the class of its token alone. -/
theorem decodeNumber_eq {t u : Token} (text : t.text = u.text) (kind : t.kind = u.kind)
    (floats : FloatLiterals) : decodeNumber floats t = decodeNumber floats u := by
  have hclass : t.lexicalClass = u.lexicalClass := by
    rw [Token.lexicalClass, Token.lexicalClass, kind]
  rw [decodeNumber, decodeNumber, text, hclass]

theorem isLiteral_of_ofName? (hname : Rule.ofName? b.name = some rule)
    (h : rule.isLiteral = true) : b.IsLiteral := by
  rw [Branch.IsLiteral, hname]
  exact h

/-- No branch is one of a number and one of another literal. -/
theorem numeral?_of_isLiteral (h : b.IsLiteral) : b.numeral? = none := by
  rw [Branch.IsLiteral] at h
  rw [Branch.numeral?]
  cases hname : Rule.ofName? b.name with
  | none => rfl
  | some rule =>
      rw [hname, Option.any_some] at h
      cases rule with cases h
      | constTrue | constFalse | constNone | string | stringConcat => rfl

/-! ## Tokens that stand alone -/

/-- The token that a part amounts to stands alone in the tree that reduced to it. -/
def TokenOf (t : ParseTree) (item : Reduced) : Prop :=
  ∀ token, numberToken item = .ok token → t.loneToken? = some token

theorem tokenOf_group {name : String} (hname : Rule.ofName? name = none)
    {children : List ParseTree} (h : List.Forall₂ TokenOf children items) :
    TokenOf (.rule name children p) (.fragment name items p) := by
  intro token htoken
  cases h with
  | nil => cases htoken
  | cons hfirst hrest =>
      cases hrest with
      | nil =>
          rw [numberToken] at htoken
          rw [ParseTree.loneToken?, hname]
          exact hfirst token htoken
      | cons => cases htoken

theorem numeral?_of_expectNumber {b : Branch} (hname : Rule.ofName? b.name = some rule)
    (hrule : rule.isNumeral = true) (h : List.Forall₂ TokenOf b.children items) {token : Token}
    (htoken : expectNumber items[0]? = .ok token) : b.numeral? = some token := by
  rw [Branch.numeral?, hname, Option.any_some, if_pos hrule]
  generalize b.children = children at h
  cases h with
  | nil => cases htoken
  | cons hfirst _ => exact hfirst token htoken

/-- A tree that amounts to a token reduces to a part that does. -/
theorem numberToken_of_loneToken? {t : ParseTree} {item : Reduced}
    (htoken : t.loneToken? = some token) (hitem : reduce options t = .ok item) :
    numberToken item = .ok token := by
  induction t using ParseTree.induction_children generalizing item with
  | absent => cases htoken
  | token t =>
      cases htoken
      cases hitem
      rfl
  | rule name children p ih =>
      match children with
      | [] => cases htoken
      | _ :: _ :: _ => cases htoken
      | [child] =>
          obtain ⟨items, hitems, hresult⟩ := reduce_rule_eq_ok hitem
          rw [ParseTree.loneToken?] at htoken
          cases hname : Rule.ofName? name with
          | some rule => simp [hname] at htoken
          | none =>
              simp only [hname, Option.isNone_none, if_true] at htoken
              rcases hresult with ⟨rule, hrule, _⟩ | ⟨_, rfl⟩
              · rw [hname] at hrule
                cases hrule
              · cases hitems with
                | cons hchild hrest =>
                    cases hrest
                    rw [numberToken]
                    exact ih child List.mem_cons_self htoken hchild

/-- A number that is read from a token is a constant, if there is one. -/
theorem number_eq_ok {r : Reduction} {item result : Reduced} {rest : List Reduced}
    (htoken : numberToken item = .ok token) (h : number r (item :: rest) = .ok result) :
    ∃ value, decodeNumber r.options.floatLiterals token = .ok value ∧
      result = .node (.mk .constant [("value", .scalar value)] r.position) := by
  have hsteps : number r (item :: rest) = noMore rest >>= fun _ =>
      decodeNumber r.options.floatLiterals token >>= constant r := by
    rw [number_eq]
    show (numberToken item >>= _) = _
    rw [htoken]
    rfl
  rw [hsteps] at h
  cases rest with
  | cons extra others => cases h
  | nil =>
      cases hvalue : decodeNumber r.options.floatLiterals token with
      | error e =>
          rw [hvalue] at h
          cases h
      | ok value =>
          rw [hvalue] at h
          cases h
          exact ⟨value, rfl, rfl⟩

theorem numeral?_eq_some (h : b.numeral? = some token) :
    ∃ rule child rest, Rule.ofName? b.name = some rule ∧ rule.isNumeral = true ∧
      b.children = child :: rest ∧ child.loneToken? = some token := by
  obtain ⟨name, children, p⟩ := b
  rw [Branch.numeral?] at h
  cases hname : Rule.ofName? name with
  | none => simp [hname] at h
  | some rule =>
      rw [hname, Option.any_some] at h
      by_cases hrule : rule.isNumeral = true
      · rw [if_pos hrule] at h
        cases children with
        | nil => cases h
        | cons child rest => exact ⟨rule, child, rest, rfl, hrule, rfl, h⟩
      · rw [if_neg hrule] at h
        cases h

/-- A numeral that reduces is a constant at its range. -/
theorem eq_of_reduce_numeral (hnumeral : b.numeral? = some token) {result : Reduced}
    (h : reduce options b.tree = .ok result) :
    ∃ value, decodeNumber options.floatLiterals token = .ok value ∧
      result = .node (.mk .constant [("value", .scalar value)] b.position) := by
  obtain ⟨name, children, p⟩ := b
  obtain ⟨rule, child, rest, hname, hrule, rfl, hchild⟩ := numeral?_eq_some hnumeral
  obtain ⟨items, hitems, ⟨found, hfound, hok⟩ | ⟨hnone, _⟩⟩ := reduce_rule_eq_ok h
  · cases hname.symm.trans hfound
    cases hitems with
    | cons hitem _ =>
        have htoken := numberToken_of_loneToken? hchild hitem
        rw [apply, handlerOf_of_isNumeral hrule] at hok
        cases hnumber : number ⟨rule, p, options⟩ (_ :: _) with
        | error e =>
            rw [hnumber] at hok
            cases hok
        | ok value =>
            rw [hnumber] at hok
            cases hok
            exact number_eq_ok htoken hnumber
  · cases hname.symm.trans hnone

end TreeLowering
