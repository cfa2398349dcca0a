/-
# Two runs over like trees

Each step of a reduction answers like parts alike, so the reductions of like trees are
like, unless the first run fails in a way that is excused. What the two runs make of
literals is left open here: it is a hypothesis about the branches of literals.
-/

import TreeLowering.Proofs.Reduction.Numeral
import TreeLowering.Proofs.Reduction.Places
import TreeLowering.Proofs.TwoRuns.Block
import TreeLowering.Proofs.TwoRuns.Definition
import TreeLowering.Proofs.TwoRuns.Expression
import TreeLowering.Proofs.TwoRuns.Operation
import TreeLowering.Proofs.TwoRuns.Statement

namespace TreeLowering

open TreeLowering.Lowering TreeLowering.Reduced

namespace Likeness

variable {L : Likeness} {raw classes : Prop} {α β γ δ : Type} {related : α → β → Prop}
variable {options options' : Options} {rule : Rule} {p q : Position}
variable {items others : List Reduced} {item other : Reduced} {place place' : Option Reduced}

/-! ## Like trees -/

mutual

/-- Trees of one shape with the same rules and the same texts. The classes of tokens are
the same beneath a number, and elsewhere if `classes` says so. Groups, the branches whose
rule has no reduction of its own, may have different names unless these matter. -/
inductive Trees (L : Likeness) : Prop → ParseTree → ParseTree → Prop
  | absent {classes : Prop} : Trees L classes .absent .absent
  | token {classes : Prop} {t u : Token} (text : t.text = u.text)
      (kind : classes → t.kind = u.kind) (range : L.Ranges t.position u.position) :
      Trees L classes (.token t) (.token u)
  | branch {classes : Prop} {rule : Rule} {name other : String}
      {children others : List ParseTree} {p q : Position} (left : Rule.ofName? name = some rule)
      (right : Rule.ofName? other = some rule)
      (like : TreeLists L (rule.isNumeral = true) children others) (range : L.Ranges p q) :
      Trees L classes (.rule name children p) (.rule other others q)
  | group {classes : Prop} {name other : String} {children others : List ParseTree}
      {p q : Position} (left : Rule.ofName? name = none) (right : Rule.ofName? other = none)
      (words : L.Words name other) (like : TreeLists L classes children others)
      (range : L.Ranges p q) : Trees L classes (.rule name children p) (.rule other others q)

/-- Lists of like trees. -/
inductive TreeLists (L : Likeness) : Prop → List ParseTree → List ParseTree → Prop
  | nil {classes : Prop} : TreeLists L classes [] []
  | cons {classes : Prop} {t u : ParseTree} {rest others : List ParseTree}
      (head : Trees L classes t u) (tail : TreeLists L classes rest others) :
      TreeLists L classes (t :: rest) (u :: others)

end

/-- Every tree is like itself. -/
theorem trees_refl (t : ParseTree) (classes : Prop) : L.Trees classes t t := by
  induction t using ParseTree.induction_children generalizing classes with
  | absent => exact .absent
  | token t => exact .token rfl (fun _ => rfl) fun _ => rfl
  | rule name children p ih =>
      have hchildren : ∀ classes, L.TreeLists classes children children := by
        intro classes
        induction children with
        | nil => exact .nil
        | cons child rest ihrest =>
            exact .cons (ih child List.mem_cons_self classes)
              (ihrest fun t ht => ih t (List.mem_cons_of_mem _ ht))
      cases hname : Rule.ofName? name with
      | some rule => exact .branch hname hname (hchildren _) fun _ => rfl
      | none => exact .group hname hname (fun _ => rfl) (hchildren _) fun _ => rfl

/-! ## Excused failures -/

/-- The first run fails in a way that is excused, or the outcomes are like. -/
def Simulates (L : Likeness) (excused : Error → Prop) (related : α → β → Prop)
    (o : Except Error α) (o' : Except Error β) : Prop :=
  (∃ e, o = .error e ∧ excused e) ∨ L.Outcomes related o o'

variable {excused : Error → Prop}

namespace Simulates

variable {o : Except Error α} {o' : Except Error β}

theorem bind (h : L.Simulates excused related o o') {next : α → Except Error γ}
    {next' : β → Except Error δ} {result : γ → δ → Prop}
    (hnext : ∀ a b, related a b → L.Simulates excused result (next a) (next' b)) :
    L.Simulates excused result (o >>= next) (o' >>= next') := by
  rcases h with ⟨e, rfl, hexcused⟩ | hlike
  · exact .inl ⟨e, rfl, hexcused⟩
  · cases hlike with
    | ok like => exact hnext _ _ like
    | error like => exact .inr (.error like)

theorem mono (h : L.Simulates excused related o o') {result : α → β → Prop}
    (himp : ∀ a b, related a b → result a b) : L.Simulates excused result o o' := by
  rcases h with hexcused | hlike
  · exact .inl hexcused
  · cases hlike with
    | ok like => exact .inr (.ok (himp _ _ like))
    | error like => exact .inr (.error like)

end Simulates

/-! ## Steps -/

theorem Answers.part (h : L.Answers item other) : L.Parts True classes item other := by
  cases h with
  | node like => exact .node like
  | nodes like => exact .nodes like
  | operator op => exact .operator op
  | pair key value => exact .pair key value
  | unpack like => exact .unpack like
  | dotted path => exact .dotted path
  | level dots => exact .level dots
  | elif test like range => exact .elif test like range
  | otherwise like => exact .otherwise like
  | finish like => exact .finish like
  | plain like default => exact .plain like default
  | star like => exact .star like
  | mapping like => exact .mapping like
  | slash => exact .slash
  | token | fragment | absent => contradiction

/-- The handlers of all rules but those of numbers answer like parts alike. Those of other
literals do where both runs build the same constant. -/
theorem handlerOf_like (hrule : rule.isNumeral = false) {r s : Reduction} (h : L.Events r s)
    (hshared : rule.isLiteral = true → L.shared r.position)
    (hparts : L.PartLists raw classes items others) :
    L.Outcomes L.Answers (handlerOf rule r items) (handlerOf rule s others) := by
  cases rule with dsimp only [handlerOf]
  | constNumber | number => cases hrule
  | constTrue | constFalse | constNone => exact keywordConstant_like h hparts (hshared rfl)
  | string => exact string_like h hparts (hshared rfl)
  | stringConcat => exact stringConcat_like h hparts (hshared rfl)
  | nameRef => exact nameRef_like h hparts
  | starExpr | starArg => exact starred_like h hparts
  | addOp | mulOp | shiftOp | unaryOp | compOp | augAssignOp | orOp | andOp | notOp =>
      exact operator_like h hparts
  | comparison => exact comparison_like h hparts
  | arithExpr | termExpr | shiftExpr | andExpr | xorExpr | orExpr | powerExpr =>
      exact binary_like h hparts
  | orTest | andTest => exact boolean_like h hparts
  | notTest | factorExpr => exact unary_like h hparts
  | conditionalExpr => exact conditional_like h hparts
  | assignExpr => exact namedExpression_like h hparts
  | awaitExpr => exact awaitExpression_like h hparts
  | call => exact call_like h hparts
  | argumentList | suite | simpleStmt | decorators => exact nodeList_like hparts
  | keywordArg => exact keywordArgument_like h hparts
  | mappingArg => exact mappingArgument_like h hparts
  | «attribute» => exact attributeAccess_like h hparts
  | attrChain => exact attributeChain_like h hparts
  | subscript => exact subscript_like h hparts
  | slice => exact slice_like h hparts
  | listDisplay | tupleDisplay | setDisplay => exact sequence_like h hparts
  | dictDisplay => exact dict_like h hparts
  | keyValue => exact keyValue_like hparts
  | dictUnpack => exact dictUnpack_like hparts
  | compFor | asyncCompFor => exact comprehensionClause_like h hparts
  | listComprehension | setComprehension | generatorExpression =>
      exact comprehension_like h hparts
  | dictComprehension => exact dictComprehension_like h hparts
  | exprStmt => exact expressionStatement_like h hparts
  | assignStmt => exact assignment_like h hparts
  | augAssignStmt => exact augmentedAssignment_like h hparts
  | annAssignStmt => exact annotatedAssignment_like h hparts
  | returnStmt | yieldExpr => exact returnOrYield_like h hparts
  | yieldFrom => exact yieldFrom_like h hparts
  | raiseStmt => exact raise_like h hparts
  | assertStmt => exact assertion_like h hparts
  | delStmt => exact deletion_like h hparts
  | passStmt | breakStmt | continueStmt => exact keywordStatement_like h hparts
  | globalStmt | nonlocalStmt => exact scopeDeclaration_like h hparts
  | dottedName => exact dottedName_like hparts
  | dottedAsName | importAsName => exact importAlias_like h hparts
  | importStar => exact importStar_like h hparts
  | importName => exact importModules_like h hparts
  | relativeLevel => exact relativeLevel_like hparts
  | importFrom => exact importFrom_like h hparts
  | ifStmt => exact ifStatement_like h hparts
  | elifClause | elseClause | finallyClause => exact clause_like h hparts
  | forStmt => exact forLoop_like h hparts
  | whileStmt => exact whileLoop_like h hparts
  | tryStmt => exact tryStatement_like h hparts
  | exceptClause => exact exceptClause_like h hparts
  | withStmt => exact withStatement_like h hparts
  | withItem => exact withItem_like h hparts
  | functionDef => exact functionDefinition_like h hparts
  | parameterList => exact parameterList_like h hparts
  | plainParam => exact plainParameter_like h hparts
  | defaultParam => exact defaultParameter_like hparts
  | starParam => exact starParameter_like hparts
  | mappingParam => exact mappingParameter_like hparts
  | slash => exact .ok .slash
  | lambda => exact lambda_like h hparts
  | classDef => exact classDefinition_like h hparts
  | decorator => exact decorator_like h hparts
  | decorated => exact decorated_like hparts
  | asyncStmt => exact asyncStatement_like h hparts
  | fileInput | moduleRoot => exact moduleRoot_like h hparts

/-- A step of like events answers alike if the handlers do. -/
theorem apply_simulates (hrange : L.Ranges p q)
    (hexcused : ∀ e, excused e → excused (e.within rule.name p))
    (h : L.Simulates excused L.Answers (handlerOf rule ⟨rule, p, options⟩ items)
      (handlerOf rule ⟨rule, q, options'⟩ others)) :
    L.Simulates excused L.Answers (apply options rule p items)
      (apply options' rule q others) := by
  rw [apply, apply]
  rcases h with ⟨e, he, hfailure⟩ | hlike
  · rw [he]
    exact .inl ⟨_, rfl, hexcused e hfailure⟩
  · rcases hlike.elim with ⟨a, b, ha, hb, like⟩ | ⟨e, f, he, hf, like⟩
    · rw [ha, hb]
      exact .inr (.ok like)
    · rw [he, hf]
      exact .inr (.error (like.within hrange rule.name))

/-! ## Numbers -/

theorem numberToken_like (item : Reduced) {other : Reduced} (h : L.Parts raw True item other) :
    L.Outcomes (fun t u => t.text = u.text ∧ t.kind = u.kind) (numberToken item)
      (numberToken other) := by
  have hother := unexpected_like "number token" (.some h)
  cases h with
  | token text kind => exact .ok ⟨text, kind trivial⟩
  | fragment _ like =>
      cases like with
      | nil => exact .error hother
      | cons hchild hrest =>
          cases hrest with
          | nil =>
              rw [numberToken, numberToken]
              exact numberToken_like _ hchild
          | cons => exact .error hother
  | _ => exact .error hother

theorem expectNumber_like (h : Option.Rel (L.Parts raw True) place place') :
    L.Outcomes (fun t u => t.text = u.text ∧ t.kind = u.kind) (expectNumber place)
      (expectNumber place') := by
  cases h with
  | none => exact .error (.same _)
  | some like => exact numberToken_like _ like

/-- Numbers are like if what is read from the token of the first run is. -/
theorem number_simulates {r s : Reduction} (h : L.Events r s)
    (hparts : L.PartLists raw True items others)
    (hread : ∀ t u, expectNumber items[0]? = .ok t → t.text = u.text → t.kind = u.kind →
      L.Simulates excused (L.literals r.position) (decodeNumber r.options.floatLiterals t)
        (decodeNumber s.options.floatLiterals u)) :
    L.Simulates excused L.Answers (number r items) (number s others) := by
  rw [number_eq, number_eq]
  rcases (expectNumber_like (rel_getElem? hparts 0)).elim with
    ⟨t, u, ht, hu, text, kind⟩ | ⟨e, f, he, hf, like⟩
  · rw [ht, hu]
    have hend : L.Simulates excused Eq (noMore (items.drop 1)) (noMore (others.drop 1)) :=
      .inr (noMore_like (List.forall₂_drop 1 hparts))
    apply hend.bind
    intro _ _ _
    apply (hread t u ht text kind).bind
    intro v w hvalue
    exact .inr (constant_like h hvalue)
  · rw [he, hf]
    exact .inr (.error like)

/-! ## Runs -/

theorem Answers.tokenOf (h : L.Answers item other) (t : ParseTree) : TokenOf t item := by
  intro token htoken
  cases h with
  | token | fragment | absent => contradiction
  | _ => cases htoken

/-- What the two runs make of the branches of literals: the same constant of those that are
no numbers, and like constants of numbers, unless the failure is excused. -/
structure ReadsLiterals (L : Likeness) (excused : Error → Prop) (options options' : Options)
    (branches : List Branch) : Prop where
  shared : ∀ b ∈ branches, b.IsLiteral → L.shared b.position
  numbers : ∀ b ∈ branches, ∀ t u, b.numeral? = some t → t.text = u.text → t.kind = u.kind →
    L.Simulates excused (L.literals b.position) (decodeNumber options.floatLiterals t)
      (decodeNumber options'.floatLiterals u)

theorem ReadsLiterals.mono {branches others : List Branch}
    (h : L.ReadsLiterals excused options options' branches) (hsub : others ⊆ branches) :
    L.ReadsLiterals excused options options' others :=
  ⟨fun b hb => h.shared b (hsub hb), fun b hb => h.numbers b (hsub hb)⟩

/-- Lists of trees reduce alike if their members do. -/
theorem reduceAll_simulates {trees others : List ParseTree}
    (hlike : L.TreeLists classes trees others)
    (h : ∀ t ∈ trees, ∀ u, L.Trees classes t u →
      L.Simulates excused (fun a b => L.Parts True classes a b ∧ TokenOf t a) (reduce options t)
        (reduce options' u)) :
    L.Simulates excused
      (fun items others => L.PartLists True classes items others ∧
        List.Forall₂ TokenOf trees items)
      (reduceAll options trees) (reduceAll options' others) := by
  induction trees generalizing others with
  | nil =>
      cases hlike
      exact .inr (.ok ⟨.nil, .nil⟩)
  | cons t rest ih =>
      cases hlike with
      | cons head tail =>
          rw [reduceAll_cons, reduceAll_cons]
          apply (h t List.mem_cons_self _ head).bind
          rintro a b ⟨hfirst, htoken⟩
          apply (ih tail fun t ht => h t (List.mem_cons_of_mem _ ht)).bind
          rintro items others ⟨hparts, htokens⟩
          exact .inr (.ok ⟨.cons hfirst hparts, .cons htoken htokens⟩)

/-- Like trees reduce alike, up to what the two runs make of literals. -/
theorem reduce_simulates (hexcused : ∀ e name p, excused e → excused (e.within name p))
    {t u : ParseTree} (hlike : L.Trees classes t u)
    (hliterals : L.ReadsLiterals excused options options' t.branches) :
    L.Simulates excused (fun a b => L.Parts True classes a b ∧ TokenOf t a) (reduce options t)
      (reduce options' u) := by
  induction t using ParseTree.induction_children generalizing classes u with
  | absent =>
      cases hlike
      exact .inr (.ok ⟨.absent trivial, nofun⟩)
  | token t =>
      cases hlike with
      | token text kind range =>
          refine .inr (.ok ⟨.token text kind range trivial, ?_⟩)
          intro token htoken
          cases htoken
          rfl
  | rule name children p ih =>
      have hchildren : ∀ t ∈ children, L.ReadsLiterals excused options options' t.branches :=
        fun t ht => hliterals.mono fun b hb => ParseTree.mem_branches_rule.mpr (.inl ⟨t, ht, hb⟩)
      have hself : (⟨name, children, p⟩ : Branch) ∈ (ParseTree.rule name children p).branches :=
        ParseTree.mem_branches_rule.mpr (.inr rfl)
      cases hlike with
      | @branch _ rule _ _ _ _ _ q left right like range =>
          rw [reduce_rule, reduce_rule, left, right]
          apply (reduceAll_simulates like fun t ht u h => ih t ht h (hchildren t ht)).bind
          rintro items others ⟨hparts, htokens⟩
          refine (apply_simulates range (fun e => hexcused e _ _) ?_).mono
            fun a b h => ⟨h.part, h.tokenOf _⟩
          have hevents : L.Events ⟨rule, p, options⟩ ⟨rule, q, options'⟩ := ⟨rfl, range⟩
          by_cases hrule : rule.isNumeral = true
          · rw [handlerOf_of_isNumeral hrule]
            rw [eq_true hrule] at hparts
            apply number_simulates hevents hparts
            intro t u ht text kind
            exact hliterals.numbers _ hself t u
              (numeral?_of_expectNumber left hrule htokens ht) text kind
          · rw [Bool.not_eq_true] at hrule
            have hshared : rule.isLiteral = true → L.shared p := fun hliteral =>
              hliterals.shared _ hself (isLiteral_of_ofName? left hliteral)
            exact .inr (handlerOf_like hrule hevents hshared hparts)
      | group left right words like range =>
          rw [reduce_rule, reduce_rule, left, right]
          apply (reduceAll_simulates like fun t ht u h => ih t ht h (hchildren t ht)).bind
          rintro items others ⟨hparts, htokens⟩
          exact .inr (.ok ⟨.fragment words hparts range trivial, tokenOf_group left htokens⟩)

/-! ## Modules -/

theorem expectModule_like (h : L.Parts raw classes item other) :
    L.Outcomes L.Nodes (expectModule item) (expectModule other) := by
  have words := h.describe
  cases h with
  | node like =>
      rw [expectModule, expectModule, like.construct_eq]
      split
      · exact .ok like
      · exact .error (.notAModule words)
  | _ => exact .error (.notAModule words)

/-- Like trees are lowered alike, up to what the two runs make of literals. -/
theorem transform_simulates (hexcused : ∀ e name p, excused e → excused (e.within name p))
    {t u : ParseTree} (hlike : L.Trees classes t u)
    (hliterals : L.ReadsLiterals excused options options' t.branches) :
    L.Simulates excused L.Nodes (transform options t) (transform options' u) := by
  rw [transform, transform]
  apply (reduce_simulates hexcused hlike hliterals).bind
  rintro item other ⟨hpart, _⟩
  exact .inr (expectModule_like hpart)

end Likeness

end TreeLowering
