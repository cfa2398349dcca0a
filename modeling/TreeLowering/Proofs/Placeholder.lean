/-
# Placeholders

A grammar may leave an optional part of a rule out, or put a placeholder in its place. Every
rule with optional parts answers to both in the same way, apart from the literals `True`,
`False` and `None`: their token may be left out, but a placeholder is refused in its place.
-/

import TreeLowering.Proofs.Reduction.Places
import TreeLowering.Proofs.Regrouping

namespace TreeLowering

open TreeLowering.Lowering TreeLowering.Reduced

variable {r : Reduction} {rule : Rule} {items items' first given others last : List Reduced}

/-! ## Optional parts -/

/-- Where the optional parts of a rule stand: so many required parts come before them and so
many behind them, and there is room for so many of them. A run that a rule collects has no
bound. -/
structure Gap where
  before : ℕ
  room : Option ℕ
  behind : ℕ

/-- The place of the optional parts of a rule, if it has any. -/
def Rule.gap? : Rule → Option Gap
  | .constTrue | .constFalse | .constNone | .returnStmt | .yieldExpr | .starParam =>
    some ⟨0, some 1, 0⟩
  | .raiseStmt => some ⟨0, some 2, 0⟩
  | .slice => some ⟨0, some 3, 0⟩
  | .decorator | .assertStmt | .dottedAsName | .importAsName | .withItem | .plainParam =>
    some ⟨1, some 1, 0⟩
  | .compFor | .asyncCompFor | .annAssignStmt | .whileStmt => some ⟨2, some 1, 0⟩
  | .forStmt => some ⟨3, some 1, 0⟩
  | .lambda => some ⟨0, some 1, 1⟩
  | .exceptClause => some ⟨0, some 2, 1⟩
  | .functionDef => some ⟨1, some 2, 1⟩
  | .importFrom => some ⟨0, none, 0⟩
  | .call | .tryStmt => some ⟨1, none, 0⟩
  | .ifStmt => some ⟨2, none, 0⟩
  | .classDef => some ⟨1, none, 1⟩
  | _ => none

/-- Whether a rule is a literal that consists of a keyword. -/
def Rule.isKeywordLiteral : Rule → Bool
  | .constTrue | .constFalse | .constNone => true
  | _ => false

/-- A placeholder is put in the place of an optional part that is left out. -/
inductive PlaceHeld : Rule → List Reduced → List Reduced → Prop
  /-- Parts are left out from the last one on, so their place is behind those that are given.
  A lone node given to a function must be its parameters: any other is its annotation. -/
  | next {rule : Rule} {gap : Gap} {room : ℕ} (first given last : List Reduced)
      (own : rule.gap? = some gap) (bounded : gap.room = some room)
      (before : first.length = gap.before) (free : given.length < room)
      (behind : last.length = gap.behind)
      (leading : rule = .functionDef → ∀ n, given = [.node n] → isParameterNode n) :
      PlaceHeld rule (first ++ given ++ last) (first ++ given ++ .absent :: last)
  /-- In a run the place may be anywhere. -/
  | within {rule : Rule} {gap : Gap} (first given others last : List Reduced)
      (own : rule.gap? = some gap) (unbounded : gap.room = none)
      (before : first.length = gap.before) (behind : last.length = gap.behind) :
      PlaceHeld rule (first ++ (given ++ others) ++ last)
        (first ++ (given ++ .absent :: others) ++ last)
  /-- The parameters of a function are left out before the annotation of what it returns. -/
  | parameters {returns : Node} (name body : Reduced) (hint : isParameterNode returns = false) :
      PlaceHeld .functionDef [name, .node returns, body] [name, .absent, .node returns, body]

/-! ## Bounded room -/

/-- A part between the name and the body of a function is its parameters, unless it is a node
of another kind. -/
theorem functionHeader_next (position : Position) {part : Reduced}
    (leading : ∀ n, part = .node n → isParameterNode n) :
    functionHeader position [part, .absent] = functionHeader position [part] := by
  have hboth : parametersAndReturns position [part, .absent] =
      parametersAndReturns position [part] := by
    rw [parametersAndReturns_eq, parametersAndReturns_eq]
    rfl
  rw [functionHeader_eq, functionHeader_eq]
  cases part with
  | node n => simpa [leading n rfl] using hboth
  | _ => exact hboth

/-- A handler that reads its optional parts by their place does not tell a placeholder there
from the end of the parts. -/
theorem handlerOf_next {gap : Gap} {room : ℕ} (own : rule.gap? = some gap)
    (bounded : gap.room = some room) (before : first.length = gap.before)
    (free : given.length < room) (behind : last.length = gap.behind)
    (leading : rule = .functionDef → ∀ n, given = [.node n] → isParameterNode n)
    (hliteral : rule.isKeywordLiteral = false) :
    handlerOf rule r (first ++ given ++ .absent :: last) =
      handlerOf rule r (first ++ given ++ last) := by
  cases rule with cases own <;> cases bounded <;> cases hliteral
  | returnStmt | yieldExpr | starParam =>
      obtain rfl := List.length_eq_zero_iff.1 before
      obtain rfl := List.length_eq_zero_iff.1 (Nat.lt_one_iff.1 free)
      obtain rfl := List.length_eq_zero_iff.1 behind
      simp only [handlerOf, returnOrYield_eq, starParameter_eq]
      rfl
  | raiseStmt =>
      obtain rfl := List.length_eq_zero_iff.1 before
      obtain rfl := List.length_eq_zero_iff.1 behind
      simp only [handlerOf, raise_eq]
      obtain _ | ⟨exc, _ | ⟨cause, rest⟩⟩ := given
      · rfl
      · rfl
      · simp only [List.length_cons] at free
        omega
  | slice =>
      obtain rfl := List.length_eq_zero_iff.1 before
      obtain rfl := List.length_eq_zero_iff.1 behind
      simp only [handlerOf, slice_eq]
      obtain _ | ⟨lower, _ | ⟨upper, _ | ⟨step, rest⟩⟩⟩ := given
      · rfl
      · rfl
      · rfl
      · simp only [List.length_cons] at free
        omega
  | decorator | assertStmt | dottedAsName | importAsName | withItem | plainParam =>
      obtain ⟨_, rfl⟩ := List.length_eq_one_iff.1 before
      obtain rfl := List.length_eq_zero_iff.1 (Nat.lt_one_iff.1 free)
      obtain rfl := List.length_eq_zero_iff.1 behind
      simp only [handlerOf, decorator_eq, assertion_eq, importAlias_eq, withItem_eq,
        plainParameter_eq]
      rfl
  | compFor | asyncCompFor | annAssignStmt | whileStmt =>
      obtain ⟨_, _, rfl⟩ := List.length_eq_two.1 before
      obtain rfl := List.length_eq_zero_iff.1 (Nat.lt_one_iff.1 free)
      obtain rfl := List.length_eq_zero_iff.1 behind
      simp only [handlerOf, comprehensionClause_eq, annotatedAssignment_eq, whileLoop_eq]
      rfl
  | forStmt =>
      obtain ⟨_, _, _, rfl⟩ := List.length_eq_three.1 before
      obtain rfl := List.length_eq_zero_iff.1 (Nat.lt_one_iff.1 free)
      obtain rfl := List.length_eq_zero_iff.1 behind
      simp only [handlerOf, forLoop_eq]
      rfl
  | lambda =>
      obtain rfl := List.length_eq_zero_iff.1 before
      obtain rfl := List.length_eq_zero_iff.1 (Nat.lt_one_iff.1 free)
      obtain ⟨body, rfl⟩ := List.length_eq_one_iff.1 behind
      simp only [handlerOf, lambda_eq]
      rfl
  | exceptClause =>
      obtain rfl := List.length_eq_zero_iff.1 before
      obtain ⟨body, rfl⟩ := List.length_eq_one_iff.1 behind
      simp only [handlerOf, exceptClause_eq]
      obtain _ | ⟨caught, _ | ⟨name, rest⟩⟩ := given
      · rfl
      · rfl
      · simp only [List.length_cons] at free
        omega
  | functionDef =>
      obtain ⟨name, rfl⟩ := List.length_eq_one_iff.1 before
      obtain ⟨body, rfl⟩ := List.length_eq_one_iff.1 behind
      obtain _ | ⟨part, _ | ⟨returns, rest⟩⟩ := given
      · simp only [handlerOf, functionDefinition_eq]
        rfl
      · have hheader := functionHeader_next r.position
          fun n hn => leading rfl n (congrArg (fun item => [item]) hn)
        show functionDefinition r [name, part, .absent, body] =
          functionDefinition r [name, part, body]
        simp [functionDefinition_eq, hheader]
      · simp only [List.length_cons] at free
        omega

/-- A lone annotation is found behind a placeholder for the parameters as well. -/
theorem handlerOf_parameters {returns : Node} (name body : Reduced)
    (hint : isParameterNode returns = false) :
    handlerOf .functionDef r [name, .absent, .node returns, body] =
      handlerOf .functionDef r [name, .node returns, body] := by
  have hheader : functionHeader r.position [.absent, .node returns] =
      functionHeader r.position [.node returns] := by
    simp only [functionHeader_eq, List.head?_cons, hint]
    rfl
  show functionDefinition r [name, .absent, .node returns, body] =
    functionDefinition r [name, .node returns, body]
  simp [functionDefinition_eq, hheader]

/-! ## Runs -/

theorem gather_within :
    gather (given ++ .absent :: others) = gather (given ++ others) := by
  rw [isScan_gather.append, isScan_gather.append, gather_cons]
  cases gather others <;> rfl

theorem noMoreBranches_within :
    noMoreBranches (given ++ .absent :: others) = noMoreBranches (given ++ others) := by
  induction given with
  | nil => rfl
  | cons item rest ih => cases item <;> first | exact ih | rfl

theorem branches_within :
    branches (given ++ .absent :: others) = branches (given ++ others) := by
  induction given with
  | nil => rfl
  | cons item rest ih =>
      cases item with
      | absent => exact ih
      | clause c =>
          cases c with
          | elif test body position => simp [branches, ih]
          | otherwise body => simp [branches, noMoreBranches_within]
          | finish body => rfl
      | _ => rfl

/-- A fold passes over an item that leaves every state as it is. -/
theorem foldlM_within {σ : Type} {step : σ → Reduced → Except Error σ}
    (hskip : ∀ s, step s .absent = .ok s) (s : σ) (given others : List Reduced) :
    (given ++ .absent :: others).foldlM step s = (given ++ others).foldlM step s := by
  simp only [List.foldlM_append, List.foldlM_cons, hskip]
  rfl

/-- A handler that collects a run passes over the placeholders in it. -/
theorem handlerOf_within {gap : Gap} (own : rule.gap? = some gap) (unbounded : gap.room = none)
    (before : first.length = gap.before) (behind : last.length = gap.behind) :
    handlerOf rule r (first ++ (given ++ .absent :: others) ++ last) =
      handlerOf rule r (first ++ (given ++ others) ++ last) := by
  cases rule with cases own <;> cases unbounded
  | importFrom =>
      obtain rfl := List.length_eq_zero_iff.1 before
      obtain rfl := List.length_eq_zero_iff.1 behind
      have hfold := foldlM_within (fun s => show ImportSource.add s .absent = .ok s from rfl) .empty
        given others
      simp only [handlerOf, importFrom, List.nil_append, List.append_nil, hfold]
  | call =>
      obtain ⟨callee, rfl⟩ := List.length_eq_one_iff.1 before
      obtain rfl := List.length_eq_zero_iff.1 behind
      exact handlerOf_congr r (.call callee) (fun _ => gather_within) (by simp)
  | tryStmt =>
      obtain ⟨body, rfl⟩ := List.length_eq_one_iff.1 before
      obtain rfl := List.length_eq_zero_iff.1 behind
      have hfold := foldlM_within (fun c => show TryClauses.add c .absent = .ok c from rfl) .empty
        given others
      simp only [handlerOf, tryStatement_eq, List.append_nil, List.singleton_append,
        List.getElem?_cons_zero, List.drop_succ_cons, List.drop_zero, hfold]
  | ifStmt =>
      obtain ⟨test, body, rfl⟩ := List.length_eq_two.1 before
      obtain rfl := List.length_eq_zero_iff.1 behind
      simp [handlerOf, ifStatement_eq, branches_within]
  | classDef =>
      obtain ⟨name, rfl⟩ := List.length_eq_one_iff.1 before
      obtain ⟨body, rfl⟩ := List.length_eq_one_iff.1 behind
      exact handlerOf_congr r (.classDef name body) (fun _ => gather_within) (by simp)

/-! ## Every rule -/

theorem handlerOf_of_placeHeld (hliteral : rule.isKeywordLiteral = false)
    (hheld : PlaceHeld rule items items') : handlerOf rule r items' = handlerOf rule r items := by
  cases hheld with
  | next first given last own bounded before free behind leading =>
      exact handlerOf_next own bounded before free behind leading hliteral
  | within first given others last own unbounded before behind =>
      exact handlerOf_within own unbounded before behind
  | parameters name body hint => exact handlerOf_parameters name body hint

/-- The only part of a keyword literal is its token. -/
theorem eq_nil_of_placeHeld (hliteral : rule.isKeywordLiteral)
    (hheld : PlaceHeld rule items items') : items = [] ∧ items' = [.absent] := by
  cases hheld with
  | next first given last own bounded before free behind _ =>
      cases rule with cases hliteral
      | constTrue | constFalse | constNone =>
          cases own
          cases bounded
          obtain rfl := List.length_eq_zero_iff.1 before
          obtain rfl := List.length_eq_zero_iff.1 (Nat.lt_one_iff.1 free)
          obtain rfl := List.length_eq_zero_iff.1 behind
          exact ⟨rfl, rfl⟩
  | within _ _ _ _ own unbounded => cases rule <;> cases hliteral <;> cases own <;> cases unbounded
  | parameters => cases hliteral

/-- A rule answers to parts with placeholders in optional places as to the parts without them,
with a result or with a failure. Only a keyword literal refuses the placeholder for its token,
though it does without the token. -/
theorem apply_of_placeHeld (options : Options) (position : Position)
    (hheld : Relation.TransGen (PlaceHeld rule) items items') :
    (rule.isKeywordLiteral = false →
      apply options rule position items' = apply options rule position items) ∧
    (rule.isKeywordLiteral → items = [] ∧ items' = [.absent] ∧
      apply options rule position items = .ok (.node
        (.mk .constant [("value", .scalar (keywordLiteral rule).2)] position)) ∧
      apply options rule position items' =
        .error (.inRule rule.name position (.shape "keyword literal" "nothing"))) := by
  refine ⟨fun hliteral => ?_, fun hliteral => ?_⟩
  · induction hheld with
    | single hstep => rw [apply, apply, handlerOf_of_placeHeld hliteral hstep]
    | tail _ hstep ih => rw [← ih, apply, apply, handlerOf_of_placeHeld hliteral hstep]
  · obtain ⟨rfl, rfl⟩ : items = [] ∧ items' = [.absent] := by
      induction hheld with
      | single hstep => exact eq_nil_of_placeHeld hliteral hstep
      | tail _ hstep ih =>
          obtain ⟨rfl, rfl⟩ := ih
          exact absurd (eq_nil_of_placeHeld hliteral hstep).1 (List.cons_ne_nil _ _)
    refine ⟨rfl, rfl, ?_, ?_⟩ <;> cases rule with cases hliteral
    | constTrue | constFalse | constNone => rfl

/-- The function `def f() -> f: f` with a placeholder for its parameters. -/
theorem apply_of_placeHeld_function :
    ∃ n, apply .default .functionDef .unknown [.token ⟨"NAME", "f", .unknown⟩, .absent,
        .node plainArgument, .node plainArgument] = .ok (.node n) ∧
      n.get? "returns" = some (.node plainArgument) := by
  have hheld : PlaceHeld .functionDef [.token ⟨"NAME", "f", .unknown⟩, .node plainArgument,
      .node plainArgument] [.token ⟨"NAME", "f", .unknown⟩, .absent, .node plainArgument,
      .node plainArgument] := .parameters _ _ rfl
  exact ⟨_, ((apply_of_placeHeld .default .unknown (.single hheld)).1 rfl).trans rfl, rfl⟩

/-- The literal `True` may do without its token, but a placeholder for it is refused. -/
theorem constTrue_placeholder_ne_omitted :
    PlaceHeld .constTrue [] [.absent] ∧
      apply .default .constTrue .unknown [.absent] ≠ apply .default .constTrue .unknown [] := by
  refine ⟨.next [] [] [] rfl rfl rfl (by decide) rfl (by simp), ?_⟩
  intro heq
  exact nomatch (heq : Except.error _ = Except.ok _)

end TreeLowering
