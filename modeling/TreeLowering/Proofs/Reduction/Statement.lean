/-
# Simple statements and imports

What the handlers of statements without a block do with the nodes of their parts. The
two runs over parts, of targets and of import clauses, have a law for one part each.
-/

import TreeLowering.Lowering.Import
import TreeLowering.Lowering.Statement
import TreeLowering.Proofs.Reduction.Places
import TreeLowering.Proofs.Reduction.Rules

namespace TreeLowering.Lowering

open TreeLowering.Reduced

variable {r : Reduction} {items : List Reduced}

theorem expressionStatement_yields : Yields (expressionStatement r items) (Reduces r items) := by
  rw [expressionStatement_eq]
  apply Yields.bind (r.expression_yields _ _)
  intro value hvalue
  apply Yields.bind (noMore_yields _)
  intro _ hrest
  have hgiven := rootsOf_first rfl (rootsOf_end hrest)
  rw [List.append_nil] at hgiven
  rw [r.build_of_slots rfl]
  exact .ok (.built (.requiredValue (by simp) (hgiven ▸ hvalue)))

/-! ## Assignments -/

theorem assignmentTarget_yields {item : Reduced} (h : FollowSchema [item]) :
    Yields (assignmentTarget r item) (Targets r .write item.roots) := by
  rw [assignmentTarget]
  have hroots : rootsOf [item] = item.roots := List.append_nil _
  apply Yields.bind (r.expression_yields _ _)
  intro target htarget
  exact hroots ▸ h.bind_expressed_yields htarget

theorem assignment_yields (h : FollowSchema items) :
    Yields (assignment r items) (Reduces r items) := by
  rw [assignment_eq]
  apply Yields.bind (r.expression_yields _ _)
  intro value hvalue
  split
  case isTrue => exact .error trivial
  case isFalse hsome =>
    have htarget : ∀ item ∈ items.dropLast,
        Yields (assignmentTarget r item) (Targets r .write item.roots) := by
      intro item hitem
      have hone := (List.singleton_sublist.mpr hitem).trans (List.dropLast_sublist items)
      exact assignmentTarget_yields (h.sublist hone)
    apply Yields.bind (.mapM htarget)
    intro targets htargets
    have hne : targets ≠ [] := by
      rintro rfl
      rw [List.forall₂_nil_right_iff.mp htargets] at hsome
      exact hsome rfl
    rw [r.build_of_slots rfl]
    exact .ok (.built (.assign (rootsOf_last rfl rfl) htargets hvalue hne))

theorem expectBinary_yields (what : String) (item : Option Reduced) :
    Yields (expectBinary what item) fun op =>
      rootsOf item.toList = [] ∧ op.operatorClass = .binary := by
  rw [expectBinary.eq_def]
  split
  · split
    case isTrue hclass => exact .ok ⟨rfl, hclass⟩
    case isFalse => exact .error trivial
  · exact .error trivial

theorem augmentedAssignment_yields (h : FollowSchema items) :
    Yields (augmentedAssignment r items) (Reduces r items) := by
  rw [augmentedAssignment_eq]
  apply Yields.bind (expectNode_yields _ _)
  intro target htarget
  apply Yields.bind ((h.part 0).bind_yields htarget)
  intro place hplace
  apply Yields.bind (expectBinary_yields _ _)
  intro op hop
  apply Yields.bind (r.expression_yields _ _)
  intro value hvalue
  apply Yields.bind (noMore_yields _)
  intro _ hrest
  have hgiven :=
    rootsOf_first htarget (rootsOf_drop hop.1 (rootsOf_drop rfl (rootsOf_end hrest)))
  rw [List.append_nil] at hgiven
  rw [r.build_of_slots rfl]
  exact .ok (.built (.augAssign hgiven hplace hop.2 hvalue))

theorem annotatedAssignment_yields (h : FollowSchema items) :
    Yields (annotatedAssignment r items) (Reduces r items) := by
  rw [annotatedAssignment_eq]
  apply Yields.bind (expectNode_yields _ _)
  intro target htarget
  apply Yields.bind ((h.part 0).bind_yields htarget)
  intro place hplace
  apply Yields.bind (expectNode_yields _ _)
  intro hint hhint
  apply Yields.bind (optionalNode_yields _ _)
  intro value hvalue
  apply Yields.bind (noMore_yields _)
  intro _ hrest
  have hgiven :=
    rootsOf_first htarget (rootsOf_drop hhint (rootsOf_drop hvalue (rootsOf_end hrest)))
  have hslots : [("target", Value.node place), ("annotation", .node hint),
      ("value", .ofOption value),
      ("simple", .int (if place.construct = .name then 1 else 0))].map (·.1) =
        Construct.slots .annAssign := rfl
  rw [r.build_of_slots hslots]
  exact .ok (.built (.annAssign (by simpa using hgiven) hplace))

/-! ## Keyword statements -/

theorem returnedValue_yields (item : Option Reduced) :
    Yields (returnedValue r item) (Returns r (rootsOf item.toList)) := by
  rw [returnedValue.eq_def]
  split
  · exact .ok .nothing
  · exact .ok .nothing
  · exact (r.expression_yields _ _).map fun value hvalue => .something hvalue

theorem returnOrYield_yields : Yields (returnOrYield r items) (Reduces r items) := by
  rw [returnOrYield_eq]
  apply Yields.bind (returnedValue_yields _)
  intro value hvalue
  apply Yields.bind (noMore_yields _)
  intro _ hrest
  have hgiven := rootsOf_first rfl (rootsOf_end hrest)
  rw [List.append_nil] at hgiven
  split
  · rw [r.build_of_slots rfl]
    exact .ok (.built (.optionalValue (.inl rfl) (hgiven ▸ hvalue)))
  · rw [r.build_of_slots rfl]
    exact .ok (.built (.optionalValue (.inr rfl) (hgiven ▸ hvalue)))

theorem yieldFrom_yields : Yields (yieldFrom r items) (Reduces r items) := by
  rw [yieldFrom_eq]
  apply Yields.bind (expectNode_yields _ _)
  intro value hvalue
  apply Yields.bind (noMore_yields _)
  intro _ hrest
  have hgiven := rootsOf_first hvalue (rootsOf_end hrest)
  rw [r.build_of_slots rfl]
  exact .ok (.built (.requiredValue (by simp) (hgiven ▸ .single value)))

theorem raise_yields : Yields (raise r items) (Reduces r items) := by
  rw [raise_eq]
  apply Yields.bind (optionalNode_yields _ _)
  intro exc hexc
  apply Yields.bind (optionalNode_yields _ _)
  intro cause hcause
  apply Yields.bind (noMore_yields _)
  intro _ hrest
  split
  case isTrue => exact .error trivial
  case isFalse hcaused =>
    have hgiven := rootsOf_first hexc (rootsOf_drop hcause (rootsOf_end hrest))
    rw [List.append_nil] at hgiven
    rw [r.build_of_slots rfl]
    refine .ok (.built (.raiseStmt hgiven fun hsome => ?_))
    cases exc with
    | none => simp [hsome] at hcaused
    | some e => rfl

theorem assertion_yields : Yields (assertion r items) (Reduces r items) := by
  rw [assertion_eq]
  apply Yields.bind (expectNode_yields _ _)
  intro test htest
  apply Yields.bind (optionalNode_yields _ _)
  intro msg hmsg
  apply Yields.bind (noMore_yields _)
  intro _ hrest
  have hgiven := rootsOf_first htest (rootsOf_drop hmsg (rootsOf_end hrest))
  rw [r.build_of_slots rfl]
  exact .ok (.built (.assertStmt (by simpa using hgiven)))

theorem deletion_yields (h : FollowSchema items) :
    Yields (deletion r items) (Reduces r items) := by
  rw [deletion]
  apply Yields.bind (gather_yields items)
  intro nodes hnodes
  subst hnodes
  split
  case isTrue => exact .error trivial
  case isFalse hsome =>
    have htarget : ∀ n ∈ rootsOf items,
        Yields (n.bind .delete) fun place => n.bind .delete = .ok place := fun n hn =>
      (Node.bind_yields (h n hn)).and_eq.mono fun _ hplace => hplace.2
    apply Yields.bind (.mapM htarget)
    intro targets htargets
    have hne : targets ≠ [] := by
      rintro rfl
      rw [List.forall₂_nil_right_iff.mp htargets] at hsome
      exact hsome rfl
    rw [r.build_of_slots rfl]
    exact .ok (.built (.deleteStmt htargets hne))

theorem keywordStatement_yields : Yields (keywordStatement r items) (Reduces r items) := by
  rw [keywordStatement]
  split
  · rename_i construct hconstruct
    have hkind : construct = .passStmt ∨ construct = .breakStmt ∨ construct = .continueStmt := by
      rw [keywordStatement?.eq_def] at hconstruct
      split at hconstruct <;> cases hconstruct <;> simp
    have hslots : ([] : List (String × Value)).map (·.1) = construct.slots := by
      rcases hkind with rfl | rfl | rfl <;> rfl
    apply Yields.bind (onlyTokens_yields _ items)
    intro _ hgiven
    rw [r.build_of_slots hslots]
    exact .ok (.built (.keywordStmt hkind hgiven))
  · exact .error trivial

/-- Parts that are each read for an identifier are names. -/
theorem identifiers_yields (what : String) (items : List Reduced) :
    Yields (items.mapM fun item => identifier what (some item)) fun parts =>
      Names (rootsOf items) ∧ (parts ≠ [] → ∃ item ∈ items, item.Spells) := by
  have hone : ∀ item ∈ items, Yields (identifier what (some item)) fun _ =>
      Names item.roots ∧ item.Spells := fun item _ =>
    ((identifier_yields what (some item)).and (identifier_spells what (some item))).mono
      fun _ h => by simpa using h
  apply (Yields.mapM hone).mono
  intro parts hparts
  refine ⟨names_rootsOf fun item hitem => ?_, fun hsome => ?_⟩
  · obtain ⟨_, _, hname, _⟩ := exists_of_forall₂_right hparts.flip hitem
    exact hname
  · cases hparts with
    | nil => exact absurd rfl hsome
    | cons hhead _ => exact ⟨_, List.mem_cons_self, hhead.2⟩

theorem scopeDeclaration_yields : Yields (scopeDeclaration r items) (Reduces r items) := by
  rw [scopeDeclaration]
  apply Yields.bind (identifiers_yields _ items)
  intro names ⟨hgiven, _⟩
  split
  case isTrue => exact .error trivial
  case isFalse hsome =>
    have hne : names ≠ [] := by
      rintro rfl
      exact hsome rfl
    split
    · rw [r.build_of_slots rfl]
      exact .ok (.built (.scope (.inl rfl) hne hgiven))
    · rw [r.build_of_slots rfl]
      exact .ok (.built (.scope (.inr rfl) hne hgiven))

/-! ## Imports -/

theorem dottedName_yields : Yields (dottedName r items) (Reduces r items) := by
  rw [dottedName]
  apply Yields.bind (identifiers_yields _ items)
  intro parts ⟨hgiven, hspelled⟩
  dsimp only
  split
  case isTrue => exact .error trivial
  case isFalse hsome =>
    have hparts : parts ≠ [] := by
      rintro rfl
      exact hsome rfl
    exact .ok (.barren (.dotted _ (hspelled hparts)) rfl (.inr hgiven))

theorem importedName_yields (item : Option Reduced) :
    Yields (importedName item) fun _ => Names (rootsOf item.toList) := by
  rw [importedName.eq_def]
  split
  · exact .ok names_nil
  · exact identifier_yields _ _

theorem importAlias_yields : Yields (importAlias r items) (Reduces r items) := by
  rw [importAlias_eq]
  apply Yields.bind (importedName_yields _)
  intro name hname
  apply Yields.bind (optionalIdentifier_yields _ _)
  intro asname hasname
  apply Yields.bind (noMore_yields _)
  intro _ hrest
  have hgiven := rootsOf_first rfl (rootsOf_drop rfl (rootsOf_end hrest))
  rw [r.build_of_slots rfl]
  exact .ok (.built (.importName name asname (hgiven ▸ hname.append (hasname.append names_nil))))

theorem importStar_yields : Yields (importStar r items) (Reduces r items) := by
  rw [importStar]
  apply Yields.bind (onlyTokens_yields _ items)
  intro _ hgiven
  rw [r.build_of_slots rfl]
  exact .ok (.built (.importName "*" none (hgiven ▸ names_nil)))

theorem importModules_yields : Yields (importModules r items) (Reduces r items) := by
  rw [importModules]
  apply Yields.bind (gather_yields items)
  intro nodes hnodes
  subst hnodes
  apply Yields.bind (allOf_yields _ _ _)
  intro names hnames
  obtain ⟨rfl, haliases⟩ := hnames
  rw [r.build_of_slots rfl]
  exact .ok (.built (.importStmt haliases))

theorem relativeLevel_yields : Yields (relativeLevel r items) (Reduces r items) := by
  have hdots : ∀ item : Reduced, Yields (dotsOf item) fun _ => item.roots = [] := by
    intro item
    rw [dotsOf.eq_def]
    split
    · split
      · exact .ok rfl
      · exact .error trivial
    · exact .error trivial
  rw [relativeLevel]
  apply Yields.bind (.mapM_forall fun item _ => hdots item)
  intro dots hgiven
  exact .ok (.passed (.level _) (rootsOf_eq_nil hgiven).symm)

/-- One more part of an import statement leaves the names of all parts in order. -/
theorem ImportSource.add_yields (done : List Reduced) (item : Reduced) (s : ImportSource)
    (hdone : rootsOf done = s.names) :
    Yields (s.add item) fun next => rootsOf (done ++ [item]) = next.names := by
  have hkept : item.roots = [] → rootsOf (done ++ [item]) = s.names := by
    intro hnone
    rw [rootsOf_append, rootsOf, hnone, hdone]
    exact List.append_nil _
  have hadded : ∀ found, item.roots = found → rootsOf (done ++ [item]) = s.names ++ found := by
    intro found hfound
    rw [rootsOf_append, rootsOf, hfound, hdone]
    simp
  rw [ImportSource.add.eq_def]
  split
  · exact .ok (hkept rfl)
  · exact .bind (gatherItem_yields _) fun found hfound => .ok (hadded found hfound)
  · exact .bind (gatherItem_yields _) fun found hfound => .ok (hadded found hfound)
  · exact .bind (gatherItem_yields _) fun found hfound => .ok (hadded found hfound)
  · split
    · exact .ok (hkept rfl)
    · exact .error trivial
  · split
    · split
      · exact .ok (hkept rfl)
      · exact .ok (hkept rfl)
    · exact .error trivial
  · split
    · exact .ok (hkept rfl)
    · exact .error trivial
  · exact .error trivial

theorem importFrom_yields : Yields (importFrom r items) (Reduces r items) := by
  have hempty : rootsOf [] = ImportSource.empty.names := rfl
  have hadded := Yields.foldlM ImportSource.add_yields hempty items
  rw [importFrom]
  apply Yields.bind hadded
  intro source hsource
  split
  case isTrue => exact .error trivial
  case isFalse hfrom =>
    apply Yields.bind (allOf_yields _ _ _)
    intro names hnames
    obtain ⟨rfl, haliases⟩ := hnames
    dsimp only
    split
    case isTrue =>
      rw [r.build_of_slots rfl, ← hsource]
      refine .ok (.built (.importFrom (hsource ▸ haliases) (Int.natCast_nonneg _) fun hnone => ?_))
      have hpositive : source.level.toNat ≠ 0 := by
        intro hzero
        have hlevel : source.level = 0 := UInt64.toNat_inj.mp hzero
        simp [hnone, hlevel] at hfrom
      omega
    case isFalse => exact .error trivial

end TreeLowering.Lowering
