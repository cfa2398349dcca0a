/-
# The option for fractions

Whether numbers keep their fractions changes nothing but the constants that are read from
numerals with one: where one run keeps the fraction, the other has its integer part. Only
a numeral whose integer part is out of range, or that denotes no number, makes a
difference to whether a tree is lowered.

A range tells which numeral a constant was read from if no two branches share it. Any
other tree is compared with one that differs from it in nothing but ranges.
-/

import TreeLowering.Proofs.FirstFailure
import TreeLowering.Proofs.MetadataIndependence

namespace TreeLowering

open TreeLowering.Lowering TreeLowering.Number TreeLowering.Reduced

/-! ## Numerals with a fraction -/

/-- Whether a token is of the class of numerals with a fraction. -/
def Token.IsFraction (token : Token) : Prop :=
  token.lexicalClass = "FLOAT_NUMBER"

/-- The number that a numeral denotes. -/
def Token.fraction? (token : Token) : Option Binary64 :=
  (Decimal.read? (token.text.toList.filter (· != '_'))).bind Binary64.ofDecimal?

/-- A numeral with a fraction among branches, at the range of its branch, and the number
that it denotes. -/
structure FractionAt (branches : List Branch) (position : Position) (x : Binary64) : Prop where
  numeral : ∃ b ∈ branches, b.position = position ∧
    ∃ token, b.numeral? = some token ∧ token.IsFraction ∧ token.fraction? = some x
  low : -Int.pow 2 63 ≤ x.truncate
  high : x.truncate < Int.pow 2 63

theorem fractionAt_of_fits {branches : List Branch} {b : Branch} {token : Token} {x : Binary64}
    (hb : b ∈ branches) (hnumeral : b.numeral? = some token) (hclass : token.IsFraction)
    (hx : token.fraction? = some x) (hfits : fitsWord64 x.truncate) :
    FractionAt branches b.position x := by
  rw [fitsWord64, Bool.and_eq_true, decide_eq_true_iff, decide_eq_true_iff] at hfits
  exact ⟨⟨b, hb, rfl, token, hnumeral, hclass, hx⟩, hfits.1, hfits.2⟩

/-- A literal among branches, at the range of its branch, that is no numeral with a
fraction. -/
def PlainAt (branches : List Branch) (position : Position) : Prop :=
  ∃ b ∈ branches, b.position = position ∧
    (b.IsLiteral ∨ ∃ token, b.numeral? = some token ∧ ¬ token.IsFraction)

/-- A likeness that tells everything apart but the constants of numerals with a fraction,
which are integers in the first run and keep the fraction in the second. Constants that
are the same in both runs belong to other literals. -/
def Likeness.fractions (branches : List Branch) : Likeness where
  ranges := True
  names := True
  literals position value other :=
    PlainAt branches position ∧ value = other ∧ value.isFraction = false ∨
      ∃ x, FractionAt branches position x ∧ value = .int x.truncate ∧ other = .float x
  shared := PlainAt branches
  literals_self hplace hvalue := .inl ⟨hplace, rfl, hvalue⟩
  literals_text := by
    rintro _ _ _ (⟨_, rfl, _⟩ | ⟨x, _, rfl, rfl⟩) <;> rfl

/-- A failure whose cause is a numeral with a fraction that is rejected. -/
def RejectedFraction (e : Error) : Prop :=
  ∃ text, e.rootCause = .unrecognized "float literal" text

theorem rejectedFraction_within {e : Error} (h : RejectedFraction e) (name : String)
    (p : Position) : RejectedFraction (e.within name p) := by
  cases e <;> exact h

/-! ## Single numerals -/

variable {floats floats' : FloatLiterals} {token : Token}

theorem decodeNumber_of_isFraction (h : token.IsFraction) :
    decodeNumber floats token =
      match decodeFraction? floats (token.text.toList.filter (· != '_')) with
      | some value => .ok value
      | none => .error (.unrecognized "float literal" token.text) := by
  rw [decodeNumber, h]
  rfl

/-- Numerals of other classes are read alike, whatever becomes of fractions. -/
theorem decodeNumber_eq_of_not_isFraction (h : ¬ token.IsFraction) :
    decodeNumber floats token = decodeNumber floats' token := by
  rw [decodeNumber, decodeNumber]
  split
  case h_5 hclass => exact absurd hclass h
  all_goals rfl

/-- Numerals of other classes are integers. -/
theorem isFraction_of_decodeNumber (h : ¬ token.IsFraction) {value : Scalar}
    (hvalue : decodeNumber floats token = .ok value) : value.isFraction = false := by
  rw [decodeNumber] at hvalue
  split at hvalue
  case h_5 hclass => exact absurd hclass h
  case h_6 => cases hvalue
  all_goals
    dsimp only at hvalue
    split at hvalue <;> cases hvalue
    rfl

theorem decodeNumber_preserve (h : token.IsFraction) {x : Binary64}
    (hx : token.fraction? = some x) : decodeNumber .preserve token = .ok (.float x) := by
  rw [decodeNumber_of_isFraction h, decodeFraction?, ← Token.fraction?, hx]
  rfl

theorem decodeNumber_truncate (h : token.IsFraction) {x : Binary64}
    (hx : token.fraction? = some x) :
    decodeNumber .truncate token =
      if fitsWord64 x.truncate then .ok (.int x.truncate)
      else .error (.unrecognized "float literal" token.text) := by
  rw [decodeNumber_of_isFraction h, decodeFraction?, ← Token.fraction?, hx]
  by_cases hfits : fitsWord64 x.truncate
  · simp only [Option.bind_some, if_pos hfits]
  · simp only [Option.bind_some, if_neg hfits]

theorem decodeNumber_of_fraction?_eq_none (h : token.IsFraction) (hx : token.fraction? = none) :
    decodeNumber floats token = .error (.unrecognized "float literal" token.text) := by
  rw [decodeNumber_of_isFraction h, decodeFraction?, ← Token.fraction?, hx]
  rfl

/-- Numerals of other classes are read alike by any likeness in which the runs share them. -/
theorem decodeNumber_like {L : Likeness} {excused : Error → Prop} (h : ¬ token.IsFraction)
    {p : Position} (hshared : L.shared p) :
    L.Simulates excused (L.literals p) (decodeNumber floats token)
      (decodeNumber floats' token) := by
  rw [decodeNumber_eq_of_not_isFraction h]
  cases hvalue : decodeNumber floats' token with
  | ok value => exact .inr (.ok (L.literals_self hshared (isFraction_of_decodeNumber h hvalue)))
  | error e => exact .inr (.error (.same e))

/-- What the two options make of the literals among branches. -/
theorem readsLiterals_fractions (branches : List Branch) :
    (Likeness.fractions branches).ReadsLiterals RejectedFraction ⟨.truncate⟩ ⟨.preserve⟩
      branches where
  shared b hb hliteral := ⟨b, hb, rfl, .inl hliteral⟩
  numbers b hb t u hnumeral text kind := by
    rw [← decodeNumber_eq text kind]
    by_cases hclass : t.IsFraction
    · cases hx : t.fraction? with
      | none =>
          rw [decodeNumber_of_fraction?_eq_none hclass hx]
          exact .inl ⟨_, rfl, t.text, rfl⟩
      | some x =>
          rw [decodeNumber_truncate hclass hx, decodeNumber_preserve hclass hx]
          by_cases hfits : fitsWord64 x.truncate
          · rw [if_pos hfits]
            exact .inr (.ok (.inr ⟨x, fractionAt_of_fits hb hnumeral hclass hx hfits, rfl, rfl⟩))
          · rw [if_neg hfits]
            exact .inl ⟨_, rfl, t.text, rfl⟩
    · exact decodeNumber_like hclass ⟨b, hb, rfl, .inr ⟨t, hnumeral, hclass⟩⟩

/-- Where no numeral has a fraction, both options make the same of all literals. -/
theorem readsLiterals_exact {branches : List Branch}
    (h : ∀ b ∈ branches, ∀ token, b.numeral? = some token → ¬ token.IsFraction) :
    Likeness.exact.ReadsLiterals (fun _ => False) ⟨.truncate⟩ ⟨.preserve⟩ branches where
  shared _ _ _ := trivial
  numbers b hb t u hnumeral text kind := by
    rw [← decodeNumber_eq text kind]
    exact decodeNumber_like (h b hb t hnumeral) trivial

/-! ## Constants by their ranges -/

/-- Whether a node holds no other value than one in the constants at a range. -/
def Node.ConstantsAt (n : Node) (position : Position) (value : Scalar) : Prop :=
  ∀ c ∈ n.subtrees, c.construct = .constant → c.position = position →
    c = .mk .constant [("value", .scalar value)] position

/-- Where a range has one pair of like values, like nodes hold these. -/
theorem constantsAt_of_like {L : Likeness} (hranges : L.ranges) {n m : Node}
    (hlike : L.Nodes n m) {position : Position} {value other : Scalar}
    (hone : ∀ v w, L.literals position v w → v = value ∧ w = other) :
    n.ConstantsAt position value ∧ m.ConstantsAt position other := by
  constructor
  · intro c hc hconstant hposition
    obtain ⟨d, _, hcd⟩ := exists_of_forall₂_right hlike.subtrees_like.flip hc
    cases hcd with
    | constant literal =>
        cases hposition
        obtain ⟨rfl, -⟩ := hone _ _ literal
        rfl
    | mk kind => exact absurd hconstant kind
  · intro c hc hconstant hposition
    obtain ⟨d, _, hdc⟩ := exists_of_forall₂_right hlike.subtrees_like hc
    cases hdc with
    | constant literal range =>
        cases hposition
        cases range hranges
        obtain ⟨-, rfl⟩ := hone _ _ literal
        rfl
    | mk kind => exact absurd hconstant kind

/-- In a separate tree the range of a numeral with a fraction is that of no other literal. -/
theorem literals_of_separate {tree : ParseTree} (hseparate : tree.Separate) {b : Branch}
    (hb : b ∈ tree.branches) (hnumeral : b.numeral? = some token) (hclass : token.IsFraction)
    {x : Binary64} (hx : token.fraction? = some x) {v w : Scalar}
    (h : (Likeness.fractions tree.branches).literals b.position v w) :
    v = .int x.truncate ∧ w = .float x := by
  rcases h with ⟨⟨c, hc, hposition, hplain⟩, _⟩ | ⟨y, hy, rfl, rfl⟩
  · cases hseparate.eq_of_position_eq hc hb hposition
    rcases hplain with hliteral | ⟨other, hother, hnot⟩
    · rw [numeral?_of_isLiteral hliteral] at hnumeral
      cases hnumeral
    · cases hnumeral.symm.trans hother
      exact absurd hclass hnot
  · obtain ⟨c, hc, hposition, other, hother, _, hfraction⟩ := hy.numeral
    cases hseparate.eq_of_position_eq hc hb hposition
    cases hnumeral.symm.trans hother
    cases hx.symm.trans hfraction
    exact ⟨rfl, rfl⟩

/-! ## Whole trees -/

variable {options : Options} {tree : ParseTree} {b : Branch}

/-- The two constants that a numeral with a fraction is, by the option. -/
def BuildsFraction (b : Branch) (x : Binary64) : Prop :=
  reduce ⟨.truncate⟩ b.tree =
      .ok (.node (.mk .constant [("value", .scalar (.int x.truncate))] b.position)) ∧
    reduce ⟨.preserve⟩ b.tree =
      .ok (.node (.mk .constant [("value", .scalar (.float x))] b.position))

theorem reduces_of_transform {n : Node} (h : transform options tree = .ok n)
    (hb : b ∈ tree.branches) : b.Reduces options := by
  rw [transform] at h
  cases hreduce : reduce options tree with
  | error e =>
      rw [hreduce] at h
      cases h
  | ok value => exact reduces_of_mem_branches hreduce hb

/-- Numerals with a fraction in trees that both options accept are integers in range in one
run, and keep their fraction in the other. -/
theorem buildsFraction_of_transform {n m : Node} (hn : transform ⟨.truncate⟩ tree = .ok n)
    (hm : transform ⟨.preserve⟩ tree = .ok m) (hb : b ∈ tree.branches)
    (hnumeral : b.numeral? = some token) (hclass : token.IsFraction) :
    ∃ x, token.fraction? = some x ∧ FractionAt tree.branches b.position x ∧
      BuildsFraction b x := by
  obtain ⟨_, htruncate⟩ := reduces_of_transform hn hb
  obtain ⟨v, hv, rfl⟩ := eq_of_reduce_numeral hnumeral htruncate
  obtain ⟨_, hpreserve⟩ := reduces_of_transform hm hb
  obtain ⟨w, hw, rfl⟩ := eq_of_reduce_numeral hnumeral hpreserve
  cases hx : token.fraction? with
  | none =>
      rw [decodeNumber_of_fraction?_eq_none hclass hx] at hv
      cases hv
  | some x =>
      rw [decodeNumber_preserve hclass hx] at hw
      cases hw
      rw [decodeNumber_truncate hclass hx] at hv
      by_cases hfits : fitsWord64 x.truncate
      · rw [if_pos hfits] at hv
        cases hv
        exact ⟨x, rfl, fractionAt_of_fits hb hnumeral hclass hx hfits, htruncate, hpreserve⟩
      · rw [if_neg hfits] at hv
        cases hv

/-- The outcomes under the two options differ in nothing but numerals with a fraction, unless
one of these is rejected. -/
theorem outcomes_fractions (tree : ParseTree) :
    (Likeness.fractions tree.branches).Simulates RejectedFraction
      (Likeness.fractions tree.branches).Nodes (transform ⟨.truncate⟩ tree)
      (transform ⟨.preserve⟩ tree) :=
  Likeness.transform_simulates (fun _ name p h => rejectedFraction_within h name p)
    (Likeness.trees_refl tree True) (readsLiterals_fractions tree.branches)

/-- The modules of a tree under the two options, which differ in nothing but the constants
of numerals with a fraction. If ranges tell the branches apart, then all constants at the
range of such a numeral are integers in the one module and keep the fraction in the other. -/
structure DifferInFractions (tree : ParseTree) (n m : Node) : Prop where
  truncated : transform ⟨.truncate⟩ tree = .ok n
  preserved : transform ⟨.preserve⟩ tree = .ok m
  alike : (Likeness.fractions tree.branches).Nodes n m
  numerals : ∀ b ∈ tree.branches, ∀ token, b.numeral? = some token → token.IsFraction →
    ∃ x, token.fraction? = some x ∧ FractionAt tree.branches b.position x ∧ BuildsFraction b x ∧
      (tree.Separate → n.ConstantsAt b.position (.int x.truncate) ∧
        m.ConstantsAt b.position (.float x))

theorem differInFractions_of_transform {n : Node} (hn : transform ⟨.truncate⟩ tree = .ok n) :
    ∃ m, DifferInFractions tree n m := by
  rcases outcomes_fractions tree with ⟨e, he, _⟩ | hlike
  · rw [he] at hn
    cases hn
  · rw [hn] at hlike
    rcases hlike.elim with ⟨n', m, hn', hm, like⟩ | ⟨e, f, he, _⟩
    · cases hn'
      refine ⟨m, hn, hm, like, ?_⟩
      intro b hb token hnumeral hclass
      obtain ⟨x, hx, hplace, hbuilds⟩ := buildsFraction_of_transform hn hm hb hnumeral hclass
      refine ⟨x, hx, hplace, hbuilds, fun hseparate => ?_⟩
      exact constantsAt_of_like trivial like fun v w h =>
        literals_of_separate hseparate hb hnumeral hclass hx h
    · cases he

/-- Where the tree is lowered without fractions, it is lowered with them, to a module that
differs in nothing but the constants of numerals with a fraction. Each of these is an
integer in range in the one module and has its fraction in the other, as a tree of the same
texts shows whose ranges tell the numerals apart: up to ranges it has the same two modules.
A failure without fractions is the same failure with them, unless a numeral is rejected.
And where no numeral has a fraction, both outcomes are the same. -/
theorem transform_preserve_of_truncate (tree : ParseTree) :
    (∀ n, transform ⟨.truncate⟩ tree = .ok n →
      ∃ m, DifferInFractions tree n m ∧
        ∃ u n' m', tree.SameText u ∧ u.Separate ∧ DifferInFractions u n' m' ∧
          n.erased = n'.erased ∧ m.erased = m'.erased) ∧
    (∀ e, transform ⟨.truncate⟩ tree = .error e → ¬ RejectedFraction e →
      transform ⟨.preserve⟩ tree = .error e) ∧
    ((∀ b ∈ tree.branches, ∀ token, b.numeral? = some token → ¬ token.IsFraction) →
      transform ⟨.truncate⟩ tree = transform ⟨.preserve⟩ tree) := by
  refine ⟨?_, ?_, ?_⟩
  · intro n hn
    obtain ⟨m, hdiffer⟩ := differInFractions_of_transform hn
    obtain ⟨u, hsame, hseparate⟩ := exists_sameText_separate tree
    obtain ⟨n', hn', hfirst⟩ := erased_of_sameText hsame hn
    obtain ⟨m', hdiffer'⟩ := differInFractions_of_transform hn'
    obtain ⟨_, hm', hsecond⟩ := erased_of_sameText hsame hdiffer.preserved
    cases hm'.symm.trans hdiffer'.preserved
    exact ⟨m, hdiffer, u, n', m', hsame, hseparate, hdiffer', hfirst, hsecond⟩
  · intro e he haccepted
    rcases outcomes_fractions tree with ⟨found, hfound, hrejected⟩ | hlike
    · rw [hfound] at he
      cases he
      exact absurd hrejected haccepted
    · rw [he] at hlike
      rcases hlike.elim with ⟨n, m, hn, _⟩ | ⟨e', f, he', hf, like⟩
      · cases hn
      · cases he'
        rw [hf, like.eq trivial trivial]
  · intro hplain
    rcases Likeness.transform_simulates (fun _ _ _ => id) (Likeness.trees_refl tree True)
      (readsLiterals_exact hplain) with ⟨_, _, hnever⟩ | hlike
    · exact hnever.elim
    · exact Likeness.eq_of_exact hlike

/-- The numeral `2.75`, in a group of its own. -/
def fractionBranch : Branch :=
  ⟨"number", [.rule "literal" [.token ⟨"FLOAT_NUMBER", "2.75", .unknown⟩] .unknown], ⟨1, 1, 1, 5⟩⟩

/-- The sum `2.75 + 1` as a statement. -/
def sumTree : ParseTree :=
  .rule "file_input" [.rule "expr_stmt" [.rule "arith_expr" [fractionBranch.tree,
    .rule "add_op" [.token ⟨"OP", "+", .unknown⟩] ⟨1, 6, 1, 7⟩,
    .rule "number" [.token ⟨"DEC_NUMBER", "1", .unknown⟩] ⟨1, 8, 1, 9⟩] ⟨1, 1, 1, 9⟩]
    ⟨1, 1, 1, 10⟩] ⟨1, 1, 2, 1⟩

/-- Of the two summands only the first differs between the options, and both modules hold
it. -/
theorem transform_preserve_of_truncate_sum :
    ∃ n m x, DifferInFractions sumTree n m ∧
      (n.ConstantsAt ⟨1, 1, 1, 5⟩ (.int x.truncate) ∧ m.ConstantsAt ⟨1, 1, 1, 5⟩ (.float x)) ∧
      ∃ c ∈ n.subtrees, c.construct = .constant ∧ c.position = ⟨1, 1, 1, 5⟩ := by
  have hlowered : (transform ⟨.truncate⟩ sumTree).toOption.any (fun n => n.subtrees.any fun c =>
      c.construct = .constant ∧ c.position = ⟨1, 1, 1, 5⟩) = true := by
    decide +kernel
  cases hn : transform ⟨.truncate⟩ sumTree with
  | error e =>
      rw [hn] at hlowered
      cases hlowered
  | ok n =>
      rw [hn] at hlowered
      obtain ⟨m, hdiffer, _⟩ := (transform_preserve_of_truncate sumTree).1 n hn
      have hmember : fractionBranch ∈ sumTree.branches := .tail _ (.head _)
      have hnumeral : fractionBranch.numeral? = some ⟨"FLOAT_NUMBER", "2.75", .unknown⟩ := by
        decide +kernel
      have hclass : Token.IsFraction ⟨"FLOAT_NUMBER", "2.75", .unknown⟩ := by
        rw [Token.IsFraction]
        decide +kernel
      have hseparate : sumTree.Separate := by
        rw [ParseTree.Separate]
        decide +kernel
      obtain ⟨x, _, _, _, hconstants⟩ := hdiffer.numerals _ hmember _ hnumeral hclass
      exact ⟨n, m, x, hdiffer, hconstants hseparate, by simpa [Except.toOption] using hlowered⟩

end TreeLowering
