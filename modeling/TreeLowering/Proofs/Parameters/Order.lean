/-
# Parameter lists in order

The conditions on the order of parameters under which a list of them is accepted, and the
signature that it spells. Both speak about the list alone: what stands before and behind
its slash and its star.
-/

import Mathlib.Data.List.TakeWhile
import TreeLowering.Proofs.Parameters.Layout

namespace TreeLowering

open TreeLowering.Lowering TreeLowering.Reduced

namespace Parameter

/-! ## Segments -/

variable (ps : List Parameter)

/-- The parameters before the star; without a star, all of them. -/
def beforeStar : List Parameter :=
  ps.takeWhile fun p => !p.isStar

/-- The parameters behind the star. -/
def afterStar : List Parameter :=
  (ps.dropWhile fun p => !p.isStar).tail

/-- The parameters before the slash; without a slash, none. -/
def beforeSlash : List Parameter :=
  if ps.any isSlash then ps.takeWhile fun p => !p.isSlash else []

/-- The parameters behind the slash; without a slash, all of them. -/
def afterSlash : List Parameter :=
  if ps.any isSlash then (ps.dropWhile fun p => !p.isSlash).tail else ps

/-- The plain parameters of a list, each with its default. -/
def plainsOf : List (Node × Option Node) :=
  ps.filterMap plain?

/-! ## Order -/

/-- A list of parameters in order. -/
structure Orderly : Prop where
  named : ∀ p ∈ ps, ∀ n ∈ p.named, n.construct = .parameter
  oneSlash : ps.countP isSlash ≤ 1
  slashAfterPlain : .slash ∈ ps → ∃ p ∈ beforeSlash ps, p.isPlain
  slashBeforeMarks : ps.Pairwise fun p q => q.isSlash → !p.isStar ∧ !p.isMapping
  oneStar : ps.countP isStar ≤ 1
  plainAfterBareStar : .star none ∈ ps → ∃ p ∈ afterStar ps, p.isPlain
  oneMapping : ps.countP isMapping ≤ 1
  nothingAfterMapping : ps.Pairwise fun p _ => !p.isMapping
  defaultsLast : (plainsOf (beforeStar ps)).Pairwise KeepsDefault

end Parameter

open Parameter

/-- The signature that a list of parameters spells. -/
def Lowering.Signature.ofParameters (ps : List Parameter) : Signature where
  positionalOnly := (plainsOf (beforeSlash ps)).map (·.1)
  positional := (plainsOf (beforeStar (afterSlash ps))).map (·.1)
  defaults := (plainsOf (beforeStar ps)).filterMap (·.2)
  star? := ps.findSome? Parameter.star?
  keywordOnly := (plainsOf (afterStar ps)).map (·.1)
  keywordDefaults := (plainsOf (afterStar ps)).map (·.2)
  mapping? := ps.findSome? Parameter.mapping?

namespace Layout

variable {l : Layout} {p : Parameter} {ps rest : List Parameter}

/-! ## Segments of a layout -/

theorem forall_mem_leading : ∀ p ∈ l.leading, p.isStar = false ∧ p.isMapping = false := by
  simp only [leading, List.forall_mem_append]
  refine ⟨⟨List.forall_mem_map.mpr fun _ _ => ⟨rfl, rfl⟩, ?_⟩,
    List.forall_mem_map.mpr fun _ _ => ⟨rfl, rfl⟩⟩
  split <;> simp

theorem forall_mem_trailing : ∀ p ∈ l.trailing, p.isSlash = false := by
  simp only [trailing, List.forall_mem_append]
  exact ⟨⟨List.forall_mem_map.mpr fun _ _ => rfl, List.forall_mem_map.mpr fun _ _ => rfl⟩,
    List.forall_mem_map.mpr fun _ _ => rfl⟩

/-- A double star stands behind all others. -/
theorem exists_before_mapping : ∃ others, l.parameters = others ++ l.mapping?.toList.map .mapping ∧
    ∀ p ∈ others, p.isMapping = false := by
  refine ⟨l.leading ++ (l.star?.toList.map .star ++ plains l.keywordOnly), ?_, ?_⟩
  · simp [parameters, trailing]
  · rw [List.forall_mem_append, List.forall_mem_append]
    exact ⟨fun p hp => (forall_mem_leading p hp).2, List.forall_mem_map.mpr fun _ _ => rfl,
      List.forall_mem_map.mpr fun _ _ => rfl⟩

theorem trailing_of_star {parameter? : Option Node} (h : l.star? = some parameter?) :
    l.trailing = .star parameter? :: (plains l.keywordOnly ++ l.mapping?.toList.map .mapping) := by
  simp [trailing, h]

theorem trailing_of_no_star (h : l.star? = none) :
    l.trailing = l.mapping?.toList.map .mapping := by
  simp [trailing, h, l.starred h, plains]

@[simp]
theorem plainsOf_append (first rest : List Parameter) :
    plainsOf (first ++ rest) = plainsOf first ++ plainsOf rest :=
  List.filterMap_append

@[simp]
theorem plainsOf_plains (xs : List (Node × Option Node)) : plainsOf (plains xs) = xs := by
  simp [plainsOf, plains, List.filterMap_map, Function.comp_def, plain?]

@[simp]
theorem plainsOf_mapping (mapping? : Option Node) :
    plainsOf (mapping?.toList.map .mapping) = [] := by
  cases mapping? <;> rfl

theorem plainsOf_leading : plainsOf l.leading = l.positionalOnly ++ l.positional := by
  rw [leading, plainsOf_append, plainsOf_append, plainsOf_plains, plainsOf_plains]
  split <;> simp [plainsOf, plain?]

theorem beforeStar_parameters :
    beforeStar l.parameters = l.leading ++ beforeStar l.trailing := by
  refine List.takeWhile_append_of_pos fun p hp => ?_
  rw [(forall_mem_leading p hp).1]
  rfl

theorem afterStar_parameters : afterStar l.parameters = afterStar l.trailing := by
  rw [afterStar, parameters, List.dropWhile_append_of_pos fun p hp => ?_, afterStar]
  rw [(forall_mem_leading p hp).1]
  rfl

/-- Where the keyword-only parameters begin, all others have been named. -/
theorem plainsOf_beforeStar_trailing : plainsOf (beforeStar l.trailing) = [] := by
  cases hstar : l.star? with
  | some p? => simp [trailing_of_star hstar, beforeStar, plainsOf]
  | none =>
      rw [trailing_of_no_star hstar]
      cases l.mapping? <;> simp [beforeStar, plainsOf]

theorem plainsOf_beforeStar :
    plainsOf (beforeStar l.parameters) = l.positionalOnly ++ l.positional := by
  rw [beforeStar_parameters, plainsOf_append, plainsOf_leading, plainsOf_beforeStar_trailing,
    List.append_nil]

theorem plainsOf_afterStar : plainsOf (afterStar l.parameters) = l.keywordOnly := by
  rw [afterStar_parameters]
  cases hstar : l.star? with
  | some p? => simp [trailing_of_star hstar, afterStar]
  | none =>
      rw [trailing_of_no_star hstar, l.starred hstar]
      cases l.mapping? <;> rfl

theorem slash_mem_parameters : .slash ∈ l.parameters ↔ l.positionalOnly ≠ [] := by
  by_cases hfirst : l.positionalOnly = [] <;>
    simp [parameters, leading, trailing, plains, hfirst]

theorem star_mem_parameters {parameter? : Option Node} :
    .star parameter? ∈ l.parameters ↔ l.star? = some parameter? := by
  by_cases hfirst : l.positionalOnly = [] <;>
    simp [parameters, leading, trailing, plains, hfirst]

theorem mapping_mem_parameters {n : Node} :
    .mapping n ∈ l.parameters ↔ l.mapping? = some n := by
  by_cases hfirst : l.positionalOnly = [] <;>
    simp [parameters, leading, trailing, plains, hfirst]

theorem any_isSlash_iff : ps.any isSlash = true ↔ .slash ∈ ps := by
  rw [List.any_eq_true]
  constructor
  · rintro ⟨p, hp, hslash⟩
    cases p with
    | slash => exact hp
    | _ => cases hslash
  · exact fun h => ⟨_, h, rfl⟩

/-- The slash stands behind the positional-only parameters. -/
theorem slash_splits (hsome : l.positionalOnly ≠ []) :
    beforeSlash l.parameters = plains l.positionalOnly ∧
      afterSlash l.parameters = plains l.positional ++ l.trailing := by
  have hslash := slash_mem_parameters.mpr hsome
  have hsplit : l.parameters =
      plains l.positionalOnly ++ .slash :: (plains l.positional ++ l.trailing) := by
    simp [parameters, leading, hsome]
  have hplain : ∀ p ∈ plains l.positionalOnly, (!p.isSlash) = true :=
    List.forall_mem_map.mpr fun _ _ => rfl
  rw [beforeSlash, afterSlash, if_pos (any_isSlash_iff.mpr hslash),
    if_pos (any_isSlash_iff.mpr hslash), hsplit, List.takeWhile_append_of_pos hplain,
    List.dropWhile_append_of_pos hplain]
  simp

theorem no_slash_splits (hnone : l.positionalOnly = []) :
    beforeSlash l.parameters = [] ∧ afterSlash l.parameters = l.parameters := by
  have hslash : ¬ l.parameters.any isSlash = true := fun h =>
    slash_mem_parameters.mp (any_isSlash_iff.mp h) hnone
  rw [beforeSlash, afterSlash, if_neg hslash, if_neg hslash]
  exact ⟨rfl, rfl⟩

theorem plainsOf_beforeSlash : plainsOf (beforeSlash l.parameters) = l.positionalOnly := by
  by_cases hfirst : l.positionalOnly = []
  · rw [(no_slash_splits hfirst).1, hfirst]
    rfl
  · rw [(slash_splits hfirst).1, plainsOf_plains]

theorem plainsOf_afterSlash :
    plainsOf (beforeStar (afterSlash l.parameters)) = l.positional := by
  by_cases hfirst : l.positionalOnly = []
  · rw [(no_slash_splits hfirst).2, plainsOf_beforeStar, hfirst, List.nil_append]
  · have hplain : ∀ p ∈ plains l.positional, (!p.isStar) = true :=
      List.forall_mem_map.mpr fun _ _ => rfl
    rw [(slash_splits hfirst).2, beforeStar, List.takeWhile_append_of_pos hplain, plainsOf_append,
      plainsOf_plains, ← beforeStar, plainsOf_beforeStar_trailing, List.append_nil]

theorem findSome?_star? : l.parameters.findSome? Parameter.star? = l.star? := by
  have hleading : l.leading.findSome? Parameter.star? = none := by
    rw [List.findSome?_eq_none_iff]
    intro p hp
    cases p with
    | star => cases (forall_mem_leading _ hp).1
    | _ => rfl
  rw [parameters, List.findSome?_append, hleading, Option.none_or]
  cases hstar : l.star? with
  | some p? => rw [trailing_of_star hstar]; rfl
  | none => rw [trailing_of_no_star hstar]; cases l.mapping? <;> rfl

theorem findSome?_mapping? : l.parameters.findSome? Parameter.mapping? = l.mapping? := by
  obtain ⟨others, hothers, hnone⟩ := l.exists_before_mapping
  have hfirst : others.findSome? Parameter.mapping? = none := by
    rw [List.findSome?_eq_none_iff]
    intro p hp
    cases p with
    | mapping => cases hnone _ hp
    | _ => rfl
  rw [hothers, List.findSome?_append, hfirst, Option.none_or]
  cases l.mapping? <;> rfl

/-- The parameters of a layout spell its signature. -/
theorem ofParameters_parameters : Signature.ofParameters l.parameters = l.signature := by
  simp [Signature.ofParameters, signature, plainsOf_beforeSlash, plainsOf_afterSlash,
    plainsOf_beforeStar, plainsOf_afterStar, findSome?_star?, findSome?_mapping?]

/-! ## Layouts are in order -/

theorem countP_eq_zero_of_forall {holds : Parameter → Bool} (h : ∀ p ∈ ps, holds p = false) :
    ps.countP holds = 0 :=
  List.countP_eq_zero.mpr fun p hp => by
    rw [h p hp]
    exact Bool.false_ne_true

/-- The parameters of a layout are in order, if a parameter follows a star without a name. -/
theorem orderly_parameters (hnamed : ∀ p ∈ l.parameters, ∀ n ∈ p.named, n.construct = .parameter)
    (hbare : l.star? = some none → l.keywordOnly ≠ []) : Orderly l.parameters where
  named := hnamed
  oneSlash := by
    have hplains : ∀ xs, (plains xs).countP isSlash = 0 := fun _ =>
      countP_eq_zero_of_forall (List.forall_mem_map.mpr fun _ _ => rfl)
    simp only [parameters, leading, List.countP_append, hplains,
      countP_eq_zero_of_forall forall_mem_trailing]
    split <;> simp
  slashAfterPlain hslash := by
    have hsome := slash_mem_parameters.mp hslash
    obtain ⟨q, hq⟩ := List.exists_mem_of_ne_nil _ hsome
    rw [(slash_splits hsome).1]
    exact ⟨.plain q.1 q.2, List.mem_map_of_mem hq, rfl⟩
  slashBeforeMarks := by
    have hleading : ∀ p ∈ l.leading, (!p.isStar) = true ∧ (!p.isMapping) = true := fun p hp => by
      rw [(forall_mem_leading p hp).1, (forall_mem_leading p hp).2]
      exact ⟨rfl, rfl⟩
    rw [parameters, List.pairwise_append]
    refine ⟨List.pairwise_of_forall_mem_list fun p hp _ _ _ => hleading p hp, ?_,
      fun p hp _ _ _ => hleading p hp⟩
    apply List.pairwise_of_forall_mem_list
    intro p _ q hq hslash
    rw [forall_mem_trailing q hq] at hslash
    cases hslash
  oneStar := by
    have hplains : ∀ xs, (plains xs).countP isStar = 0 := fun _ =>
      countP_eq_zero_of_forall (List.forall_mem_map.mpr fun _ _ => rfl)
    have hleading : l.leading.countP isStar = 0 :=
      countP_eq_zero_of_forall fun p hp => (forall_mem_leading p hp).1
    simp only [parameters, trailing, List.countP_append, hleading, hplains]
    cases l.star? <;> cases l.mapping? <;> simp
  plainAfterBareStar hstar := by
    have hstar := star_mem_parameters.mp hstar
    obtain ⟨q, hq⟩ := List.exists_mem_of_ne_nil _ (hbare hstar)
    refine ⟨.plain q.1 q.2, ?_, rfl⟩
    rw [afterStar_parameters, trailing_of_star hstar]
    simp [afterStar, plains, hq]
  oneMapping := by
    obtain ⟨others, hothers, hnone⟩ := l.exists_before_mapping
    rw [hothers, List.countP_append, countP_eq_zero_of_forall hnone]
    cases l.mapping? <;> simp
  nothingAfterMapping := by
    obtain ⟨others, hothers, hnone⟩ := l.exists_before_mapping
    have hbefore : ∀ p ∈ others, (!p.isMapping) = true := fun p hp => by rw [hnone p hp]; rfl
    rw [hothers, List.pairwise_append]
    refine ⟨List.pairwise_of_forall_mem_list fun p hp _ _ => hbefore p hp, ?_,
      fun p hp _ _ => hbefore p hp⟩
    cases l.mapping? <;> simp
  defaultsLast := by
    rw [plainsOf_beforeStar]
    exact l.defaultsLast

/-! ## Lists in order are accepted -/

/-- What counts at most once in a list, and stands in it, does not stand before that. -/
theorem not_mem_of_countP_le_one {holds : Parameter → Bool}
    (hone : (ps ++ p :: rest).countP holds ≤ 1) (hp : holds p) : ∀ q ∈ ps, holds q = false := by
  intro q hq
  by_contra hother
  have hbefore : 0 < ps.countP holds := List.countP_pos_iff.mpr ⟨q, hq, by simpa using hother⟩
  rw [List.countP_append, List.countP_cons_of_pos hp] at hone
  omega

/-- In a list in order, a parameter without a default before the star follows none with one. -/
theorem defaults_eq_nil_of_orderly {n : Node}
    (h : Orderly (l.parameters ++ .plain n none :: rest)) (hstar : l.star? = none) :
    l.signature.defaults = [] := by
  have hbefore : ∀ p ∈ l.parameters, (!p.isStar) = true := by
    intro p hp
    cases p with
    | star p? => simp [star_mem_parameters.mp hp] at hstar
    | _ => rfl
  have hall : plainsOf l.parameters = l.positionalOnly ++ l.positional := by
    rw [← plainsOf_beforeStar, beforeStar, List.takeWhile_eq_self_iff.mpr hbefore]
  have hlast := h.defaultsLast
  rw [beforeStar, List.takeWhile_append_of_pos hbefore, plainsOf_append, hall,
    List.pairwise_append] at hlast
  rw [signature, List.filterMap_eq_nil_iff]
  intro q hq
  have hkeeps : KeepsDefault q (n, none) := hlast.2.2 q hq _ (by simp [plainsOf])
  exact Option.not_isSome_iff_eq_none.mp fun hsome => absurd (hkeeps hsome) Bool.false_ne_true

/-- The next parameter of a list in order can be added to the signature of those before it. -/
theorem exists_add_of_orderly (h : Orderly (l.parameters ++ p :: rest)) :
    ∃ next, l.signature.add (.parameter p) = .ok next := by
  have hkind : ∀ n ∈ p.named, n.construct = .parameter := h.named p (by simp)
  have hmapping : l.mapping? = none := by
    rw [Option.eq_none_iff_forall_not_mem]
    intro n hn
    have hpair := (List.pairwise_append.mp h.nothingAfterMapping).2.2
    cases hpair _ (mapping_mem_parameters.mpr hn) p List.mem_cons_self
  have hstar (hmark : p.isStar ∨ p.isSlash) : l.star? = none := by
    rw [Option.eq_none_iff_forall_not_mem]
    intro p? hp?
    have hmem := star_mem_parameters.mpr hp?
    rcases hmark with hp | hp
    · cases not_mem_of_countP_le_one h.oneStar hp _ hmem
    · have hpair := (List.pairwise_append.mp h.slashBeforeMarks).2.2
      cases (hpair _ hmem p List.mem_cons_self hp).1
  cases p with
  | star p? =>
      refine ⟨_, Signature.add_star_eq_ok_iff.mpr ⟨hmapping, hstar (.inl rfl), ?_, rfl⟩⟩
      simpa [named] using hkind
  | mapping n =>
      exact ⟨_, Signature.add_mapping_eq_ok_iff.mpr ⟨hmapping, hkind n List.mem_cons_self, rfl⟩⟩
  | slash =>
      have hnone := hstar (.inr rfl)
      have hfirst : l.positionalOnly = [] := by
        by_contra hsome
        cases not_mem_of_countP_le_one h.oneSlash rfl _ (slash_mem_parameters.mpr hsome)
      have hsome : l.positional ≠ [] := by
        intro hempty
        have hnil : l.parameters = [] := by
          simp [parameters, leading, trailing, plains, hfirst, hempty, hnone, l.starred hnone,
            hmapping]
        rw [hnil] at h
        obtain ⟨q, hq, -⟩ := h.slashAfterPlain (by simp)
        simp [beforeSlash] at hq
      refine ⟨_, Signature.add_slash_eq_ok_iff.mpr ⟨hmapping, hnone, ?_, ?_, rfl⟩⟩
      · simp [signature, hfirst]
      · simpa [signature] using hsome
  | plain n default? =>
      have hplain := hkind n List.mem_cons_self
      cases hfound : l.star? with
      | some p? =>
          exact ⟨_, Signature.add_plain_eq_ok_iff.mpr ⟨hmapping,
            Signature.addPlain_eq_ok_iff.mpr ⟨hplain, .inl ⟨by simp [signature, hfound], rfl⟩⟩⟩⟩
      | none =>
          refine ⟨_, Signature.add_plain_eq_ok_iff.mpr ⟨hmapping,
            Signature.addPlain_eq_ok_iff.mpr ⟨hplain, .inr ⟨hfound, ?_, rfl⟩⟩⟩⟩
          rintro rfl
          exact defaults_eq_nil_of_orderly h hfound

/-- A list of parameters in order is accepted, from the signature of a layout on. -/
theorem exists_addPieces_of_orderly {l : Layout} (h : Orderly (l.parameters ++ ps)) :
    ∃ s, l.signature.addPieces (ps.map .parameter) = .ok s := by
  induction ps generalizing l with
  | nil => exact ⟨_, rfl⟩
  | cons p rest ih =>
      obtain ⟨next, hadd⟩ := exists_add_of_orderly h
      obtain ⟨-, extended, hextended, rfl⟩ := exists_of_add hadd
      rw [← List.singleton_append, ← List.append_assoc, ← hextended] at h
      obtain ⟨s, hrest⟩ := ih h
      refine ⟨s, ?_⟩
      rw [List.map_cons, Signature.addPieces_cons, hadd]
      exact hrest

/-- A list in order is that of a layout. -/
theorem exists_of_orderly (h : Orderly ps) :
    ∃ l : Layout, l.parameters = ps ∧ (l.star? = some none → l.keywordOnly ≠ []) ∧
      Signature.empty.addPieces (ps.map .parameter) = .ok l.signature := by
  obtain ⟨s, hs⟩ := exists_addPieces_of_orderly (l := empty) h
  obtain ⟨-, l, hl, rfl⟩ := exists_of_addPieces hs
  obtain rfl : l.parameters = ps := hl
  refine ⟨l, rfl, fun hstar hnone => ?_, hs⟩
  obtain ⟨p, hp, hplain⟩ := h.plainAfterBareStar (star_mem_parameters.mpr hstar)
  rw [← plainsOf_afterStar, plainsOf, List.filterMap_eq_nil_iff] at hnone
  cases p with
  | plain => simpa using hnone _ hp
  | _ => cases hplain

end Layout

/-! ## Acceptance -/

/-- The node of a list of parameters. -/
def argumentsOf (ps : List Parameter) (position : Position) : Node :=
  .mk .arguments (Signature.ofParameters ps).fields position

/-- Exactly the lists in order have a signature with a node, and it is the one they spell. -/
theorem ofPieces_build_eq_ok_iff {pieces : List Reduced}
    (hpieces : ∀ piece ∈ pieces, piece.isPiece) {position : Position} {result : Node} :
    (Signature.ofPieces pieces >>= fun s => s.build position) = .ok result ↔
      Orderly (parametersOf pieces) ∧ result = argumentsOf (parametersOf pieces) position := by
  constructor
  · intro h
    obtain ⟨s, hs, hbuild⟩ := exists_of_bind_eq_ok h
    obtain ⟨hbare, rfl⟩ := Signature.build_eq_ok_iff.mp hbuild
    rw [Signature.ofPieces, Signature.addPieces_eq_ok_iff hpieces,
      ← Layout.signature_empty] at hs
    obtain ⟨hnamed, l, hl, rfl⟩ := Layout.exists_of_addPieces hs
    obtain hl : l.parameters = parametersOf pieces := hl
    rw [argumentsOf, ← hl, Layout.ofParameters_parameters]
    rw [← hl] at hnamed
    refine ⟨Layout.orderly_parameters hnamed fun hstar hnone => ?_, rfl⟩
    exact hbare hstar (by simp [Layout.signature, hnone])
  · rintro ⟨horder, rfl⟩
    obtain ⟨l, hl, hbare, hs⟩ := Layout.exists_of_orderly horder
    rw [Signature.ofPieces, (Signature.addPieces_eq_ok_iff hpieces).mpr hs, argumentsOf, ← hl,
      Layout.ofParameters_parameters]
    refine Signature.build_eq_ok_iff.mpr ⟨fun hstar hnone => ?_, rfl⟩
    exact hbare hstar (by simpa [Layout.signature] using hnone)

end TreeLowering
