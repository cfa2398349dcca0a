/-
# Clauses of an import

A `from` import says where it imports from, by dots and a module, and then what it imports.
The dots may be spread over several parts, and groups without a name in them may stand
between them. It is accepted when its parts are in that order, and its level is the number
of all dots. The dots are added up in a machine word and only their sum is checked, so a sum that
has left the word counts as what is left of it.
-/

import Mathlib.Data.List.Induction
import TreeLowering.Proofs.NodeGroups

namespace TreeLowering

open TreeLowering.Lowering TreeLowering.Reduced

variable {item : Reduced} {items done : List Reduced}

/-! ## Parts -/

namespace Reduced

/-- The number of dots that a part of an import stands for. -/
def dots? : Reduced → Option ℕ
  | .level dots => some dots.toNat
  | .token t => if isDots t then some t.text.toList.length else none
  | _ => none

/-- The module that a part of an import names: a path, or a token that does not consist of
dots. -/
def path? : Reduced → Option String
  | .dotted path => some path
  | .token t => if isDots t then none else some t.text
  | _ => none

/-- Whether a part says where an import imports from. -/
def isSource (item : Reduced) : Bool :=
  item.dots?.isSome || item.path?.isSome

/-- The number of dots in all parts of an import. -/
def totalDots (items : List Reduced) : ℕ :=
  (items.filterMap dots?).sum

theorem isSource_eq_false_iff : item.isSource = false ↔ item.dots? = none ∧ item.path? = none := by
  simp [isSource]

theorem isSource_of_isGroup (h : item.isGroup) : item.isSource = false := by
  cases item <;> first | rfl | cases h

end Reduced

/-- What an import imports stands behind where it imports from, and its one module behind the
dots. -/
structure ImportOrder (items : List Reduced) : Prop where
  sourceFirst : items.Pairwise fun first later => first.roots ≠ [] → later.isSource = false
  oneModule : items.Pairwise fun first later => first.path?.isSome → later.path? = none
  dotsFirst : items.Pairwise fun first later => first.path?.isSome → later.dots? = none

/-- In front of dots and of a module there are neither a module nor names. -/
theorem importOrder_iff : ImportOrder items ↔ items.Pairwise fun first later =>
    later.isSource → first.path? = none ∧ first.roots = [] := by
  constructor
  · rintro ⟨hsource, hmodule, hdots⟩
    refine (hsource.and (hmodule.and hdots)).imp fun ⟨hroots, hpath, hdots⟩ hlater => ⟨?_, ?_⟩
    · by_contra hsome
      rw [← ne_eq, Option.ne_none_iff_isSome] at hsome
      cases hlater.symm.trans (isSource_eq_false_iff.mpr ⟨hdots hsome, hpath hsome⟩)
    · by_contra hne
      cases hlater.symm.trans (hroots hne)
  · intro h
    have hmodule : items.Pairwise fun first later => first.path?.isSome →
        later.dots? = none ∧ later.path? = none := by
      refine h.imp fun hbefore hsome => isSource_eq_false_iff.mp (Bool.eq_false_iff.mpr ?_)
      intro hlater
      simp [(hbefore hlater).1] at hsome
    exact ⟨h.imp fun hbefore hne => Bool.eq_false_iff.mpr fun hlater => hne (hbefore hlater).2,
      hmodule.imp fun hnone hsome => (hnone hsome).2,
      hmodule.imp fun hnone hsome => (hnone hsome).1⟩

namespace Lowering.ImportSource

variable {s next : ImportSource}

/-! ## One part -/

/-- What was said so far and with the next part. -/
def after (s : ImportSource) (item : Reduced) : ImportSource :=
  ⟨s.level + UInt64.ofNat (item.dots?.getD 0), s.module?.or item.path?, s.names ++ item.roots⟩

/-- Groups of names may come everywhere, dots and a module in front of names and of the
module. -/
theorem add_eq_ok_iff : s.add item = .ok next ↔
    (item.isAbsent ∨ item.isSource ∨ item.isGroup) ∧ (item.isSource → s.isOpen) ∧
      s.after item = next := by
  have hmodule (hopen : s.isOpen) : s.module? = none := by
    rw [isOpen, Bool.and_eq_true, Option.isNone_iff_eq_none] at hopen
    exact hopen.1
  cases item with
  | absent => simp [add, after, isAbsent, isSource, dots?, path?]
  | node | nodes | fragment =>
      rw [add, bind_eq_ok_iff]
      constructor
      · rintro ⟨found, hfound, hnext⟩
        obtain ⟨hgroup, rfl⟩ := (gatherItem_eq_ok_iff_isGroup rfl).mp hfound
        cases hnext
        simp [hgroup, isSource_of_isGroup hgroup, after, dots?, path?]
      · rintro ⟨hknown, -, rfl⟩
        have hgroup := (hknown.resolve_left (by simp [isAbsent])).resolve_left
          (by simp [isSource, dots?, path?])
        exact ⟨_, gatherItem_of_isGroup hgroup, by simp [after, dots?, path?]⟩
  | level dots =>
      rw [add]
      cases hopen : s.isOpen with
      | true => simp [after, isAbsent, isSource, dots?, path?]
      | false => simp [isAbsent, isSource, dots?]
  | token t =>
      rw [add]
      cases hopen : s.isOpen with
      | true =>
          cases hdots : isDots t <;>
            simp [after, isAbsent, isSource, dots?, path?, hdots, dotCount, hmodule hopen]
      | false => cases hdots : isDots t <;> simp [isAbsent, isSource, dots?, path?, hdots]
  | dotted path =>
      rw [add]
      cases hopen : s.isOpen with
      | true => simp [after, isAbsent, isSource, dots?, path?, hmodule hopen]
      | false => simp [isAbsent, isSource, dots?, path?]
  | _ => simp [add, isAbsent, isSource, dots?, path?, isGroup]

/-! ## A run of parts -/

/-- What the parts of an import say together. -/
def ofParts (items : List Reduced) : ImportSource :=
  ⟨UInt64.ofNat (totalDots items), (items.filterMap path?).head?, rootsOf items⟩

theorem ofParts_concat (done : List Reduced) (item : Reduced) :
    ofParts (done ++ [item]) = (ofParts done).after item := by
  cases hdots : item.dots? <;> cases hpath : item.path? <;>
    simp [ofParts, after, totalDots, hdots, hpath, List.head?_append]

theorem isOpen_ofParts : (ofParts done).isOpen ↔
    ∀ first ∈ done, first.path? = none ∧ first.roots = [] := by
  simp [ofParts, isOpen, rootsOf_eq_flatMap, forall_and]

/-- The parts of an import are read exactly when they are in their order. -/
theorem foldlM_add_eq_ok_iff : items.foldlM add .empty = .ok s ↔
    (∀ item ∈ items, item.isAbsent ∨ item.isSource ∨ item.isGroup) ∧ ImportOrder items ∧
      ofParts items = s := by
  rw [importOrder_iff]
  -- from the right, since whether a part may come depends on all those before it
  induction items using List.reverseRecOn generalizing s with
  | nil =>
      have hempty : ofParts [] = .empty := rfl
      have hnil : ([] : List Reduced).foldlM add .empty = .ok .empty := rfl
      simp [hempty, hnil]
  | append_singleton done item ih =>
      have hstep : (done ++ [item]).foldlM add .empty = .ok s ↔
          ∃ state, done.foldlM add .empty = .ok state ∧ state.add item = .ok s := by
        simp [List.foldlM_append, bind_eq_ok_iff]
      simp only [hstep, ih, add_eq_ok_iff, ofParts_concat, List.forall_mem_append,
        List.pairwise_append, List.forall_mem_singleton]
      constructor
      · rintro ⟨_, ⟨hall, horder, rfl⟩, hitem, hopen, hs⟩
        exact ⟨⟨hall, hitem⟩, ⟨horder, List.pairwise_singleton .., fun first hfirst hsource =>
          isOpen_ofParts.mp (hopen hsource) first hfirst⟩, hs⟩
      · rintro ⟨⟨hall, hitem⟩, ⟨horder, -, hbefore⟩, hs⟩
        exact ⟨_, ⟨hall, horder, rfl⟩, hitem, fun hsource => isOpen_ofParts.mpr
          fun first hfirst => hbefore first hfirst hsource, hs⟩

theorem toNat_level_ofParts (h : totalDots items < 2 ^ 64) :
    (ofParts items).level.toNat = totalDots items :=
  UInt64.toNat_ofNat_of_lt' h

/-- An import says where it imports from by a module or by dots. -/
theorem module_or_level_ofParts (h : totalDots items < 2 ^ 64) :
    ((ofParts items).module? ≠ none ∨ (ofParts items).level ≠ 0) ↔
      (∃ item ∈ items, item.path?.isSome) ∨ 1 ≤ totalDots items := by
  have hmodule : (ofParts items).module? ≠ none ↔ ∃ item ∈ items, item.path?.isSome := by
    simp [ofParts, Option.isSome_iff_ne_none]
  rw [hmodule, ne_eq, ← UInt64.toNat_inj, toNat_level_ofParts h]
  exact or_congr_right Nat.one_le_iff_ne_zero.symm

end Lowering.ImportSource

/-! ## The statement -/

theorem importFrom_eq_ok_iff {r : Reduction} {result : Reduced} :
    importFrom r items = .ok result ↔ ∃ source, items.foldlM ImportSource.add .empty = .ok source ∧
      (source.module? ≠ none ∨ source.level ≠ 0) ∧ SomeOf .importName source.names ∧
      source.level.toNat < 2 ^ 63 ∧
      result = .node (.mk .importFrom [("module", .ofText? source.module?),
        ("names", .list source.names), ("level", .int source.level.toNat)] r.position) := by
  rw [importFrom, bind_eq_ok_iff]
  refine exists_congr fun source => and_congr_right fun _ => ?_
  have hguard : (source.module?.isNone && source.level == 0) = true ↔
      ¬ (source.module? ≠ none ∨ source.level ≠ 0) := by
    simp
  split
  case isTrue hnothing => simp [hguard.mp hnothing]
  case isFalse hfrom =>
    rw [and_iff_right (not_not.mp (hguard.not.mp hfrom)), bind_eq_ok_iff]
    simp only [allOf_eq_ok_iff, and_assoc, exists_and_left, exists_eq_left']
    refine and_congr_right fun _ => ?_
    rw [r.build_of_slots rfl]
    split
    case isTrue hfits =>
      have hsmall : source.level.toNat < 2 ^ 63 := hfits
      rw [and_iff_right hsmall, Except.ok.injEq, eq_comm]
    case isFalse hlarge =>
      constructor
      · intro h
        cases h
      · rintro ⟨hfits, -⟩
        exact absurd hfits hlarge

/-- A `from` import with no more dots than a signed word can count is accepted exactly when its
parts, without placeholders, are dots, modules and groups in their order, the groups hold names
to import and nothing else, and at least one, and there is a module or a dot. Its level is the
number of all dots, and its names are those of all groups in source order. -/
theorem apply_importFrom_eq_ok_iff (options : Options) (position : Position)
    {items : List Reduced} (hdots : totalDots items ≤ 2 ^ 63 - 1) (result : Reduced) :
    apply options .importFrom position items = .ok result ↔
      (∀ item ∈ present items, item.isSource ∨ item.isGroup) ∧ ImportOrder items ∧
      SomeOf .importName (rootsOf items) ∧
      ((∃ item ∈ items, item.path?.isSome) ∨ 1 ≤ totalDots items) ∧
      result = .node (.mk .importFrom [("module", .ofText? (items.filterMap path?).head?),
        ("names", .list (rootsOf items)), ("level", .int (totalDots items))] position) := by
  have hsmall : totalDots items < 2 ^ 63 := by omega
  have hword : totalDots items < 2 ^ 64 := by omega
  have hlevel := ImportSource.toNat_level_ofParts hword
  have hfrom := ImportSource.module_or_level_ofParts hword
  rw [apply_eq_ok_iff, forall_mem_present_iff]
  show importFrom _ items = _ ↔ _
  rw [importFrom_eq_ok_iff]
  simp only [ImportSource.foldlM_add_eq_ok_iff]
  constructor
  · rintro ⟨_, ⟨hall, horder, rfl⟩, hsaid, hnames, -, rfl⟩
    rw [hlevel]
    exact ⟨hall, horder, hnames, hfrom.mp hsaid, rfl⟩
  · rintro ⟨hall, horder, hnames, hsaid, rfl⟩
    refine ⟨_, ⟨hall, horder, rfl⟩, hfrom.mpr hsaid, hnames, ?_, ?_⟩
    · rw [hlevel]
      exact hsmall
    · rw [hlevel]
      rfl

/-- A name to import. -/
def importedAs (name : String) : Node :=
  .mk .importName [("name", .text name), ("asname", .absent)] .unknown

/-- Dots in two parts, with a placeholder and a group without names around them, a module and
two groups of names. -/
def spreadImport : List Reduced := [
  .level 1, .absent, .token ⟨"DOT", "..", .unknown⟩, .nodes [], .dotted "os.path",
  .fragment "names" [.node (importedAs "a"), .token ⟨"COMMA", ",", .unknown⟩] .unknown,
  .node (importedAs "b")]

/-- The level is that of all dots, and the names are those of all groups. -/
theorem apply_importFrom_eq_ok_iff_spread : totalDots spreadImport ≤ 2 ^ 63 - 1 ∧
    apply .default .importFrom .unknown spreadImport = .ok (.node (.mk .importFrom
      [("module", .text "os.path"), ("names", .list [importedAs "a", importedAs "b"]),
        ("level", .int 3)] .unknown)) := by
  have hdots : totalDots spreadImport ≤ 2 ^ 63 - 1 := by decide
  refine ⟨hdots, (apply_importFrom_eq_ok_iff .default .unknown hdots _).mpr
    ⟨by decide, ⟨by decide, by decide, by decide⟩, ?_, .inr (by decide), rfl⟩⟩
  exact ⟨by decide, by decide⟩

/-! ## More dots than a word can hold -/

/-- What is left of the number of all dots in a machine word. -/
def dotsInWord (items : List Reduced) : ℕ :=
  totalDots items % 2 ^ 64

theorem toNat_level_ofParts_eq (items : List Reduced) :
    (ImportSource.ofParts items).level.toNat = dotsInWord items :=
  UInt64.toNat_ofNat'

/-- The level is the number of dots as long as the word holds it. -/
theorem dotsInWord_eq_totalDots_iff (h : dotsInWord items < 2 ^ 63) :
    dotsInWord items = totalDots items ↔ totalDots items ≤ 2 ^ 63 - 1 := by
  unfold dotsInWord at h ⊢
  omega

/-- A `from` import with any number of dots is accepted exactly when its parts are in their order
and import names, there is a module or a dot left in the machine word, and what is left fits a
signed word. -/
theorem apply_importFrom_eq_ok_iff_dotsInWord (options : Options) (position : Position)
    (result : Reduced) : apply options .importFrom position items = .ok result ↔
      (∀ item ∈ present items, item.isSource ∨ item.isGroup) ∧ ImportOrder items ∧
      SomeOf .importName (rootsOf items) ∧
      ((∃ item ∈ items, item.path?.isSome) ∨ 1 ≤ dotsInWord items) ∧
      dotsInWord items < 2 ^ 63 ∧
      result = .node (.mk .importFrom [("module", .ofText? (items.filterMap path?).head?),
        ("names", .list (rootsOf items)), ("level", .int (dotsInWord items))] position) := by
  have hmodule : (ImportSource.ofParts items).module? ≠ none ↔
      ∃ item ∈ items, item.path?.isSome := by
    simp [ImportSource.ofParts, Option.isSome_iff_ne_none]
  have hlevel : (ImportSource.ofParts items).level ≠ 0 ↔ 1 ≤ dotsInWord items := by
    rw [ne_eq, ← UInt64.toNat_inj, toNat_level_ofParts_eq]
    exact Nat.one_le_iff_ne_zero.symm
  rw [apply_eq_ok_iff, forall_mem_present_iff, ← hmodule, ← hlevel]
  show importFrom _ items = _ ↔ _
  rw [importFrom_eq_ok_iff]
  simp only [ImportSource.foldlM_add_eq_ok_iff]
  constructor
  · rintro ⟨_, ⟨hall, horder, rfl⟩, hsaid, hnames, hfits, rfl⟩
    rw [toNat_level_ofParts_eq] at hfits ⊢
    exact ⟨hall, horder, hnames, hsaid, hfits, rfl⟩
  · rintro ⟨hall, horder, hnames, hsaid, hfits, rfl⟩
    refine ⟨_, ⟨hall, horder, rfl⟩, hsaid, hnames, ?_, ?_⟩
    · rw [toNat_level_ofParts_eq]
      exact hfits
    · rw [toNat_level_ofParts_eq]
      rfl

/-- The level of an accepted import is what is left of its dots in the machine word. It is the
number of its dots exactly when a signed word can count them. An import is refused when what is
left of its dots is more than that, as it is when they fit the machine word but not a signed
one. -/
theorem level_of_apply_importFrom (options : Options) (position : Position)
    (items : List Reduced) :
    (∀ result, apply options .importFrom position items = .ok result →
      ∃ n, result = .node n ∧ n.get? "level" = some (.int (dotsInWord items)) ∧
        (n.get? "level" = some (.int (totalDots items)) ↔ totalDots items ≤ 2 ^ 63 - 1)) ∧
    (2 ^ 63 ≤ dotsInWord items → ∃ e, apply options .importFrom position items = .error e) ∧
    (2 ^ 63 ≤ totalDots items → totalDots items < 2 ^ 64 →
      ∃ e, apply options .importFrom position items = .error e) := by
  have hrefused (hlarge : 2 ^ 63 ≤ dotsInWord items) :
      ∃ e, apply options .importFrom position items = .error e := by
    cases hresult : apply options .importFrom position items with
    | error e => exact ⟨e, rfl⟩
    | ok result =>
        obtain ⟨-, -, -, -, hfits, -⟩ :=
          (apply_importFrom_eq_ok_iff_dotsInWord options position result).mp hresult
        exact absurd hlarge (Nat.not_le.mpr hfits)
  refine ⟨fun result hresult => ?_, hrefused, fun hlarge hword => hrefused ?_⟩
  · obtain ⟨-, -, -, -, hfits, rfl⟩ :=
      (apply_importFrom_eq_ok_iff_dotsInWord options position result).mp hresult
    refine ⟨_, rfl, rfl, ?_⟩
    rw [← dotsInWord_eq_totalDots_iff hfits]
    show some (Value.int (dotsInWord items)) = some (.int (totalDots items)) ↔ _
    simp [Value.int]
  · rw [dotsInWord, Nat.mod_eq_of_lt hword]
    exact hlarge

/-- One level that a machine word can count and a signed one cannot. -/
def oversizedImport : List Reduced :=
  [.level 9223372036854775808, .node (importedAs "a")]

theorem level_of_apply_importFrom_spread_and_oversized :
    (∃ n, apply .default .importFrom .unknown spreadImport = .ok (.node n) ∧
      n.get? "level" = some (.int (totalDots spreadImport))) ∧
    2 ^ 63 ≤ totalDots oversizedImport ∧ totalDots oversizedImport < 2 ^ 64 ∧
    ∃ e, apply .default .importFrom .unknown oversizedImport = .error e := by
  obtain ⟨result, hspread⟩ :
      ∃ result, apply .default .importFrom .unknown spreadImport = .ok result := ⟨_, rfl⟩
  obtain ⟨n, rfl, -, hexact⟩ :=
    (level_of_apply_importFrom .default .unknown spreadImport).1 result hspread
  have hlarge : 2 ^ 63 ≤ totalDots oversizedImport := by decide
  have hword : totalDots oversizedImport < 2 ^ 64 := by decide
  exact ⟨⟨n, hspread, hexact.mpr (by decide)⟩, hlarge, hword,
    (level_of_apply_importFrom .default .unknown oversizedImport).2.2 hlarge hword⟩

/-- Two levels of which a machine word keeps a single dot. -/
def overflowingImport : List Reduced :=
  [.level 18446744073709551615, .level 2, .node (importedAs "a")]

/-- Dots beyond the machine word are lost: the import is accepted, at the first level. -/
theorem apply_importFrom_overflowing :
    totalDots overflowingImport = 2 ^ 64 + 1 ∧
    ∃ n, apply .default .importFrom ⟨1, 1, 1, 20⟩ overflowingImport = .ok (.node n) ∧
      n.get? "level" = some (.int 1) :=
  ⟨by decide, _, rfl, rfl⟩

end TreeLowering
