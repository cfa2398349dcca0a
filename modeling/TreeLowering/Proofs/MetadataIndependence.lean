/-
# Independence of metadata

The source ranges of a parse tree only reach the ranges of nodes and of failures. The
names of groups only reach the words of a failure, and the classes of tokens decide
nothing but how a number is read. So trees that agree in all else have the same fate.
-/

import TreeLowering.Proofs.Tree.Numbering
import TreeLowering.Proofs.TwoRuns.Relocation
import TreeLowering.Proofs.TwoRuns.Transform

namespace TreeLowering

open TreeLowering.Lowering

/-- A likeness that looks at texts alone: constants are the same, and neither ranges nor the
names of groups matter. -/
def Likeness.textOnly : Likeness :=
  { exact with ranges := False, names := False }

/-- Trees of one shape with the same rules and the same texts of tokens. They may differ
in ranges, in the names of groups and in the classes of tokens, unless the innermost rule
around a token is one of a number. -/
def ParseTree.SameText (t u : ParseTree) : Prop :=
  Likeness.textOnly.Trees False t u

theorem readsLiterals_textOnly (options : Options) (branches : List Branch) :
    Likeness.textOnly.ReadsLiterals (fun _ => False) options options branches where
  shared _ _ _ := trivial
  numbers b _ t u _ text kind := by
    rw [decodeNumber_eq text kind]
    cases decodeNumber options.floatLiterals u with
    | ok value => exact .inr (.ok rfl)
    | error e => exact .inr (.error (.same e))

theorem determines_textOnly : Likeness.textOnly.Determines fun _ => .unknown :=
  ⟨fun _ => rfl, id⟩

/-- Trees with the same texts have like outcomes. -/
theorem outcomes_of_sameText (options : Options) {t u : ParseTree} (h : t.SameText u) :
    Likeness.textOnly.Outcomes Likeness.textOnly.Nodes (transform options t)
      (transform options u) := by
  rcases Likeness.transform_simulates (fun _ _ _ => id) h (readsLiterals_textOnly options _) with
    ⟨_, _, hnever⟩ | hlike
  · exact hnever.elim
  · exact hlike

/-- Where a tree is lowered, a tree with the same texts is, to the same module up to ranges. -/
theorem erased_of_sameText {options : Options} {t u : ParseTree} (h : t.SameText u) {n : Node}
    (hn : transform options t = .ok n) :
    ∃ m, transform options u = .ok m ∧ n.erased = m.erased := by
  have hlike := outcomes_of_sameText options h
  rw [hn] at hlike
  rcases hlike.elim with ⟨_, m, hn', hm, like⟩ | ⟨e, _, he, _⟩
  · cases hn'
    exact ⟨m, hm, Likeness.Nodes.relocate_eq determines_textOnly n like⟩
  · cases he

/-- Trees with the same texts are both lowered, to modules that differ in nothing but
ranges, or neither is. Then both failures are attributed to the same rule, if to any, and
their causes are of one kind. -/
theorem transform_of_sameText (options : Options) {t u : ParseTree} (h : t.SameText u) :
    (∃ n m, transform options t = .ok n ∧ transform options u = .ok m ∧ n.erased = m.erased) ∨
      ∃ e f, transform options t = .error e ∧ transform options u = .error f ∧
        e.rule? = f.rule? ∧ e.rootCause.code = f.rootCause.code := by
  rcases (outcomes_of_sameText options h).elim with ⟨n, m, hn, hm, like⟩ | ⟨e, f, he, hf, like⟩
  · exact .inl ⟨n, m, hn, hm, Likeness.Nodes.relocate_eq determines_textOnly n like⟩
  · exact .inr ⟨e, f, he, hf, like.kind_eq⟩

/-- The access `a.b.c` as a statement, in a group of a given name, with given classes of its
tokens and a given range for its steps. -/
def accessTree (group kind : String) (step : Position) : ParseTree :=
  .rule "file_input" [.rule "expr_stmt" [.rule group [.rule "attr_chain" [
    .rule "var" [.token ⟨kind, "a", .unknown⟩] .unknown,
    .token ⟨kind, "b", step⟩, .token ⟨kind, "c", step⟩] ⟨1, 1, 1, 6⟩] .unknown] .unknown] .unknown

/-- The ranges of the steps are missing in one tree and known in the other. -/
theorem transform_of_sameText_access :
    (accessTree "atom" "NAME" .unknown).SameText (accessTree "primary" "WORD" ⟨1, 3, 1, 4⟩) ∧
      ∃ n m, transform .default (accessTree "atom" "NAME" .unknown) = .ok n ∧
        transform .default (accessTree "primary" "WORD" ⟨1, 3, 1, 4⟩) = .ok m ∧
        n.erased = m.erased := by
  have h : (accessTree "atom" "NAME" .unknown).SameText
      (accessTree "primary" "WORD" ⟨1, 3, 1, 4⟩) := by
    have hroot : Rule.ofName? "file_input" = some .fileInput := by decide +kernel
    have hstmt : Rule.ofName? "expr_stmt" = some .exprStmt := by decide +kernel
    have hchain : Rule.ofName? "attr_chain" = some .attrChain := by decide +kernel
    have hname : Rule.ofName? "var" = some .nameRef := by decide +kernel
    have hatom : Rule.ofName? "atom" = none := by decide +kernel
    have hprimary : Rule.ofName? "primary" = none := by decide +kernel
    have hrule : ∀ {classes : Prop}, Likeness.textOnly.Trees classes
        (.rule "var" [.token ⟨"NAME", "a", .unknown⟩] .unknown)
        (.rule "var" [.token ⟨"WORD", "a", .unknown⟩] .unknown) :=
      .branch hname hname (.cons (.token rfl nofun nofun) .nil) nofun
    exact .branch hroot hroot (.cons (.branch hstmt hstmt (.cons (.group hatom hprimary nofun
      (.cons (.branch hchain hchain (.cons hrule (.cons (.token rfl nofun nofun)
        (.cons (.token rfl nofun nofun) .nil))) nofun) .nil) nofun) .nil) nofun) .nil) nofun
  refine ⟨h, ?_⟩
  rcases transform_of_sameText .default h with hok | ⟨e, f, he, _⟩
  · exact hok
  · have hlowered : (transform .default (accessTree "atom" "NAME" .unknown)).isOk = true := by
      decide +kernel
    rw [he] at hlowered
    cases hlowered

/-! ## Trees with distinct ranges -/

mutual

/-- Numbering the branches of a tree changes none of its texts. -/
theorem trees_numbered : ∀ (k : Nat) (tree : ParseTree) (classes : Prop),
    Likeness.textOnly.Trees classes tree (tree.numbered k)
  | k, .rule name children _, classes => by
      rw [ParseTree.numbered]
      cases hname : Rule.ofName? name with
      | some rule => exact .branch hname hname (trees_numberedAll k children _) nofun
      | none => exact .group hname hname nofun (trees_numberedAll k children classes) nofun
  | _, .token _, _ => .token rfl (fun _ => rfl) nofun
  | _, .absent, _ => .absent

theorem trees_numberedAll : ∀ (k : Nat) (trees : List ParseTree) (classes : Prop),
    Likeness.textOnly.TreeLists classes trees (ParseTree.numberedAll k trees)
  | _, [], _ => .nil
  | k, tree :: rest, classes =>
      .cons (trees_numbered k tree classes) (trees_numberedAll _ rest classes)

end

/-- Every tree has the texts of a tree whose branches are told apart by their ranges. -/
theorem exists_sameText_separate (tree : ParseTree) : ∃ u, tree.SameText u ∧ u.Separate :=
  ⟨tree.numbered 1, trees_numbered 1 tree False, ParseTree.separate_numbered 1 tree⟩

end TreeLowering
