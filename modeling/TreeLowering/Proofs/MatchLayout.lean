/-
# Layout of matched spans

Line and column grow with the offset, whatever ends the lines of the source. So the trees of
matches that are nested and in order have ranges that are nested and in order, and the tokens
in them have the texts of the matches with nothing inside.
-/

import Mathlib.Data.List.Forall2
import TreeLowering.Grammar.Match
import TreeLowering.Proofs.Tree.Range

namespace TreeLowering

open TreeLowering.Match TreeLowering.ParseTree

variable {source : List Char} {i j lo hi start stop : ℕ} {rule : String}
  {inner ms : List Match} {children : List ParseTree}

/-! ## Lines and columns -/

theorem advance_single (line column : ℕ) (c : Char) :
    advance line column [c] = if c = '\n' then (line + 1, 1) else (line, column + 1) := by
  by_cases hfeed : c = '\n' <;> simp [hfeed, advance]

/-- A character that ends no line, not even together with the next one, moves the place by a
column. -/
theorem advance_cons (line column : ℕ) {c : Char} {rest : List Char} (hfeed : c ≠ '\n')
    (hreturn : c = '\r' → rest.head? ≠ some '\n') :
    advance line column (c :: rest) = advance line (column + 1) rest := by
  rw [advance]
  · rintro tail rfl rfl
    exact hreturn rfl rfl
  · exact hfeed

/-- One more character brings a text further: to the next line or the next column. -/
theorem advance_lt_advance_concat (line column : ℕ) (text : List Char) (c : Char) :
    toLex (advance line column text) < toLex (advance line column (text ++ [c])) := by
  fun_induction advance line column text with
  | case1 line column =>
      rw [List.nil_append, advance_single]
      split <;> simp [Prod.Lex.toLex_lt_toLex]
  | case2 line column rest ih => exact ih
  | case3 line column rest ih => exact ih
  | case4 line column other rest hreturn hfeed ih =>
      cases rest with
      | nil =>
          -- Only here the next character can turn a carriage return into the end of a line.
          by_cases hend : other = '\r' ∧ c = '\n'
          · obtain ⟨rfl, rfl⟩ := hend
            simp [advance, Prod.Lex.toLex_lt_toLex]
          · rw [List.cons_append, advance_cons line column hfeed (by simpa using hend)]
            exact ih
      | cons next rest =>
          have hnext : other = '\r' → (next :: rest ++ [c]).head? ≠ some '\n' := by
            rintro hother hhead
            exact hreturn rest hother (by simpa using hhead)
          rw [List.cons_append, advance_cons line column hfeed hnext]
          exact ih

theorem lineColumn_lt_succ (hi : i < source.length) :
    toLex (lineColumn source i) < toLex (lineColumn source (i + 1)) := by
  rw [lineColumn, lineColumn, List.take_succ_eq_append_getElem hi]
  exact advance_lt_advance_concat 1 1 _ _

/-- A larger offset has a later line, or a later column in the same line. -/
theorem lineColumn_lt (h : i < j) (hj : j ≤ source.length) :
    toLex (lineColumn source i) < toLex (lineColumn source j) := by
  induction j, h using Nat.le_induction with
  | base => exact lineColumn_lt_succ hj
  | succ j hij ih => exact (ih (by omega)).trans (lineColumn_lt_succ hj)

theorem lineColumn_le (h : i ≤ j) (hj : j ≤ source.length) :
    toLex (lineColumn source i) ≤ toLex (lineColumn source j) := by
  rcases h.eq_or_lt with rfl | hlt
  · exact le_rfl
  · exact (lineColumn_lt hlt hj).le

/-- Lines count from one. -/
theorem lineColumn_pos (source : List Char) (offset : ℕ) : 1 ≤ (lineColumn source offset).1 := by
  have hkept : ∀ (line column : ℕ) (text : List Char), line ≤ (advance line column text).1 := by
    intro line column text
    fun_induction advance line column text <;> omega
  exact hkept 1 1 _

theorem spanPosition_ne_unknown (source : List Char) (start stop : ℕ) :
    spanPosition source start stop ≠ .unknown := by
  intro hunknown
  have hline : (lineColumn source start).1 = 0 := congrArg Position.line hunknown
  have hpos := lineColumn_pos source start
  omega

theorem spanPosition_proper (h : start ≤ stop) (hstop : stop ≤ source.length) :
    (spanPosition source start stop).Proper :=
  ⟨spanPosition_ne_unknown source start stop, lineColumn_le h hstop⟩

/-! ## Matches -/

namespace Match

/-- Matches that lie between two offsets, each behind the one before it, with those inside a
match laid out in the same way between its ends. -/
inductive Laid : ℕ → ℕ → List Match → Prop
  | nil {lo hi : ℕ} (forward : lo ≤ hi) : Laid lo hi []
  | cons {lo start stop hi : ℕ} {inner rest : List Match} (rule : String) (before : lo ≤ start)
      (within : Laid start stop inner) (behind : Laid stop hi rest) :
      Laid lo hi (.mk rule start stop inner :: rest)

theorem Laid.forward (h : Laid lo hi ms) : lo ≤ hi := by
  induction h with
  | nil forward => exact forward
  | cons _ before _ _ ihwithin ihbehind => exact before.trans (ihwithin.trans ihbehind)

/-- The range that a match reports. A placeholder has none. -/
def range? (source : List Char) : Match → Option Position
  | .mk rule start stop _ =>
    if rule = absentRule then none else some (spanPosition source start stop)

mutual

/-- The spans in a match that become tokens: those of the matches with nothing inside, apart
from empty ones of rules that are no token. -/
def leaves (source : List Char) : Match → List (ℕ × ℕ)
  | .mk rule start stop inner =>
    if rule = absentRule then []
    else match inner with
      | [] =>
        if Text.isCapitalized rule = false ∧ spanText source start stop = "" then []
        else [(start, stop)]
      | _ :: _ => leavesOf source inner

/-- The spans in matches that become tokens, from left to right. -/
def leavesOf (source : List Char) : List Match → List (ℕ × ℕ)
  | [] => []
  | m :: rest => leaves source m ++ leavesOf source rest

end

end Match

namespace ParseTree

mutual

/-- The tokens of a tree. -/
def tokens : ParseTree → List Token
  | .rule _ children _ => tokensOf children
  | .token t => [t]
  | .absent => []

/-- The tokens of trees, from left to right. -/
def tokensOf : List ParseTree → List Token
  | [] => []
  | tree :: rest => tokens tree ++ tokensOf rest

end

/-- Trees whose ranges lie between two offsets of the source and follow one another without
overlap, each laid out within. -/
structure Spread (source : List Char) (lo hi : ℕ) (trees : List ParseTree) : Prop where
  between : ∀ tree ∈ trees, ∀ range ∈ tree.range?,
    toLex (lineColumn source lo) ≤ range.start ∧ range.stop ≤ toLex (lineColumn source hi)
  ordered : trees.Pairwise fun tree later =>
    ∀ range ∈ tree.range?, ∀ other ∈ later.range?, range.stop ≤ other.start
  proper : ∀ tree ∈ trees, ∀ t ∈ tree.leaf?, t.position.Proper
  laidOut : ∀ tree ∈ trees, tree.LaidOut

theorem laidOut_of_branches_eq_nil {tree : ParseTree} (h : tree.branches = []) :
    tree.LaidOut where
  nested := by simp [Nested, h]
  tokens := by simp [h]
  ordered := by simp [h]

/-- A branch is laid out if its children are, between the ends of its range. -/
theorem laidOut_rule (rule : String) (h : Spread source start stop children) :
    (ParseTree.rule rule children (spanPosition source start stop)).LaidOut where
  nested b hb child hchild range hrange := by
    obtain ⟨tree, htree, hb⟩ | rfl := mem_branches_rule.1 hb
    · exact (h.laidOut tree htree).nested b hb child hchild range hrange
    · exact h.between child hchild range hrange
  tokens b hb := by
    obtain ⟨tree, htree, hb⟩ | rfl := mem_branches_rule.1 hb
    · exact (h.laidOut tree htree).tokens b hb
    · exact h.proper
  ordered b hb := by
    obtain ⟨tree, htree, hb⟩ | rfl := mem_branches_rule.1 hb
    · exact (h.laidOut tree htree).ordered b hb
    · exact h.ordered

namespace Spread

theorem nil (source : List Char) (lo hi : ℕ) : Spread source lo hi [] where
  between := by simp
  ordered := .nil
  proper := by simp
  laidOut := by simp

/-- A tree that covers a span is spread over it. -/
theorem single {tree : ParseTree} (h : start ≤ stop) (hstop : stop ≤ source.length)
    (hrange : ∀ range ∈ tree.range?, range = spanPosition source start stop)
    (hleaf : ∀ t ∈ tree.leaf?, t.position = spanPosition source start stop)
    (hlaid : tree.LaidOut) : Spread source start stop [tree] where
  between := by
    simp only [List.forall_mem_singleton]
    intro range hmem
    obtain rfl := hrange range hmem
    exact ⟨le_rfl, le_rfl⟩
  ordered := List.pairwise_singleton _ _
  proper := by
    simp only [List.forall_mem_singleton]
    intro t hmem
    rw [hleaf t hmem]
    exact spanPosition_proper h hstop
  laidOut := by simpa using hlaid

variable {mid : ℕ} {first rest : List ParseTree}

/-- Trees spread over neighbouring parts of the source are spread over both. -/
theorem append (hfirst : Spread source lo mid first) (hrest : Spread source mid hi rest)
    (hlo : lo ≤ mid) (hmid : mid ≤ hi) (hhi : hi ≤ source.length) :
    Spread source lo hi (first ++ rest) where
  between tree htree range hrange := by
    rcases List.mem_append.1 htree with htree | htree
    · obtain ⟨hstart, hstop⟩ := hfirst.between tree htree range hrange
      exact ⟨hstart, hstop.trans (lineColumn_le hmid hhi)⟩
    · obtain ⟨hstart, hstop⟩ := hrest.between tree htree range hrange
      exact ⟨(lineColumn_le hlo (by omega)).trans hstart, hstop⟩
  ordered := List.pairwise_append.2 ⟨hfirst.ordered, hrest.ordered,
    fun tree htree later hlater range hrange other hother =>
      (hfirst.between tree htree range hrange).2.trans (hrest.between later hlater other hother).1⟩
  proper tree htree := (List.mem_append.1 htree).elim (hfirst.proper tree) (hrest.proper tree)
  laidOut tree htree := (List.mem_append.1 htree).elim (hfirst.laidOut tree) (hrest.laidOut tree)

/-- What lies between two offsets lies between offsets farther apart. -/
theorem widen (h : Spread source start stop first) (hlo : lo ≤ start) (hforward : start ≤ stop)
    (hhi : stop ≤ source.length) : Spread source lo stop first :=
  (nil source lo start).append h hlo hforward hhi

end Spread

end ParseTree

/-! ## Trees of matches -/

/-- The tree of a match has the range of the match, whatever it becomes. -/
theorem range?_toTree (source : List Char) (m : Match) :
    (toTree source m).range? = m.range? source := by
  obtain ⟨rule, start, stop, inner⟩ := m
  have hknown := spanPosition_ne_unknown source start stop
  rw [toTree, Match.range?]
  split
  · rfl
  · cases inner with
    | nil => dsimp only; split <;> [simp [ParseTree.range?, hknown]; split <;> rfl]
    | cons m rest => rfl

theorem spread_token (kind text : String) (hforward : start ≤ stop)
    (hstop : stop ≤ source.length) :
    Spread source start stop [.token ⟨kind, text, spanPosition source start stop⟩] := by
  refine .single hforward hstop ?_ ?_ (laidOut_of_branches_eq_nil rfl)
  · simp [ParseTree.range?, spanPosition_ne_unknown]
  · simp [leaf?]

theorem spread_rule (rule : String) (hforward : start ≤ stop) (hstop : stop ≤ source.length)
    (h : Spread source start stop children) :
    Spread source start stop [.rule rule children (spanPosition source start stop)] := by
  refine .single hforward hstop ?_ ?_ (laidOut_rule rule h)
  · simp [ParseTree.range?]
  · simp [leaf?]

theorem spread_toTree (rule : String) (hforward : start ≤ stop) (hstop : stop ≤ source.length)
    (hinner : Spread source start stop (toTrees source inner)) :
    Spread source start stop [toTree source (.mk rule start stop inner)] := by
  rw [toTree]
  split
  · refine .single hforward hstop ?_ ?_ (laidOut_of_branches_eq_nil rfl)
    · simp [ParseTree.range?]
    · simp [leaf?]
  · cases inner with
    | nil =>
        have htoken := fun kind => spread_token kind (spanText source start stop) hforward hstop
        dsimp only
        split
        · exact htoken rule
        · split
          · exact spread_rule rule hforward hstop (.nil source start stop)
          · exact spread_rule rule hforward hstop (htoken _)
    | cons m rest => exact spread_rule rule hforward hstop hinner

/-- The trees of matches lie where the matches lie. -/
theorem Match.Laid.spread_toTrees (h : Laid lo hi ms) (hhi : hi ≤ source.length) :
    Spread source lo hi (toTrees source ms) := by
  induction h with
  | nil forward => exact .nil source _ _
  | @cons lo start stop hi inner rest rule before within behind ihwithin ihbehind =>
      have hstop : stop ≤ source.length := behind.forward.trans hhi
      have hfirst := (spread_toTree rule within.forward hstop (ihwithin hstop)).widen before
        within.forward hstop
      exact hfirst.append (ihbehind hhi) (before.trans within.forward) behind.forward hhi

/-- What a token says: its text and where it stands. -/
def Token.content (t : Token) : String × Position :=
  (t.text, t.position)

/-- The text of a span of the source and where it stands. -/
def spanContent (source : List Char) (span : ℕ × ℕ) : String × Position :=
  (spanText source span.1 span.2, spanPosition source span.1 span.2)

mutual

theorem tokens_toTree (source : List Char) :
    ∀ m : Match, (toTree source m).tokens.map Token.content =
      (m.leaves source).map (spanContent source)
  | .mk name start stop [] => by
      rw [toTree, leaves]
      split
      · rfl
      · by_cases hcapital : Text.isCapitalized name
        · simp [hcapital, tokens, Token.content, spanContent]
        · by_cases hempty : spanText source start stop = ""
          · simp [hcapital, hempty, tokens, tokensOf]
          · simp [hcapital, hempty, tokens, tokensOf, Token.content, spanContent]
  | .mk name start stop (m :: rest) => by
      rw [toTree, leaves]
      split
      · rfl
      · exact tokensOf_toTrees source (m :: rest)

/-- The tokens of the trees are the texts that were matched with nothing inside, in order. -/
theorem tokensOf_toTrees (source : List Char) :
    ∀ ms : List Match, (tokensOf (toTrees source ms)).map Token.content =
      (leavesOf source ms).map (spanContent source)
  | [] => rfl
  | m :: rest => by
      rw [toTrees, tokensOf, leavesOf, List.map_append, List.map_append, tokens_toTree source m,
        tokensOf_toTrees source rest]

end

theorem forall₂_range?_toTrees (source : List Char) (ms : List Match) :
    List.Forall₂ (fun m tree => tree.range? = m.range? source) ms (toTrees source ms) := by
  induction ms with
  | nil => exact .nil
  | cons m rest ih => exact .cons (range?_toTree source m) ih

/-- Matches that are nested and in order have one tree each, which covers the span of its
match. The trees follow one another without overlap, and so do the children of each branch in
them, within the range of the branch. The tokens are the texts matched with nothing inside.
Of two offsets the larger one has the later place, whatever ends the lines. -/
theorem toTrees_layout (hlaid : Laid 0 source.length ms) :
    List.Forall₂ (fun m tree => tree.range? = m.range? source) ms (toTrees source ms) ∧
      (∀ tree ∈ toTrees source ms, tree.LaidOut) ∧
      ((toTrees source ms).Pairwise fun tree later =>
        ∀ range ∈ tree.range?, ∀ other ∈ later.range?, range.stop ≤ other.start) ∧
      (tokensOf (toTrees source ms)).map Token.content =
        (leavesOf source ms).map (spanContent source) ∧
      ∀ i j, i < j → j ≤ source.length →
        toLex (lineColumn source i) < toLex (lineColumn source j) := by
  have hspread := hlaid.spread_toTrees le_rfl
  exact ⟨forall₂_range?_toTrees source ms, hspread.laidOut, hspread.ordered,
    tokensOf_toTrees source ms, fun _ _ => lineColumn_lt⟩

/-- Matches over a source in which all three kinds of line ends occur. -/
theorem toTrees_layout_mixed :
    let ms := [Match.mk "expr" 0 4 [.mk "NAME" 0 1 [], .mk "absent" 1 1 [], .mk "op" 3 4 []],
      Match.mk "NAME" 6 7 []]
    Laid 0 "a\r\n+\r\rb".toList.length ms ∧
      toTrees "a\r\n+\r\rb".toList ms = [
        .rule "expr" [.token ⟨"NAME", "a", ⟨1, 1, 1, 2⟩⟩, .absent,
          .rule "op" [.token ⟨"OP", "+", ⟨2, 1, 2, 2⟩⟩] ⟨2, 1, 2, 2⟩] ⟨1, 1, 2, 2⟩,
        .token ⟨"NAME", "b", ⟨2, 4, 2, 5⟩⟩] ∧
      ∀ tree ∈ toTrees "a\r\n+\r\rb".toList ms, tree.LaidOut := by
  intro ms
  have hlaid : Laid 0 "a\r\n+\r\rb".toList.length ms :=
    .cons "expr" (by decide)
      (.cons "NAME" (by decide) (.nil (by decide))
        (.cons "absent" (by decide) (.nil (by decide))
          (.cons "op" (by decide) (.nil (by decide)) (.nil (by decide)))))
      (.cons "NAME" (by decide) (.nil (by decide)) (.nil (by decide)))
  exact ⟨hlaid, rfl, (toTrees_layout hlaid).2.1⟩

end TreeLowering
