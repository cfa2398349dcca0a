/-
# Exchanging trees

A parse tree is read back from its object as it was. So it is from an object with the members
in another order, with scalars under keys that the format does not know, or without the place
of a token that has none. Only the nesting of the text can prevent it.
-/

import Mathlib.Data.List.Forall2
import TreeLowering.Grammar.Exchange
import TreeLowering.Proofs.Json.Nesting
import TreeLowering.Proofs.Json.RoundTrip

namespace TreeLowering

open TreeLowering.Json

/-! ## Members in any order -/

namespace Json

variable {key : String} {value : Json} {own members : List (String × Json)}

/-- The keys that some object of the format has. -/
def formatKeys : List String :=
  ["type", "rule", "children", "position", "kind", "text", "line", "column", "end_line",
    "end_column"]

/-- A member that the format does not know, with a scalar in it. -/
def IsExtra (member : String × Json) : Prop :=
  member.1 ∉ formatKeys ∧ member.2.nesting = 0

/-- Members in any order, with extra ones among them. -/
def Arranged (own members : List (String × Json)) : Prop :=
  ∃ extras, (∀ member ∈ extras, IsExtra member) ∧ members.Perm (own ++ extras)

theorem Arranged.refl (own : List (String × Json)) : Arranged own own :=
  ⟨[], by simp, by simp⟩

/-- Extra members have no key of the format. -/
theorem valuesOf_extras (hkey : key ∈ formatKeys) {extras : List (String × Json)}
    (h : ∀ member ∈ extras, IsExtra member) : valuesOf key extras = [] := by
  rw [valuesOf, List.filter_eq_nil_iff.2, List.map_nil]
  intro member hmember hsame
  have hextra := (h member hmember).1
  rw [beq_iff_eq.1 hsame] at hextra
  exact hextra hkey

theorem Arranged.valuesOf_perm (h : Arranged own members) (hkey : key ∈ formatKeys) :
    (valuesOf key members).Perm (valuesOf key own) := by
  obtain ⟨extras, hextras, hperm⟩ := h
  have hvalues : (valuesOf key members).Perm (valuesOf key (own ++ extras)) :=
    (hperm.filter _).map _
  have hsplit : valuesOf key (own ++ extras) = valuesOf key own ++ valuesOf key extras := by
    simp [valuesOf]
  rwa [hsplit, valuesOf_extras hkey hextras, List.append_nil] at hvalues

theorem Arranged.valuesOf_single (h : Arranged own members) (hkey : key ∈ formatKeys)
    (hown : valuesOf key own = [value]) : valuesOf key members = [value] :=
  List.perm_singleton.1 (hown ▸ h.valuesOf_perm hkey)

/-- A member of the format is found wherever it stands. -/
theorem Arranged.member? (h : Arranged own members) (hkey : key ∈ formatKeys)
    (hown : valuesOf key own = [value]) : Json.member? key members = some value := by
  rw [Json.member?, h.valuesOf_single hkey hown]

theorem Arranged.optionalMember? (h : Arranged own members) (hkey : key ∈ formatKeys)
    (hown : valuesOf key own = [value]) :
    Json.optionalMember? key members = some (some value) := by
  rw [Json.optionalMember?, h.valuesOf_single hkey hown]

theorem Arranged.optionalMember?_eq_none (h : Arranged own members) (hkey : key ∈ formatKeys)
    (hown : valuesOf key own = []) : Json.optionalMember? key members = some none := by
  have hvalues := h.valuesOf_perm hkey
  rw [hown, List.perm_nil] at hvalues
  rw [Json.optionalMember?, hvalues]

/-- Extra members are scalars, so they add nothing to the nesting. -/
theorem Arranged.nesting_le {n : ℕ} (h : Arranged own members) (hown : nestingOfMembers own ≤ n) :
    nestingOfMembers members ≤ n := by
  obtain ⟨extras, hextras, hperm⟩ := h
  refine nestingOfMembers_le.2 fun member hmember => ?_
  rcases List.mem_append.1 (hperm.mem_iff.1 hmember) with hmember | hmember
  · exact nestingOfMembers_le.1 hown member hmember
  · rw [(hextras member hmember).2]
    exact Nat.zero_le n

/-! ## Numbers -/

theorem unsigned?_of_lt {n : ℕ} (h : n < 2 ^ 64) : (integer n).unsigned? = some n := by
  have hrange : (0 : ℤ) ≤ n ∧ (n : ℤ) < Int.pow 2 64 := by
    rw [show (Int.pow 2 64 : ℤ) = 18446744073709551616 from rfl]
    omega
  rw [unsigned?, if_pos hrange, Int.toNat_natCast]

theorem isExact_natCast {n : ℕ} (h : n < 2 ^ 64) : (integer n).IsExact := by
  refine ⟨?_, ?_⟩
  · rw [show (Int.pow 2 63 : ℤ) = 9223372036854775808 from rfl]
    omega
  · rw [show (Int.pow 2 64 : ℤ) = 18446744073709551616 from rfl]
    omega

end Json

/-! ## Positions -/

namespace Position

variable {p : Position} {value : Json}

/-- The numbers of a position are within 64 bits. -/
def Fits (p : Position) : Prop :=
  p.line < 2 ^ 64 ∧ p.column < 2 ^ 64 ∧ p.endLine < 2 ^ 64 ∧ p.endColumn < 2 ^ 64

/-- The members of the object of a position. -/
def members (p : Position) : List (String × Json) :=
  [("line", .integer p.line), ("column", .integer p.column), ("end_line", .integer p.endLine),
    ("end_column", .integer p.endColumn)]

/-- An object that stands for a position. -/
inductive Spells (p : Position) : Json → Prop
  | object {members : List (String × Json)} (arranged : Arranged p.members members) :
      Spells p (.object members)

theorem ofJson?_object {members : List (String × Json)} {line column endLine endColumn : Json}
    (hline : member? "line" members = some line) (hlineNumber : line.unsigned? = some p.line)
    (hcolumn : member? "column" members = some column)
    (hcolumnNumber : column.unsigned? = some p.column)
    (hendLine : member? "end_line" members = some endLine)
    (hendLineNumber : endLine.unsigned? = some p.endLine)
    (hendColumn : member? "end_column" members = some endColumn)
    (hendColumnNumber : endColumn.unsigned? = some p.endColumn) :
    ofJson? (.object members) = some p := by
  simp [ofJson?, hline, hlineNumber, hcolumn, hcolumnNumber, hendLine, hendLineNumber, hendColumn,
    hendColumnNumber]

theorem ofJson?_of_spells (hfits : p.Fits) (h : p.Spells value) : ofJson? value = some p := by
  obtain ⟨harranged⟩ := h
  obtain ⟨hline, hcolumn, hendLine, hendColumn⟩ := hfits
  exact ofJson?_object (harranged.member? (by decide) rfl) (unsigned?_of_lt hline)
    (harranged.member? (by decide) rfl) (unsigned?_of_lt hcolumn)
    (harranged.member? (by decide) rfl) (unsigned?_of_lt hendLine)
    (harranged.member? (by decide) rfl) (unsigned?_of_lt hendColumn)

theorem isExact_toJson (h : p.Fits) : p.toJson.IsExact := by
  obtain ⟨hline, hcolumn, hendLine, hendColumn⟩ := h
  exact ⟨isExact_natCast hline, isExact_natCast hcolumn, isExact_natCast hendLine,
    isExact_natCast hendColumn, trivial⟩

theorem nesting_toJson (p : Position) : p.toJson.nesting = 1 := by
  simp [toJson, nesting, nestingOfMembers]

theorem nesting_of_spells (h : p.Spells value) : value.nesting ≤ 1 := by
  obtain ⟨harranged⟩ := h
  rw [nesting]
  have hmembers := harranged.nesting_le (n := 0) (by simp [members, nestingOfMembers, nesting])
  omega

end Position

/-! ## Trees -/

namespace ParseTree

mutual

/-- The numbers of all positions in a tree are within 64 bits. -/
def Fits : ParseTree → Prop
  | .rule _ children position => FitAll children ∧ position.Fits
  | .token t => t.position.Fits
  | .absent => True

/-- The numbers of all positions in several trees are within 64 bits. -/
def FitAll : List ParseTree → Prop
  | [] => True
  | tree :: rest => Fits tree ∧ FitAll rest

end

/-- An object that stands for a tree. The place of a token that has none may be left out. -/
inductive Spells : ParseTree → Json → Prop
  | rule {name : String} {children : List ParseTree} {position : Position} {items : List Json}
      {place : Json} {members : List (String × Json)}
      (below : List.Forall₂ Spells children items) (range : position.Spells place)
      (arranged : Arranged [("type", .string "rule"), ("rule", .string name),
        ("children", .array items), ("position", place)] members) :
      Spells (.rule name children position) (.object members)
  | token {t : Token} {place : Json} {members : List (String × Json)}
      (range : t.position.Spells place)
      (arranged : Arranged [("type", .string "token"), ("kind", .string t.kind),
        ("text", .string t.text), ("position", place)] members) :
      Spells (.token t) (.object members)
  | bareToken {kind text : String} {members : List (String × Json)}
      (arranged : Arranged [("type", .string "token"), ("kind", .string kind),
        ("text", .string text)] members) :
      Spells (.token ⟨kind, text, .unknown⟩) (.object members)
  | absent {members : List (String × Json)}
      (arranged : Arranged [("type", .string "absent")] members) :
      Spells .absent (.object members)

theorem childrenOfMembers?_eq {items : List Json} {members : List (String × Json)}
    (h : valuesOf "children" members = [.array items]) :
    childrenOfMembers? members = ofJsonList? items := by
  induction members with
  | nil => cases h
  | cons member rest ih =>
      obtain ⟨key, value⟩ := member
      by_cases hkey : key = "children"
      · subst hkey
        obtain ⟨rfl, -⟩ : value = .array items ∧ _ := by simpa [valuesOf] using h
        rfl
      · rw [childrenOfMembers?.eq_def]
        dsimp only
        rw [if_neg hkey]
        exact ih (by simpa [valuesOf, hkey] using h)

/-- The tag of an object decides on the form. -/
theorem form_of_arranged {own members : List (String × Json)} {tag : Json} (atRoot : Bool)
    (form : Form) (h : Arranged own members) (hown : valuesOf "type" own = [tag])
    (htag : Form.ofTag? atRoot tag = some form) :
    (Json.member? "type" members).bind (Form.ofTag? atRoot) = some form := by
  rw [h.member? (by decide) hown]
  exact htag

theorem ofJson?_token {t : Token} {value : Json} (atRoot : Bool) (hfits : t.position.Fits)
    (h : (token t).Spells value) : ofJson? atRoot value = some (.token t) := by
  cases h with
  | @token _ place members range arranged =>
      have hform := form_of_arranged atRoot .token arranged rfl rfl
      have hkind : Json.member? "kind" members = some (.string t.kind) :=
        arranged.member? (by decide) rfl
      have htext : Json.member? "text" members = some (.string t.text) :=
        arranged.member? (by decide) rfl
      have hplace : Json.optionalMember? "position" members = some (some place) :=
        arranged.optionalMember? (by decide) rfl
      have hposition := Position.ofJson?_of_spells hfits range
      simp [ofJson?, hform, tokenOfMembers?, token?, hkind, htext, hplace, hposition, string?]
  | @bareToken kind text members arranged =>
      have hform := form_of_arranged atRoot .token arranged rfl rfl
      have hkind : Json.member? "kind" members = some (.string kind) :=
        arranged.member? (by decide) rfl
      have htext : Json.member? "text" members = some (.string text) :=
        arranged.member? (by decide) rfl
      have hplace : Json.optionalMember? "position" members = some none :=
        arranged.optionalMember?_eq_none (by decide) rfl
      simp [ofJson?, hform, tokenOfMembers?, token?, hkind, htext, hplace, string?]

mutual

/-- A tree is read back from every object that stands for it. -/
theorem ofJson?_of_spells : ∀ (tree : ParseTree) (value : Json) (atRoot : Bool), tree.Fits →
    tree.Spells value → ofJson? atRoot value = some tree
  | .rule name children position => by
      intro value atRoot hfits h
      obtain ⟨hfitAll, hfitsPosition⟩ := hfits
      cases h with
      | @rule _ _ _ items place members below range arranged =>
          have hform := form_of_arranged atRoot .rule arranged rfl rfl
          have hname : Json.member? "rule" members = some (.string name) :=
            arranged.member? (by decide) rfl
          have hplace : Json.member? "position" members = some place :=
            arranged.member? (by decide) rfl
          have hpresent : Json.member? "children" members = some (.array items) :=
            arranged.member? (by decide) rfl
          have hposition := Position.ofJson?_of_spells hfitsPosition range
          have hchildren := childrenOfMembers?_eq (arranged.valuesOf_single (by decide) rfl)
          rw [ofJsonList?_of_spells children items hfitAll below] at hchildren
          simp [ofJson?, hform, hname, hplace, hpresent, hchildren, hposition, string?]
  | .token _ => fun _ atRoot hfits h => ofJson?_token atRoot hfits h
  | .absent => by
      intro value atRoot _ h
      cases h with
      | absent arranged =>
          have hform := form_of_arranged atRoot .absent arranged rfl rfl
          simp [ofJson?, hform]

theorem ofJsonList?_of_spells : ∀ (trees : List ParseTree) (values : List Json), FitAll trees →
    List.Forall₂ Spells trees values → ofJsonList? values = some trees
  | [] => by
      intro values _ h
      cases h
      rfl
  | tree :: rest => by
      intro values hfits h
      cases h with
      | cons first others =>
          rw [ofJsonList?, ofJson?_of_spells tree _ false hfits.1 first,
            ofJsonList?_of_spells rest _ hfits.2 others]
          rfl

end

mutual

/-- The object of a tree stands for it. -/
theorem spells_toJson : ∀ tree : ParseTree, tree.Spells tree.toJson
  | .rule _ children position =>
      .rule (spells_toJsonList children) (.object (.refl position.members)) (.refl _)
  | .token t => .token (.object (.refl t.position.members)) (.refl _)
  | .absent => .absent (.refl _)

theorem spells_toJsonList : ∀ trees : List ParseTree,
    List.Forall₂ Spells trees (toJsonList trees)
  | [] => .nil
  | tree :: rest => .cons (spells_toJson tree) (spells_toJsonList rest)

end

/-! ## Nesting -/

mutual

/-- What stands for a tree is nested no deeper than the object of the tree. -/
theorem nesting_le_of_spells : ∀ (tree : ParseTree) (value : Json), tree.Spells value →
    value.nesting ≤ tree.toJson.nesting
  | .rule name children position => by
      intro value h
      cases h with
      | @rule _ _ _ items place members below range arranged =>
          have hitems := nestingOfItems_le_of_spells children items below
          have hplace := Position.nesting_of_spells range
          have hposition := position.nesting_toJson
          refine Nat.add_le_add_right (arranged.nesting_le ?_) 1
          simp only [nestingOfMembers, nesting]
          omega
  | .token t => by
      intro value h
      cases h with
      | token range arranged =>
          have hplace := Position.nesting_of_spells range
          have hposition := t.position.nesting_toJson
          refine Nat.add_le_add_right (arranged.nesting_le ?_) 1
          simp only [nestingOfMembers, nesting]
          omega
      | bareToken arranged =>
          refine Nat.add_le_add_right (arranged.nesting_le ?_) 1
          simp only [nestingOfMembers, nesting]
          omega
  | .absent => by
      intro value h
      cases h with
      | absent arranged => exact Nat.add_le_add_right (arranged.nesting_le (Nat.le_refl _)) 1

theorem nestingOfItems_le_of_spells : ∀ (trees : List ParseTree) (values : List Json),
    List.Forall₂ Spells trees values → nestingOfItems values ≤ nestingOfItems (toJsonList trees)
  | [] => by
      intro values h
      cases h
      exact le_rfl
  | tree :: rest => by
      intro values h
      cases h with
      | cons first others =>
          exact max_le_max (nesting_le_of_spells tree _ first)
            (nestingOfItems_le_of_spells rest _ others)

end

/-! ## Texts -/

mutual

/-- The object of a tree has no fractions, and its integers are within 64 bits. -/
theorem isExact_toJson : ∀ tree : ParseTree, tree.Fits → tree.toJson.IsExact
  | .rule _ children _ => fun hfits =>
      ⟨trivial, trivial, areExact_toJsonList children hfits.1,
        Position.isExact_toJson hfits.2, trivial⟩
  | .token _ => fun hfits => ⟨trivial, trivial, trivial, Position.isExact_toJson hfits, trivial⟩
  | .absent => fun _ => ⟨trivial, trivial⟩

theorem areExact_toJsonList : ∀ trees : List ParseTree, FitAll trees →
    AreExact (toJsonList trees)
  | [] => fun _ => trivial
  | tree :: rest => fun hfits =>
      ⟨isExact_toJson tree hfits.1, areExact_toJsonList rest hfits.2⟩

end

variable {tree : ParseTree} {value : Json} {text : String}

/-- A text that stands for a tree denotes the tree if the limit on nesting allows the text, and
otherwise no tree. -/
theorem parse?_of_spells (hfits : tree.Fits) (h : tree.Spells value)
    (htext : Json.parse? none text = some value) :
    parse? text = if value.nesting ≤ nestingLimit then some tree else none := by
  rw [parse?, parse?_limit, htext]
  by_cases hnesting : value.nesting ≤ nestingLimit
  · simp [Option.filter, hnesting, ofJson?_of_spells tree value true hfits h]
  · simp [Option.filter, hnesting]

/-- A tree with positions within 64 bits is read back from its object, on one line or on
indented ones, unless the object is nested too deep, and then nothing is read. So it is from
every text of an object with the same members in another order, scalars under other keys or
without the place of a token that has none, which is nested no deeper; and such objects are
denoted by their own texts. -/
theorem parse?_toJson (tree : ParseTree) (hfits : tree.Fits) :
    (∀ text ∈ [tree.toJson.compact, tree.toJson.pretty],
        parse? text = if tree.toJson.nesting ≤ nestingLimit then some tree else none) ∧
      ∀ value, tree.Spells value → value.nesting ≤ tree.toJson.nesting ∧
        (∀ text, Json.parse? none text = some value →
          parse? text = if value.nesting ≤ nestingLimit then some tree else none) ∧
        (value.IsExact → ∀ text ∈ [value.compact, value.pretty],
          Json.parse? none text = some value) := by
  have hdenotes : ∀ value : Json, value.IsExact → ∀ text ∈ [value.compact, value.pretty],
      Json.parse? none text = some value := by
    intro value hexact
    simp [parse?_compact hexact, parse?_pretty hexact]
  refine ⟨fun text htext => ?_, fun value h => ⟨nesting_le_of_spells tree value h, ?_, ?_⟩⟩
  · exact parse?_of_spells hfits (spells_toJson tree)
      (hdenotes _ (isExact_toJson tree hfits) text htext)
  · exact fun text htext => parse?_of_spells hfits h htext
  · exact hdenotes value

/-- A branch over a token without a place and a placeholder. -/
def quoteTree : ParseTree :=
  .rule "var" [.token ⟨"NAME", "\"\\\n", .unknown⟩, .absent] ⟨1, 1, 1, 2⟩

/-- The members of its objects from the last to the first, with one more in two of them. -/
def quoteObject : Json :=
  .object [("note", .null),
    ("position", .object [("end_column", .integer 2), ("end_line", .integer 1),
      ("column", .integer 1), ("line", .integer 1)]),
    ("children", .array [
      .object [("size", .integer (-3)), ("text", .string "\"\\\n"), ("kind", .string "NAME"),
        ("type", .string "token")],
      .object [("type", .string "absent")]]),
    ("rule", .string "var"), ("type", .string "rule")]

theorem quoteTree_spells : quoteTree.Spells quoteObject := by
  have hsize : Arranged [("type", .string "token"), ("kind", .string "NAME"),
      ("text", .string "\"\\\n")] [("size", .integer (-3)), ("text", .string "\"\\\n"),
        ("kind", .string "NAME"), ("type", .string "token")] :=
    ⟨[("size", .integer (-3))], by simp [IsExtra, formatKeys, nesting],
      List.reverse_perm [_, _, _, _]⟩
  have hplace : Arranged (Position.members ⟨1, 1, 1, 2⟩) [("end_column", .integer 2),
      ("end_line", .integer 1), ("column", .integer 1), ("line", .integer 1)] :=
    ⟨[], by simp, List.reverse_perm (Position.members ⟨1, 1, 1, 2⟩)⟩
  refine .rule (.cons (.bareToken hsize) (.cons (.absent (.refl _)) .nil)) (.object hplace)
    ⟨[("note", .null)], by simp [IsExtra, formatKeys, nesting], ?_⟩
  exact List.reverse_perm [_, _, _, _, _]

/-- The tree is read back from that text. -/
theorem parse?_toJson_quote :
    quoteObject.compact =
        "\x7b\"note\":null,\"position\":\x7b\"end_column\":2,\"end_line\":1,\"column\":1," ++
          "\"line\":1\x7d,\"children\":[\x7b\"size\":-3,\"text\":\"\\\"\\\\\\n\"," ++
          "\"kind\":\"NAME\",\"type\":\"token\"\x7d,\x7b\"type\":\"absent\"\x7d]," ++
          "\"rule\":\"var\",\"type\":\"rule\"\x7d" ∧
      parse? quoteObject.compact = some quoteTree := by
  have hfits : quoteTree.Fits := by
    simp [quoteTree, Fits, FitAll, Position.Fits, Position.unknown]
  have hexact : quoteObject.IsExact := by
    simp [quoteObject, IsExact, AreExact, HaveExact, Int.pow]
  obtain ⟨-, hread, hdenotes⟩ := (parse?_toJson quoteTree hfits).2 _ quoteTree_spells
  exact ⟨by decide +kernel, hread _ (hdenotes hexact _ (by simp))⟩

end ParseTree

end TreeLowering
