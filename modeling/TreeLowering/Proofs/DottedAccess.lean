/-
# Dotted accesses

A dotted access is built in three ways: as one chain of attributes, by accesses inside each
other, and as the dotted path of a decorator. Up to ranges all three give the same node. The
third joins the names to one text and cuts it at its dots again, so it needs names that are
not empty and have no dot of their own; dots among the parts of a path do not matter.
-/

import TreeLowering.Proofs.Reduction.Places
import TreeLowering.Proofs.Reduction.Transform
import TreeLowering.Proofs.TwoRuns.Relocation

namespace TreeLowering

open TreeLowering.Lowering TreeLowering.Reduced

/-! ## The node that is built -/

/-- A name that is read. -/
def nameNode (id : String) (position : Position) : Node :=
  .mk .name [("id", .text id), ("ctx", .usage .read)] position

/-- An access that is read. -/
def accessNode (value : Node) (attr : String) (position : Position) : Node :=
  .mk .attribute (accessFields value attr .read) position

/-- Accesses without ranges to one name after the other. -/
def accessPath (base : Node) (names : List String) : Node :=
  names.foldl (fun value attr => accessNode value attr .unknown) base

variable {base chain : Node} {item : Reduced} {items : List Reduced} {name : String}
  {names : List String}

@[simp]
theorem erased_nameNode (id : String) (position : Position) :
    (nameNode id position).erased = nameNode id .unknown := rfl

/-! ## Parts that give a name -/

/-- A part gives a name if it is a token with its text, or the name as an expression. -/
inductive Reduced.GivesName : Reduced → String → Prop where
  | token (t : Token) : GivesName (.token t) t.text
  | name (id : String) (position : Position) : GivesName (.node (nameNode id position)) id

/-- Whether a part is a token with a dot for its text. -/
def Reduced.isDot : Reduced → Bool
  | .token t => t.text == "."
  | _ => false

namespace Reduced.GivesName

variable (h : item.GivesName name)

include h

/-- What gives a name as a part gives it as a variable. -/
theorem apply_nameRef (options : Options) (position : Position) :
    apply options .nameRef position [item] = .ok (.node (nameNode name position)) := by
  cases h <;> rfl

theorem identifier (what : String) : Reduced.identifier what (some item) = .ok name := by
  cases h <;> rfl

theorem chainStep : ∃ position, chainStep item = .ok (name, position) := by
  cases h with
  | token t => exact ⟨t.position, rfl⟩
  | name id position => exact ⟨position, rfl⟩

end Reduced.GivesName

/-! ## One chain -/

theorem attributeOf_eq (position : Position) (value : Node) (attr : String) :
    attributeOf position value attr = .ok (accessNode value attr position) :=
  Node.build_of_slots rfl position

/-- The links of a chain access the names of its steps, and the last one has the range of the
reduction. -/
theorem exists_attributeLinks (r : Reduction) (start : Position)
    (h : List.Forall₂ GivesName items names) (chain : Node) :
    ∃ whole, attributeLinks r start chain items = .ok whole ∧
      whole.erased = accessPath chain.erased names ∧
      (items ≠ [] → whole.position = r.position) := by
  induction h generalizing chain with
  | nil => exact ⟨chain, rfl, rfl, fun hne => absurd rfl hne⟩
  | @cons item name rest others hitem _ ih =>
      obtain ⟨step, hstep⟩ := hitem.chainStep
      let link := accessNode chain name (linkPosition r start step rest.isEmpty)
      obtain ⟨whole, hwhole, herased, hposition⟩ := ih link
      refine ⟨whole, ?_, herased, fun _ => ?_⟩
      · rw [attributeLinks, hstep]
        show (attributeOf _ chain name >>= fun link => attributeLinks r start link rest) = _
        rw [attributeOf_eq]
        exact hwhole
      · cases rest with
        | nil =>
            have hlink : link = whole := Except.ok.inj hwhole
            rw [← hlink]
            rfl
        | cons => exact hposition (List.cons_ne_nil _ _)

/-! ## Accesses inside each other -/

/-- Reductions of accesses inside each other, each with a range and a part for its name: every
one has the result of the one before it as its owner. -/
def nestedAccesses (options : Options) (owner : Reduced) (links : List (Position × Reduced)) :
    Except Error Reduced :=
  links.foldlM (fun value link => apply options .attribute link.1 [value, link.2]) owner

theorem apply_attribute (options : Options) (position : Position) (owner : Node)
    (h : item.GivesName name) :
    apply options .attribute position [.node owner, item] =
      .ok (.node (accessNode owner name position)) := by
  rw [apply_eq_ok_iff]
  cases h <;> exact congrArg (Except.map Reduced.node) (attributeOf_eq position owner _)

theorem exists_nestedAccesses (options : Options) {links : List (Position × Reduced)}
    (h : List.Forall₂ (fun link name => GivesName link.2 name) links names) (owner : Node) :
    ∃ nested, nestedAccesses options (.node owner) links = .ok (.node nested) ∧
      nested.erased = accessPath owner.erased names := by
  induction h generalizing owner with
  | nil => exact ⟨owner, rfl, rfl⟩
  | @cons link name rest others hlink _ ih =>
      obtain ⟨nested, hnested, herased⟩ := ih (accessNode owner name link.1)
      refine ⟨nested, ?_, herased⟩
      rw [nestedAccesses, List.foldlM_cons, apply_attribute options link.1 owner hlink]
      exact hnested

/-! ## Dotted paths -/

theorem dotSegments_eq_splitOn (text : List Char) : dotSegments text = text.splitOn '.' := by
  induction text with
  | nil => rfl
  | cons c rest ih => simp [dotSegments, List.splitOn_cons_eq_if_modifyHead, ih]

/-- Joining segments by dots and cutting at the dots again gives them back. -/
theorem dotSegments_intercalate (hne : names ≠ []) (hdot : ∀ name ∈ names, '.' ∉ name.toList) :
    dotSegments (".".intercalate names).toList = names.map String.toList := by
  rw [dotSegments_eq_splitOn, String.toList_intercalate]
  refine List.splitOn_intercalate '.' ?_ (by simpa using hne)
  simpa using hdot

theorem exists_mapM_identifier (what : String)
    (h : List.Forall₂ GivesName (items.filter fun item => !item.isDot) names)
    (hdot : ∀ name ∈ names, name ≠ ".") :
    ∃ parts, items.mapM (fun item => identifier what (some item)) = .ok parts ∧
      parts.filter (· != ".") = names := by
  induction items generalizing names with
  | nil =>
      cases h
      exact ⟨[], rfl, rfl⟩
  | cons item rest ih =>
      cases hitem : item.isDot with
      | true =>
          cases item with
          | token t =>
              rw [List.filter_cons, hitem] at h
              obtain ⟨parts, hparts, hnames⟩ := ih h hdot
              refine ⟨t.text :: parts, ?_, ?_⟩
              · rw [List.mapM_cons, hparts]
                rfl
              · rw [List.filter_cons_of_neg (by simpa [isDot] using hitem)]
                exact hnames
          | _ => cases hitem
      | false =>
          rw [List.filter_cons, hitem] at h
          cases h with
          | @cons _ name _ others hname hrest =>
              obtain ⟨hfirst, hothers⟩ := List.forall_mem_cons.mp hdot
              obtain ⟨parts, hparts, hnames⟩ := ih hrest hothers
              refine ⟨name :: parts, ?_, ?_⟩
              · rw [List.mapM_cons, hname.identifier, hparts]
                rfl
              · rw [List.filter_cons_of_pos (by simpa using hfirst), hnames]

/-- The names of a path are joined by single dots, however many dots stand among its parts. -/
theorem apply_dottedName (options : Options) (position : Position)
    (h : List.Forall₂ GivesName (items.filter fun item => !item.isDot) names)
    (hne : names ≠ []) (hdot : ∀ name ∈ names, name ≠ ".") :
    apply options .dottedName position items = .ok (.dotted (".".intercalate names)) := by
  rw [apply_eq_ok_iff]
  show dottedName ⟨.dottedName, position, options⟩ items = _
  obtain ⟨parts, hparts, hnames⟩ := exists_mapM_identifier "module path segment" h hdot
  rw [dottedName, hparts]
  show (if (parts.filter (· != ".")).isEmpty then _ else _) = _
  rw [hnames, if_neg (by simpa using hne)]

theorem exists_attributePath (position : Position) (segments : List (List Char)) (base : Node) :
    ∃ whole, attributePath position base segments = .ok whole ∧
      whole.erased = accessPath base.erased (segments.map String.ofList) := by
  induction segments generalizing base with
  | nil => exact ⟨base, rfl, rfl⟩
  | cons segment rest ih =>
      obtain ⟨whole, hwhole, herased⟩ :=
        ih (accessNode base (String.ofList segment) position)
      refine ⟨whole, ?_, herased⟩
      rw [attributePath, Node.build_of_slots rfl]
      exact hwhole

/-- A path is read as the accesses that its segments stand for. -/
theorem exists_apply_decorator (options : Options) (position : Position) (first : String)
    (hsegments : ∀ name ∈ first :: names, name ≠ "" ∧ '.' ∉ name.toList) :
    ∃ reference,
      apply options .decorator position [.dotted (".".intercalate (first :: names))] =
        .ok (.node reference) ∧
      reference.erased = accessPath (nameNode first .unknown) names := by
  have hcut := dotSegments_intercalate (List.cons_ne_nil first names)
    fun name hname => (hsegments name hname).2
  have hfirst : first.toList.isEmpty = false := by
    simpa using (hsegments first List.mem_cons_self).1
  obtain ⟨reference, hreference, herased⟩ :=
    exists_attributePath position (names.map String.toList) (nameNode first position)
  refine ⟨reference, ?_, ?_⟩
  · have hpath : pathReference position (".".intercalate (first :: names)) = .ok reference := by
      rw [pathReference, hcut, List.map_cons]
      dsimp only
      rw [hfirst, if_neg (by decide), Node.build_of_slots rfl, String.ofList_toList]
      exact hreference
    rw [apply_eq_ok_iff, handlerOf, decorator_eq]
    show (pathReference position _ >>= _) = _
    rw [hpath]
    rfl
  · simpa [Function.comp_def] using herased

/-! ## The statement -/

/-- A chain of attributes with at least one name is accepted with any base, and its outermost
link has the range of the reduction. Up to ranges it is the node of accesses inside each other.
On a name, with names that are not empty and have no dot, it is also the node of a decorator
with the dotted path of all names, wherever dots stand among the parts of the path. -/
theorem apply_attrChain_agrees (options : Options) (position : Position) (base : Node)
    {steps : List Reduced} {names : List String} (hsteps : List.Forall₂ GivesName steps names)
    (hsome : names ≠ []) :
    ∃ chain, apply options .attrChain position (.node base :: steps) = .ok (.node chain) ∧
      chain.position = position ∧
      (∀ links : List (Position × Reduced),
        List.Forall₂ (fun link name => GivesName link.2 name) links names →
        ∃ nested, nestedAccesses options (.node base) links = .ok (.node nested) ∧
          nested.erased = chain.erased) ∧
      ∀ first start, base = nameNode first start →
        (∀ name ∈ first :: names, name ≠ "" ∧ '.' ∉ name.toList) →
        ∀ parts : List Reduced,
          List.Forall₂ GivesName (parts.filter fun part => !part.isDot) (first :: names) →
          ∀ pathRange decoratorRange, ∃ path reference,
            apply options .dottedName pathRange parts = .ok (.dotted path) ∧
            apply options .decorator decoratorRange [.dotted path] = .ok (.node reference) ∧
            reference.erased = chain.erased := by
  have hnonempty : steps ≠ [] := by
    rintro rfl
    cases hsteps
    exact hsome rfl
  obtain ⟨chain, hchain, herased, hposition⟩ :=
    exists_attributeLinks ⟨.attrChain, position, options⟩ base.position hsteps base
  refine ⟨chain, ?_, hposition hnonempty, ?_, ?_⟩
  · rw [apply_eq_ok_iff, handlerOf, attributeChain_eq]
    show (if steps.isEmpty then _ else (attributeLinks _ base.position base steps).map _) = _
    rw [if_neg (by simpa using hnonempty), hchain]
    rfl
  · intro links hlinks
    obtain ⟨nested, hnested, hsame⟩ := exists_nestedAccesses options hlinks base
    exact ⟨nested, hnested, hsame.trans herased.symm⟩
  · rintro first start rfl hsegments parts hparts pathRange decoratorRange
    have hdot : ∀ name ∈ first :: names, name ≠ "." := by
      rintro name hname rfl
      exact (hsegments _ hname).2 (by decide)
    obtain ⟨reference, hreference, hsame⟩ :=
      exists_apply_decorator options decoratorRange first hsegments
    exact ⟨_, reference, apply_dottedName options pathRange hparts (List.cons_ne_nil _ _) hdot,
      hreference, hsame.trans herased.symm⟩

/-- The steps of `a.b.c`: a token and a variable. -/
def mixedSteps : List Reduced :=
  [.token ⟨"NAME", "b", ⟨1, 3, 1, 4⟩⟩, .node (nameNode "c" ⟨1, 5, 1, 6⟩)]

/-- The parts of the path `a.b.c` with dots in front, between and behind. -/
def dottedParts : List Reduced :=
  let dot := .token ⟨"DOT", ".", .unknown⟩
  [dot, .token ⟨"NAME", "a", .unknown⟩, dot, dot, .token ⟨"NAME", "b", .unknown⟩,
    .node (nameNode "c" .unknown), dot]

/-- The chain `a.b.c`, whose base is read from a token, is the reference of the decorator
`@a.b.c`. -/
theorem apply_attrChain_agrees_mixed :
    apply .default .nameRef ⟨1, 1, 1, 2⟩ [.token ⟨"NAME", "a", ⟨1, 1, 1, 2⟩⟩] =
      .ok (.node (nameNode "a" ⟨1, 1, 1, 2⟩)) ∧
    List.Forall₂ GivesName mixedSteps ["b", "c"] ∧ ["b", "c"] ≠ [] ∧
    (∀ name ∈ ["a", "b", "c"], name ≠ "" ∧ '.' ∉ name.toList) ∧
    List.Forall₂ GivesName (dottedParts.filter fun part => !part.isDot) ["a", "b", "c"] ∧
    ∃ chain path reference,
      apply .default .attrChain ⟨1, 1, 1, 6⟩ (.node (nameNode "a" ⟨1, 1, 1, 2⟩) :: mixedSteps) =
        .ok (.node chain) ∧
      chain.position = ⟨1, 1, 1, 6⟩ ∧
      apply .default .dottedName ⟨1, 2, 1, 9⟩ dottedParts = .ok (.dotted path) ∧
      apply .default .decorator ⟨1, 1, 1, 9⟩ [.dotted path] = .ok (.node reference) ∧
      reference.erased = chain.erased := by
  have hsteps : List.Forall₂ GivesName mixedSteps ["b", "c"] :=
    .cons (.token _) (.cons (.name _ _) .nil)
  have hparts :
      List.Forall₂ GivesName (dottedParts.filter fun part => !part.isDot) ["a", "b", "c"] :=
    .cons (.token _) (.cons (.token _) (.cons (.name _ _) .nil))
  have hnames : ∀ name ∈ ["a", "b", "c"], name ≠ "" ∧ '.' ∉ name.toList := by decide
  obtain ⟨chain, hchain, hposition, -, hpath⟩ := apply_attrChain_agrees .default ⟨1, 1, 1, 6⟩
    (nameNode "a" ⟨1, 1, 1, 2⟩) hsteps (List.cons_ne_nil _ _)
  obtain ⟨path, reference, hdotted, hreference, hsame⟩ :=
    hpath "a" _ rfl hnames dottedParts hparts ⟨1, 2, 1, 9⟩ ⟨1, 1, 1, 9⟩
  exact ⟨(GivesName.token _).apply_nameRef _ _, hsteps, List.cons_ne_nil _ _, hnames, hparts,
    chain, path, reference, hchain, hposition, hdotted, hreference, hsame⟩

end TreeLowering
