/-
# Two runs side by side

What two reductions have in common that differ in source ranges, in the names of groups,
in the classes of tokens or in the values of constants. A likeness says in which of these
the runs must agree. Everything else about nodes, parts and failures is the same in both.
-/

import Mathlib.Data.List.Forall2
import TreeLowering.Lowering.Reduction
import TreeLowering.Node.Bind
import TreeLowering.Proofs.Tree.Subtrees

namespace TreeLowering

/-- A number with a fraction. -/
def Scalar.isFraction : Scalar → Bool
  | .float _ => true
  | _ => false

/-- In what two runs agree, and how the values of their constants are related. Where both
runs build the same constant, a value without a fraction is like itself. Everywhere like
values are the same text, if any. -/
structure Likeness where
  /-- Whether source ranges are the same. -/
  ranges : Prop
  /-- Whether groups have the same names. -/
  names : Prop
  /-- How the values of constants are related, by the range of the constant. -/
  literals : Position → Scalar → Scalar → Prop
  /-- The ranges at which both runs build the same constant, none with a fraction. -/
  shared : Position → Prop
  literals_self : ∀ {position : Position} {value : Scalar}, shared position →
    value.isFraction = false → literals position value value
  literals_text : ∀ {position : Position} {value other : Scalar}, literals position value other →
    (Value.scalar value).text? = (Value.scalar other).text?

namespace Likeness

variable (L : Likeness)

/-- Ranges that are the same if ranges matter. -/
def Ranges (p q : Position) : Prop :=
  L.ranges → p = q

/-- Descriptions that are the same if the names of groups matter. -/
def Words (text other : String) : Prop :=
  L.names → text = other

/-- Failures of one kind, for the same reason up to the description of what was found. -/
inductive Errors : Error → Error → Prop
  | same (e : Error) : Errors e e
  | unrecognized (what : String) {found other : String} (words : L.Words found other) :
      Errors (.unrecognized what found) (.unrecognized what other)
  | shape (what : String) {found other : String} (words : L.Words found other) :
      Errors (.shape what found) (.shape what other)
  | notAModule {found other : String} (words : L.Words found other) :
      Errors (.notAModule found) (.notAModule other)
  | inRule (rule : String) {p q : Position} {e f : Error} (range : L.Ranges p q)
      (cause : Errors e f) : Errors (.inRule rule p e) (.inRule rule q f)

/-! ## Nodes -/

mutual

/-- Nodes of one construct with like fields; of constants only the values are related. -/
inductive Nodes : Node → Node → Prop
  | constant {v w : Scalar} {p q : Position} (literal : L.literals p v w) (range : L.Ranges p q) :
      Nodes (.mk .constant [("value", .scalar v)] p) (.mk .constant [("value", .scalar w)] q)
  | mk {construct : Construct} {fields others : List (String × Value)} {p q : Position}
      (kind : construct ≠ .constant) (content : Fields fields others) (range : L.Ranges p q) :
      Nodes (.mk construct fields p) (.mk construct others q)

/-- Fields of the same names with like contents. -/
inductive Fields : List (String × Value) → List (String × Value) → Prop
  | nil : Fields [] []
  | cons (slot : String) {v w : Value} {fields others : List (String × Value)}
      (head : Values v w) (rest : Fields fields others) :
      Fields ((slot, v) :: fields) ((slot, w) :: others)

/-- Contents of one form with like nodes. -/
inductive Values : Value → Value → Prop
  | node {n m : Node} (like : Nodes n m) : Values (.node n) (.node m)
  | list {ns ms : List Node} (like : List.Forall₂ Nodes ns ms) : Values (.list ns) (.list ms)
  | sparse {ns ms : List (Option Node)} (like : List.Forall₂ (Option.Rel Nodes) ns ms) :
      Values (.sparse ns) (.sparse ms)
  | scalar (s : Scalar) : Values (.scalar s) (.scalar s)

end

/-- Lists of like nodes. -/
abbrev NodeLists : List Node → List Node → Prop :=
  List.Forall₂ L.Nodes

/-! ## Parts -/

/-- Parts of one form with like nodes. Tokens have the same texts, and the same classes if
these matter. What no handler answers with is found among raw parts alone: tokens,
fragments and placeholders. -/
inductive Parts (raw classes : Prop) : Reduced → Reduced → Prop
  | node {n m : Node} (like : L.Nodes n m) : Parts raw classes (.node n) (.node m)
  | nodes {ns ms : List Node} (like : L.NodeLists ns ms) : Parts raw classes (.nodes ns) (.nodes ms)
  | operator (op : Operator) : Parts raw classes (.operator op) (.operator op)
  | token {t u : Token} (text : t.text = u.text) (kind : classes → t.kind = u.kind)
      (range : L.Ranges t.position u.position) (given : raw) :
      Parts raw classes (.token t) (.token u)
  | fragment {rule name : String} {children others : List Reduced} {p q : Position}
      (words : L.Words rule name) (like : List.Forall₂ (Parts raw classes) children others)
      (range : L.Ranges p q) (given : raw) :
      Parts raw classes (.fragment rule children p) (.fragment name others q)
  | absent (given : raw) : Parts raw classes .absent .absent
  | pair {k l v w : Node} (key : L.Nodes k l) (value : L.Nodes v w) :
      Parts raw classes (.pair k v) (.pair l w)
  | unpack {n m : Node} (like : L.Nodes n m) : Parts raw classes (.unpack n) (.unpack m)
  | dotted (path : String) : Parts raw classes (.dotted path) (.dotted path)
  | level (dots : UInt64) : Parts raw classes (.level dots) (.level dots)
  | elif {t u : Node} {body others : List Node} {p q : Position} (test : L.Nodes t u)
      (like : L.NodeLists body others) (range : L.Ranges p q) :
      Parts raw classes (.clause (.elif t body p)) (.clause (.elif u others q))
  | otherwise {body others : List Node} (like : L.NodeLists body others) :
      Parts raw classes (.clause (.otherwise body)) (.clause (.otherwise others))
  | finish {body others : List Node} (like : L.NodeLists body others) :
      Parts raw classes (.clause (.finish body)) (.clause (.finish others))
  | plain {n m : Node} {d e : Option Node} (like : L.Nodes n m) (default : Option.Rel L.Nodes d e) :
      Parts raw classes (.parameter (.plain n d)) (.parameter (.plain m e))
  | star {d e : Option Node} (like : Option.Rel L.Nodes d e) :
      Parts raw classes (.parameter (.star d)) (.parameter (.star e))
  | mapping {n m : Node} (like : L.Nodes n m) :
      Parts raw classes (.parameter (.mapping n)) (.parameter (.mapping m))
  | slash : Parts raw classes (.parameter .slash) (.parameter .slash)

/-- Lists of like parts. -/
abbrev PartLists (raw classes : Prop) : List Reduced → List Reduced → Prop :=
  List.Forall₂ (L.Parts raw classes)

/-- Like answers of handlers. -/
abbrev Answers : Reduced → Reduced → Prop :=
  L.Parts False False

/-! ## Outcomes -/

/-- Outcomes that are like failures or related values. -/
inductive Outcomes {α β : Type} (related : α → β → Prop) : Except Error α → Except Error β → Prop
  | ok {a : α} {b : β} (like : related a b) : Outcomes related (.ok a) (.ok b)
  | error {e f : Error} (like : L.Errors e f) : Outcomes related (.error e) (.error f)

/-- The events of one rule at like ranges. -/
structure Events (r s : Reduction) : Prop where
  rule : s.rule = r.rule
  range : L.Ranges r.position s.position

variable {L} {α β γ δ : Type} {related : α → β → Prop}

theorem Errors.within {e f : Error} (h : L.Errors e f) {p q : Position} (hrange : L.Ranges p q)
    (rule : String) : L.Errors (e.within rule p) (f.within rule q) := by
  cases h with
  | same e =>
      cases e with
      | inRule => exact .same _
      | _ => exact .inRule rule hrange (.same _)
  | unrecognized what words => exact .inRule rule hrange (.unrecognized what words)
  | shape what words => exact .inRule rule hrange (.shape what words)
  | notAModule words => exact .inRule rule hrange (.notAModule words)
  | inRule innerRule range cause => exact .inRule innerRule range cause

/-- Optional things that are related are both missing or both there. -/
theorem rel_cases {d : Option α} {e : Option β} (h : Option.Rel related d e) :
    d = none ∧ e = none ∨ ∃ a b, d = some a ∧ e = some b ∧ related a b := by
  cases h with
  | none => exact .inl ⟨rfl, rfl⟩
  | some like => exact .inr ⟨_, _, rfl, rfl, like⟩

namespace Outcomes

/-- Like outcomes both have a value or both fail. -/
theorem elim {o : Except Error α} {o' : Except Error β} (h : L.Outcomes related o o') :
    (∃ a b, o = .ok a ∧ o' = .ok b ∧ related a b) ∨
      ∃ e f, o = .error e ∧ o' = .error f ∧ L.Errors e f := by
  cases h with
  | ok like => exact .inl ⟨_, _, rfl, rfl, like⟩
  | error like => exact .inr ⟨_, _, rfl, rfl, like⟩

theorem bind {o : Except Error α} {o' : Except Error β} (h : L.Outcomes related o o')
    {next : α → Except Error γ} {next' : β → Except Error δ} {result : γ → δ → Prop}
    (hnext : ∀ a b, related a b → L.Outcomes result (next a) (next' b)) :
    L.Outcomes result (o >>= next) (o' >>= next') := by
  cases h with
  | ok like => exact hnext _ _ like
  | error like => exact .error like

theorem map {o : Except Error α} {o' : Except Error β} (h : L.Outcomes related o o')
    {f : α → γ} {g : β → δ} {result : γ → δ → Prop}
    (hmap : ∀ a b, related a b → result (f a) (g b)) : L.Outcomes result (o.map f) (o'.map g) := by
  cases h with
  | ok like => exact .ok (hmap _ _ like)
  | error like => exact .error like

/-- Elementwise steps on related elements have related results. -/
theorem mapM {f : α → Except Error γ} {g : β → Except Error δ} {result : γ → δ → Prop}
    (step : ∀ a b, related a b → L.Outcomes result (f a) (g b)) {items : List α} {others : List β}
    (h : List.Forall₂ related items others) :
    L.Outcomes (List.Forall₂ result) (items.mapM f) (others.mapM g) := by
  induction h with
  | nil => exact .ok .nil
  | cons hhead _ ih =>
      rw [List.mapM_cons, List.mapM_cons]
      apply bind (step _ _ hhead)
      intro value value' hvalue
      apply bind ih
      intro values values' hvalues
      exact .ok (.cons hvalue hvalues)

/-- Elementwise steps with the same results on related elements have the same results. -/
theorem mapM_eq {f : α → Except Error γ} {g : β → Except Error γ}
    (step : ∀ a b, related a b → L.Outcomes Eq (f a) (g b)) {items : List α} {others : List β}
    (h : List.Forall₂ related items others) : L.Outcomes Eq (items.mapM f) (others.mapM g) := by
  have hresults := mapM step h
  rwa [List.forall₂_eq_eq_eq] at hresults

/-- A run of steps over related elements keeps states related. -/
theorem foldlM {f : γ → α → Except Error γ} {g : δ → β → Except Error δ} {state : γ → δ → Prop}
    (step : ∀ c d a b, state c d → related a b → L.Outcomes state (f c a) (g d b))
    {items : List α} {others : List β} (h : List.Forall₂ related items others) {c : γ} {d : δ}
    (init : state c d) : L.Outcomes state (items.foldlM f c) (others.foldlM g d) := by
  induction h generalizing c d with
  | nil => exact .ok init
  | cons hhead _ ih =>
      rw [List.foldlM_cons, List.foldlM_cons]
      apply bind (step c d _ _ init hhead)
      intro c' d' hstate
      exact ih hstate

end Outcomes

/-! ## Contents of like nodes -/

variable {n m : Node} {fields others : List (String × Value)}

theorem Nodes.construct_eq (h : L.Nodes n m) : m.construct = n.construct := by
  cases h <;> rfl

theorem Nodes.range (h : L.Nodes n m) : L.Ranges n.position m.position := by
  cases h <;> assumption

theorem Values.text?_eq {v w : Value} (h : L.Values v w) : v.text? = w.text? := by
  cases h <;> rfl

theorem Fields.names_eq (h : L.Fields fields others) :
    fields.map (·.1) = others.map (·.1) := by
  induction fields generalizing others with
  | nil =>
      cases h
      rfl
  | cons field rest ih =>
      cases h with
      | cons slot head tail => rw [List.map_cons, List.map_cons, ih tail]

theorem Fields.lookup_rel (h : L.Fields fields others) (slot : String) :
    Option.Rel L.Values (fields.lookup slot) (others.lookup slot) := by
  induction fields generalizing others with
  | nil =>
      cases h
      exact .none
  | cons field rest ih =>
      cases h with
      | cons name head tail =>
          rw [List.lookup_cons, List.lookup_cons]
          by_cases hslot : slot == name
          · simpa only [hslot] using .some head
          · simpa only [hslot] using ih tail

/-- Like nodes have the same texts in their slots. -/
theorem Nodes.get?_rel (h : L.Nodes n m) (slot : String) :
    Option.Rel (fun v w => v.text? = w.text?) (n.get? slot) (m.get? slot) := by
  cases h with
  | constant literal =>
      simp only [Node.get?, Node.fields, List.lookup_cons, List.lookup_nil]
      by_cases hslot : slot == "value"
      · simpa only [hslot] using .some (L.literals_text literal)
      · simpa only [hslot] using .none
  | mk kind content =>
      simp only [Node.get?, Node.fields]
      rcases rel_cases (content.lookup_rel slot) with ⟨hv, hw⟩ | ⟨v, w, hv, hw, like⟩
      · rw [hv, hw]
        exact .none
      · rw [hv, hw]
        exact .some like.text?_eq

theorem bind_text?_eq {v w : Option Value} (h : Option.Rel (fun v w => v.text? = w.text?) v w) :
    v.bind Value.text? = w.bind Value.text? := by
  cases h with
  | none => rfl
  | some like => exact like

theorem Values.ofOption {d e : Option Node} (h : Option.Rel L.Nodes d e) :
    L.Values (.ofOption d) (.ofOption e) := by
  cases h with
  | none => exact .scalar .none
  | some like => exact .node like

theorem Values.ofText? (text : Option String) : L.Values (.ofText? text) (.ofText? text) := by
  cases text <;> exact .scalar _

theorem Values.children_like {v w : Value} (h : L.Values v w) :
    L.NodeLists v.children w.children := by
  cases h with
  | node like => exact .cons like .nil
  | list like => exact like
  | sparse like => exact List.rel_filterMap (fun _ _ like => like) like
  | scalar s => exact .nil

theorem Fields.children_like (h : L.Fields fields others) :
    L.NodeLists (childrenOf fields) (childrenOf others) := by
  induction fields generalizing others with
  | nil =>
      cases h
      exact .nil
  | cons field rest ih =>
      cases h with
      | cons slot head tail => exact List.rel_append head.children_like (ih tail)

theorem Nodes.children_like (h : L.Nodes n m) : L.NodeLists n.children m.children := by
  cases h with
  | constant => exact .nil
  | mk kind content => exact content.children_like

/-- Like nodes hold like nodes at every depth. -/
theorem Nodes.subtrees_like (h : L.Nodes n m) : L.NodeLists n.subtrees m.subtrees := by
  induction n using Node.induction_children generalizing m with
  | step n ih =>
      rw [Node.subtrees_eq n, Node.subtrees_eq m]
      refine .cons h ?_
      have hchildren := h.children_like
      generalize n.children = ns, m.children = ms at ih hchildren ⊢
      induction hchildren with
      | nil => exact .nil
      | cons hhead _ ihrest =>
          exact List.rel_append (ih _ List.mem_cons_self hhead)
            (ihrest fun child hchild => ih child (List.mem_cons_of_mem _ hchild))

/-! ## Building nodes -/

theorem Fields.arrange (h : L.Fields fields others) (slots : List String) :
    L.Fields (arrange slots fields) (arrange slots others) := by
  induction slots with
  | nil => exact .nil
  | cons slot rest ih =>
      rw [TreeLowering.arrange, TreeLowering.arrange, List.filterMap_cons, List.filterMap_cons]
      rcases rel_cases (h.lookup_rel slot) with ⟨hv, hw⟩ | ⟨v, w, hv, hw, like⟩
      · rw [hv, hw]
        exact ih
      · rw [hv, hw]
        exact .cons slot like ih

theorem build_like {construct : Construct} (kind : construct ≠ .constant)
    (h : L.Fields fields others) {p q : Position} (hrange : L.Ranges p q) :
    L.Outcomes L.Nodes (Node.build construct p fields) (Node.build construct q others) := by
  rw [Node.build, Node.build, h.names_eq]
  cases construct.fault? (others.map (·.1)) with
  | some fault => exact .error (.same _)
  | none => exact .ok (.mk kind (h.arrange construct.slots) hrange)

theorem Fields.replaceField? (h : L.Fields fields others) (slot : String) {v w : Value}
    (hvalue : L.Values v w) :
    Option.Rel L.Fields (Node.replaceField? slot v fields) (Node.replaceField? slot w others) := by
  induction fields generalizing others with
  | nil =>
      cases h
      exact .none
  | cons field rest ih =>
      cases h with
      | cons name head tail =>
          rw [Node.replaceField?, Node.replaceField?]
          by_cases hslot : name = slot
          · rw [if_pos hslot, if_pos hslot]
            exact .some (.cons name hvalue tail)
          · rw [if_neg hslot, if_neg hslot]
            rcases rel_cases (ih tail) with ⟨hv, hw⟩ | ⟨v, w, hv, hw, like⟩
            · rw [hv, hw]
              exact .none
            · rw [hv, hw]
              exact .some (.cons name head like)

/-- A slot of like nodes is replaced alike. Constants have no slot but their value. -/
theorem setField_like (h : L.Nodes n m) (kind : n.construct ≠ .constant) (slot : String)
    {v w : Value} (hvalue : L.Values v w) :
    L.Outcomes L.Nodes (n.setField slot v) (m.setField slot w) := by
  cases h with
  | constant => exact absurd rfl kind
  | mk _ content range =>
      simp only [Node.setField, Node.fields, Node.construct, Node.position]
      rcases rel_cases (content.replaceField? slot hvalue) with ⟨hv, hw⟩ | ⟨v, w, hv, hw, like⟩
      · rw [hv, hw]
        exact .error (.same _)
      · rw [hv, hw]
        exact .ok (.mk kind like range)

/-! ## Binding nodes -/

variable {usage : Usage} {construct : Construct}

theorem bindAll_cons (n : Node) (rest : List Node) :
    Node.bindAll usage (n :: rest) =
      n.bind usage >>= fun first => Node.bindAll usage rest >>= fun others =>
        .ok (first :: others) := by
  rw [Node.bindAll]
  cases n.bind usage with
  | error e => rfl
  | ok first => cases Node.bindAll usage rest <;> rfl

theorem bindFields_cons (slot : String) (value : Value) (rest : List (String × Value)) :
    Node.bindFields usage construct ((slot, value) :: rest) =
      Node.bindField usage construct slot value >>= fun first =>
        Node.bindFields usage construct rest >>= fun others => .ok ((slot, first) :: others) := by
  rw [Node.bindFields]
  cases Node.bindField usage construct slot value with
  | error e => rfl
  | ok first => cases Node.bindFields usage construct rest <;> rfl

theorem bindAll_like {ns ms : List Node}
    (h : ∀ n ∈ ns, ∀ m, L.Nodes n m → L.Outcomes L.Nodes (n.bind usage) (m.bind usage))
    (hlike : L.NodeLists ns ms) :
    L.Outcomes L.NodeLists (Node.bindAll usage ns) (Node.bindAll usage ms) := by
  induction hlike with
  | nil => exact .ok .nil
  | cons hhead _ ih =>
      rw [bindAll_cons, bindAll_cons]
      apply (h _ List.mem_cons_self _ hhead).bind
      intro _ _ hfirst
      apply (ih fun n hn => h n (List.mem_cons_of_mem _ hn)).bind
      intro _ _ hothers
      exact .ok (.cons hfirst hothers)

theorem bindField_like (slot : String) {v w : Value}
    (h : ∀ n ∈ v.children, ∀ m, L.Nodes n m → L.Outcomes L.Nodes (n.bind usage) (m.bind usage))
    (hlike : L.Values v w) :
    L.Outcomes L.Values (Node.bindField usage construct slot v)
      (Node.bindField usage construct slot w) := by
  rw [Node.bindField.eq_def, Node.bindField.eq_def]
  by_cases hslot : slot = "ctx"
  · rw [if_pos hslot, if_pos hslot]
    exact .ok (.scalar _)
  · rw [if_neg hslot, if_neg hslot]
    cases hlike with
    | node like =>
        dsimp only
        split
        · exact (h _ (by simp) _ like).map fun _ _ => .node
        · exact .ok (.node like)
    | list like =>
        dsimp only
        split
        · exact (bindAll_like h like).map fun _ _ => .list
        · exact .ok (.list like)
    | sparse like => exact .ok (.sparse like)
    | scalar s => exact .ok (.scalar s)

theorem bindFields_like
    (h : ∀ n ∈ childrenOf fields, ∀ m, L.Nodes n m →
      L.Outcomes L.Nodes (n.bind usage) (m.bind usage))
    (hlike : L.Fields fields others) :
    L.Outcomes L.Fields (Node.bindFields usage construct fields)
      (Node.bindFields usage construct others) := by
  induction fields generalizing others with
  | nil =>
      cases hlike
      exact .ok .nil
  | cons field rest ih =>
      cases hlike with
      | cons slot head tail =>
          rw [bindFields_cons, bindFields_cons]
          apply (bindField_like slot (fun n hn => h n (List.mem_append_left _ hn)) head).bind
          intro _ _ hfirst
          apply (ih (fun n hn => h n (List.mem_append_right _ hn)) tail).bind
          intro _ _ hothers
          exact .ok (.cons slot hfirst hothers)

/-- Like nodes become targets alike. -/
theorem bind_like (usage : Usage) (h : L.Nodes n m) :
    L.Outcomes L.Nodes (n.bind usage) (m.bind usage) := by
  induction n using Node.induction_children generalizing m with
  | step n ih =>
      cases h with
      | constant => exact .error (.same _)
      | @mk construct fields others p q kind content range =>
          rw [Node.bind, Node.bind, content.names_eq]
          by_cases hctx : construct.hasSlot "ctx"
          · rw [if_pos hctx, if_pos hctx]
            cases construct.boundSlots.find? fun slot => !(others.map (·.1)).contains slot with
            | some slot => exact .error (.same _)
            | none =>
                have hbound : L.Outcomes L.Fields (Node.bindFields usage construct fields)
                    (Node.bindFields usage construct others) :=
                  bindFields_like (fun child hchild _ => ih child hchild) content
                dsimp only
                rcases hbound.elim with ⟨vs, ws, hvs, hws, like⟩ | ⟨e, f, he, hf, like⟩
                · simp only [hvs, hws]
                  exact .ok (.mk kind like range)
                · simp only [he, hf]
                  exact .error like
          · rw [if_neg hctx, if_neg hctx]
            exact .error (.same _)

end Likeness

end TreeLowering
