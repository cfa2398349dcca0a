/-
# Regrouping

A handler that scans a run of its parts looks through fragments and passes over tokens
and placeholders. So it cannot tell how the grammar groups the run, and what it collects
is what the flattened run has, in source order.
-/

import Mathlib.Logic.Relation
import TreeLowering.Proofs.Reduction.Places
import TreeLowering.Proofs.Reduction.Transform
import TreeLowering.Proofs.Tree.Binding

namespace TreeLowering

open TreeLowering.Lowering TreeLowering.Reduced

variable {α : Type} {run run' before after : List Reduced} {joins : Prop}

/-! ## Groupings -/

/-- One step of grouping a run in another way: a part of it is wrapped into a fragment, a
token or a placeholder is put in, or nodes are joined into a list where that is allowed,
anywhere in the run and inside its fragments. -/
inductive Regroup (joins : Prop) : List Reduced → List Reduced → Prop
  | wrap (run : List Reduced) (name : String) (position : Position) :
      Regroup joins run [.fragment name run position]
  | insert {item : Reduced} (filler : item.isFiller) : Regroup joins [] [item]
  | join (allowed : joins) (nodes : List Node) : Regroup joins (nodes.map .node) [.nodes nodes]
  | inside {run run' : List Reduced} (name : String) (position : Position)
      (step : Regroup joins run run') :
      Regroup joins [.fragment name run position] [.fragment name run' position]
  | beside {run run' : List Reduced} (before after : List Reduced)
      (step : Regroup joins run run') :
      Regroup joins (before ++ run ++ after) (before ++ run' ++ after)

/-- Runs that are the same but for their grouping. -/
abbrev Regrouped (joins : Prop) : List Reduced → List Reduced → Prop :=
  Relation.EqvGen (Regroup joins)

/-! ## Scans -/

/-- A scan collects from one part after the other, from fragments what is in them, and
from tokens and placeholders nothing. -/
structure IsScan (part : Reduced → Except Error (List α))
    (scan : List Reduced → Except Error (List α)) : Prop where
  nil : scan [] = .ok []
  cons (item : Reduced) (rest : List Reduced) :
    scan (item :: rest) =
      part item >>= fun first => scan rest >>= fun others => .ok (first ++ others)
  fragment (name : String) (run : List Reduced) (position : Position) :
    part (.fragment name run position) = scan run
  filler {item : Reduced} (h : item.isFiller) : part item = .ok []

theorem isScan_gather : IsScan gatherItem gather where
  nil := rfl
  cons := gather_cons
  fragment name run position := by rw [gatherItem]
  filler {item} h := by cases item <;> first | rfl | cases h

theorem isScan_entries : IsScan entriesOf entries where
  nil := rfl
  cons := entries_cons
  fragment name run position := by rw [entriesOf]
  filler {item} h := by cases item <;> first | rfl | cases h

namespace IsScan

variable {part : Reduced → Except Error (List α)} {scan : List Reduced → Except Error (List α)}

theorem single (h : IsScan part scan) (item : Reduced) : scan [item] = part item := by
  rw [h.cons, h.nil]
  cases part item <;> simp [bind, Except.bind]

theorem append (h : IsScan part scan) (first rest : List Reduced) :
    scan (first ++ rest) =
      scan first >>= fun found => scan rest >>= fun others => .ok (found ++ others) := by
  induction first with
  | nil => rw [List.nil_append, h.nil]; cases scan rest <;> rfl
  | cons item behind ih =>
      rw [List.cons_append, h.cons, h.cons, ih]
      cases part item <;> cases scan behind <;> cases scan rest <;>
        simp [bind, Except.bind]

theorem of_regroup (h : IsScan part scan)
    (hjoin : joins → ∀ nodes : List Node, scan (nodes.map .node) = part (.nodes nodes))
    (hstep : Regroup joins run run') : scan run = scan run' := by
  induction hstep with
  | wrap run name position => rw [h.single, h.fragment]
  | insert filler => rw [h.single, h.filler filler, h.nil]
  | join allowed nodes => rw [h.single, hjoin allowed]
  | inside name position _ ih => rw [h.single, h.single, h.fragment, h.fragment, ih]
  | beside before after _ ih =>
      rw [h.append, h.append before, ih, ← h.append before, ← h.append]

/-- A scan finds the same in a run however it is grouped, or fails in the same way. -/
theorem of_regrouped (h : IsScan part scan)
    (hjoin : joins → ∀ nodes : List Node, scan (nodes.map .node) = part (.nodes nodes))
    (hruns : Regrouped joins run run') : scan run = scan run' := by
  induction hruns with
  | rel _ _ step => exact h.of_regroup hjoin step
  | refl => rfl
  | symm _ _ _ ih => exact ih.symm
  | trans _ _ _ _ _ first second => exact first.trans second

end IsScan

theorem gather_map_node (nodes : List Node) : gather (nodes.map .node) = .ok nodes := by
  induction nodes with
  | nil => rfl
  | cons n rest ih =>
      rw [List.map_cons, gather_cons, ih]
      rfl

/-! ## Flattened runs -/

mutual

/-- The parts that a part stands for: those in a fragment, and none for a token or a
placeholder. -/
def Reduced.flat : Reduced → List Reduced
  | .fragment _ children _ => flatten children
  | .token _ => []
  | .absent => []
  | item => [item]

/-- A run without fragments, tokens and placeholders. -/
def Reduced.flatten : List Reduced → List Reduced
  | [] => []
  | item :: rest => item.flat ++ flatten rest

end

mutual

/-- Flattening keeps the nodes and their order. -/
theorem rootsOf_flat : ∀ item : Reduced, rootsOf item.flat = item.roots
  | .fragment _ children _ => by rw [Reduced.flat, roots, rootsOf_flatten]
  | .token _ | .absent => rfl
  | .node _ | .nodes _ | .operator _ | .pair _ _ | .unpack _ | .dotted _ | .level _ | .clause _
  | .parameter _ => by simp [Reduced.flat]

theorem rootsOf_flatten : ∀ items : List Reduced, rootsOf (flatten items) = rootsOf items
  | [] => rfl
  | item :: rest => by
      rw [flatten, rootsOf_append, rootsOf, rootsOf_flat item, rootsOf_flatten rest]

end

/-- The part of a dict display that an entry is. -/
def Lowering.Entry.part : Entry → Reduced
  | (some key, value) => .pair key value
  | (none, mapping) => .unpack mapping

mutual

theorem flat_of_entriesOf : ∀ {item : Reduced} {found : List Entry},
    entriesOf item = .ok found → item.flat = found.map Entry.part
  | .pair _ _, _, rfl => rfl
  | .unpack _, _, rfl => rfl
  | .fragment _ children _, found, h => by
      rw [entriesOf] at h
      rw [Reduced.flat, flatten_of_entries h]
  | .token _, _, rfl => rfl
  | .absent, _, rfl => rfl

/-- Entries are collected from a run that has nothing else once it is flattened. -/
theorem flatten_of_entries : ∀ {items : List Reduced} {found : List Entry},
    entries items = .ok found → flatten items = found.map Entry.part
  | [], _, rfl => rfl
  | item :: rest, found, h => by
      rw [entries_cons] at h
      obtain ⟨first, hfirst, h⟩ := exists_of_bind_eq_ok h
      obtain ⟨others, hothers, h⟩ := exists_of_bind_eq_ok h
      cases h
      rw [flatten, flat_of_entriesOf hfirst, flatten_of_entries hothers, List.map_append]

end

/-! ## Handlers that scan -/

/-- Whether a rule scans all its parts. -/
def Rule.scansAll : Rule → Bool
  | .listDisplay | .tupleDisplay | .setDisplay | .dictDisplay | .argumentList | .decorators
  | .suite | .simpleStmt | .fileInput | .moduleRoot | .delStmt | .importName => true
  | _ => false

/-- The parts before and after the run that a rule scans, where it scans one. -/
inductive Frame : Rule → List Reduced → List Reduced → Prop
  | whole {rule : Rule} (scans : rule.scansAll) : Frame rule [] []
  | call (callee : Reduced) : Frame .call [callee] []
  | classDef (name body : Reduced) : Frame .classDef [name] [body]
  | withStmt (body : Reduced) : Frame .withStmt [] [body]
  | comprehension {rule : Rule} {construct : Construct}
      (kind : comprehensionConstruct? rule = some construct) (element : Reduced) :
      Frame rule [element] []
  | dictEntry {entry : Reduced} (whole : ∀ key, entry ≠ .node key) :
      Frame .dictComprehension [entry] []
  | dictNodes (key : Node) (value : Reduced) : Frame .dictComprehension [.node key, value] []

theorem handlerOf_comprehension {rule : Rule} {construct : Construct}
    (kind : comprehensionConstruct? rule = some construct) :
    handlerOf rule = Lowering.comprehension := by
  cases rule <;> cases kind <;> rfl

/-- A handler sees of a run only what it scans. -/
theorem handlerOf_congr {rule : Rule} (r : Reduction) (hframe : Frame rule before after)
    (hgather : rule ≠ .dictDisplay → gather run = gather run')
    (hentries : rule = .dictDisplay → entries run = entries run') :
    handlerOf rule r (before ++ run ++ after) = handlerOf rule r (before ++ run' ++ after) := by
  cases hframe with
  | @whole rule scans =>
      simp only [List.nil_append, List.append_nil]
      cases rule with
      | dictDisplay => simp only [handlerOf, dict, hentries rfl]
      | listDisplay | tupleDisplay | setDisplay =>
          simp only [handlerOf, Lowering.sequence, hgather (by decide)]
      | argumentList | decorators | suite | simpleStmt =>
          simp only [handlerOf, nodeList, hgather (by decide)]
      | fileInput | moduleRoot => simp only [handlerOf, Lowering.moduleRoot, hgather (by decide)]
      | delStmt => simp only [handlerOf, deletion, hgather (by decide)]
      | importName => simp only [handlerOf, importModules, hgather (by decide)]
      | _ => cases scans
  | call callee =>
      have h := hgather (by decide)
      simp [handlerOf, call_eq, callOf, classifyArguments, h]
  | classDef name body =>
      have h := hgather (by decide)
      simp [handlerOf, classDefinition_eq, classifyArguments, h]
  | withStmt body =>
      have h := hgather (by decide)
      simp [handlerOf, withStatement_eq, h]
  | @comprehension rule construct kind element =>
      have h := hgather (by rintro rfl; cases kind)
      simp [handlerOf_comprehension kind, Lowering.comprehension_eq, clauses, h]
  | @dictEntry entry whole =>
      have h := hgather (by decide)
      cases entry with
      | node key => exact absurd rfl (whole key)
      | _ => simp [handlerOf, dictComprehension_eq, dictComprehensionOf, clauses, h]
  | dictNodes key value =>
      have h := hgather (by decide)
      simp [handlerOf, dictComprehension_eq, dictComprehensionOf, clauses, h]

/-! ## What is collected -/

/-- The slot that takes all nodes of the run that a rule scans. -/
def Rule.runSlot? : Rule → Option String
  | .listDisplay | .tupleDisplay | .setDisplay => some "elts"
  | .fileInput | .moduleRoot => some "body"
  | .importName => some "names"
  | .withStmt => some "items"
  | .listComprehension | .setComprehension | .generatorExpression | .dictComprehension =>
    some "generators"
  | _ => none

/-- The slot that takes the nodes of the run that are no keywords, where a rule splits them. -/
def Rule.argumentSlot? : Rule → Option String
  | .call => some "args"
  | .classDef => some "bases"
  | _ => none

/-- What a rule makes of the run that it scans, by the nodes of the flattened run. -/
inductive Collects (rule : Rule) (run : List Reduced) : Reduced → Prop
  | list (kind : rule ∈ [.argumentList, .decorators, .suite, .simpleStmt]) :
      Collects rule run (.nodes (rootsOf (flatten run)))
  | slot {n : Node} {slot : String} (kind : rule.runSlot? = some slot)
      (held : n.get? slot = some (.list (rootsOf (flatten run)))) : Collects rule run (.node n)
  | split {n : Node} {slot : String} (kind : rule.argumentSlot? = some slot)
      (arguments : n.get? slot =
        some (.list ((rootsOf (flatten run)).filter fun m => !isKeyword m)))
      (keywords : n.get? "keywords" = some (.list ((rootsOf (flatten run)).filter isKeyword))) :
      Collects rule run (.node n)
  | targets {n : Node} {places : List Node} (kind : rule = .delStmt)
      (bound : List.Forall₂ (fun m place => m.bind .delete = .ok place)
        (rootsOf (flatten run)) places)
      (held : n.get? "targets" = some (.list places)) : Collects rule run (.node n)
  | entries {n : Node} {found : List Entry} (kind : rule = .dictDisplay)
      (flat : flatten run = found.map Entry.part)
      (keys : n.get? "keys" = some (.sparse (found.map (·.1))))
      (values : n.get? "values" = some (.list (found.map (·.2)))) : Collects rule run (.node n)

variable {r : Reduction} {result : Reduced}

theorem runSlot?_comprehension {rule : Rule} {construct : Construct}
    (kind : comprehensionConstruct? rule = some construct) :
    rule.runSlot? = some "generators" := by
  cases rule <;> cases kind <;> rfl

theorem eq_rootsOf_of_gather {nodes : List Node} (h : gather run = .ok nodes) :
    nodes = rootsOf (flatten run) := by
  rw [rootsOf_flatten]
  exact ((gather_yields run).of_ok h).symm

theorem eq_rootsOf_of_allOf {construct : Construct} {what : String} {nodes kept : List Node}
    (h : gather run = .ok nodes) (hall : allOf construct what nodes = .ok kept) :
    kept = rootsOf (flatten run) :=
  ((allOf_yields what construct nodes).of_ok hall).1.trans (eq_rootsOf_of_gather h)

theorem collects_of_build {construct : Construct} {fields : List (String × Value)} {slot : String}
    (hkind : r.rule.runSlot? = some slot) (hslots : fields.map (·.1) = construct.slots)
    (hheld : fields.lookup slot = some (.list (rootsOf (flatten run))))
    (hok : r.build construct fields = .ok result) : Collects r.rule run result := by
  rw [r.build_of_slots hslots] at hok
  cases hok
  exact .slot hkind hheld

theorem sequence_collects (hok : Lowering.sequence r run = .ok result) :
    Collects r.rule run result := by
  rw [Lowering.sequence] at hok
  obtain ⟨elements, hgather, hok⟩ := exists_of_bind_eq_ok hok
  obtain rfl := eq_rootsOf_of_gather hgather
  split at hok
  · rename_i hrule
    exact collects_of_build (by rw [hrule]; rfl) rfl rfl hok
  · rename_i hrule
    rw [Reduction.tuple, r.node_of_slots rfl] at hok
    cases hok
    exact .slot (by rw [hrule]; rfl) rfl
  · rename_i hrule
    exact collects_of_build (by rw [hrule]; rfl) rfl rfl hok
  · cases hok

theorem dict_collects (hrule : r.rule = .dictDisplay) (hok : dict r run = .ok result) :
    Collects r.rule run result := by
  rw [dict] at hok
  obtain ⟨found, hentries, hok⟩ := exists_of_bind_eq_ok hok
  rw [r.build_of_slots rfl] at hok
  cases hok
  exact .entries hrule (flatten_of_entries hentries) rfl rfl

theorem nodeList_collects (hrule : r.rule ∈ [.argumentList, .decorators, .suite, .simpleStmt])
    (hok : nodeList r run = .ok result) : Collects r.rule run result := by
  rw [nodeList] at hok
  obtain ⟨nodes, hgather, rfl⟩ := exists_of_map_eq_ok hok
  obtain rfl := eq_rootsOf_of_gather hgather
  exact .list hrule

theorem moduleRoot_collects (hrule : r.rule.runSlot? = some "body")
    (hok : moduleRoot r run = .ok result) : Collects r.rule run result := by
  rw [moduleRoot] at hok
  obtain ⟨body, hgather, hok⟩ := exists_of_bind_eq_ok hok
  obtain rfl := eq_rootsOf_of_gather hgather
  exact collects_of_build hrule rfl rfl hok

theorem deletion_collects (hrule : r.rule = .delStmt) (hok : deletion r run = .ok result) :
    Collects r.rule run result := by
  rw [deletion] at hok
  obtain ⟨nodes, hgather, hok⟩ := exists_of_bind_eq_ok hok
  obtain rfl := eq_rootsOf_of_gather hgather
  split at hok
  case isTrue => cases hok
  case isFalse =>
    obtain ⟨places, hplaces, hok⟩ := exists_of_bind_eq_ok hok
    rw [r.build_of_slots rfl] at hok
    cases hok
    exact .targets hrule ((Node.forall₂_of_mapM_eq_ok hplaces).imp fun _ _ h => h.2) rfl

theorem importModules_collects (hrule : r.rule.runSlot? = some "names")
    (hok : importModules r run = .ok result) : Collects r.rule run result := by
  rw [importModules] at hok
  obtain ⟨nodes, hgather, hok⟩ := exists_of_bind_eq_ok hok
  obtain ⟨names, hnames, hok⟩ := exists_of_bind_eq_ok hok
  obtain rfl := eq_rootsOf_of_allOf hgather hnames
  exact collects_of_build hrule rfl rfl hok

theorem callOf_collects {func : Node} (hrule : r.rule.argumentSlot? = some "args")
    (hok : callOf r func run = .ok result) : Collects r.rule run result := by
  rw [(callOf_yields func run).of_ok hok, ← rootsOf_flatten run]
  exact .split hrule rfl rfl

theorem classDefinition_collects {name body : Reduced}
    (hrule : r.rule.argumentSlot? = some "bases")
    (hok : classDefinition r ([name] ++ run ++ [body]) = .ok result) :
    Collects r.rule run result := by
  rw [classDefinition_eq] at hok
  obtain ⟨id, _, hok⟩ := exists_of_bind_eq_ok hok
  obtain ⟨statements, _, hok⟩ := exists_of_bind_eq_ok hok
  obtain ⟨found, hfound, hok⟩ := exists_of_bind_eq_ok hok
  have hrun : (([name] ++ run ++ [body]).drop 1).dropLast = run := by simp
  rw [hrun] at hfound
  obtain rfl := (classifyArguments_yields run).of_ok hfound
  rw [← rootsOf_flatten run] at hok
  dsimp only at hok
  rw [r.build_of_slots rfl] at hok
  cases hok
  exact .split hrule rfl rfl

theorem withStatement_collects {body : Reduced} (hrule : r.rule.runSlot? = some "items")
    (hok : withStatement r (run ++ [body]) = .ok result) : Collects r.rule run result := by
  rw [withStatement_eq] at hok
  obtain ⟨statements, _, hok⟩ := exists_of_bind_eq_ok hok
  obtain ⟨nodes, hgather, hok⟩ := exists_of_bind_eq_ok hok
  obtain ⟨managers, hmanagers, hok⟩ := exists_of_bind_eq_ok hok
  rw [List.dropLast_concat] at hgather
  obtain rfl := eq_rootsOf_of_allOf hgather hmanagers
  exact collects_of_build hrule rfl rfl hok

theorem eq_rootsOf_of_clauses {generators : List Node} (h : clauses run = .ok generators) :
    generators = rootsOf (flatten run) := by
  rw [rootsOf_flatten]
  exact ((clauses_yields run).of_ok h).1.symm

theorem comprehension_collects {construct : Construct} {element : Reduced}
    (hkind : comprehensionConstruct? r.rule = some construct)
    (hok : Lowering.comprehension r ([element] ++ run) = .ok result) :
    Collects r.rule run result := by
  rw [Lowering.comprehension_eq, hkind] at hok
  obtain ⟨first, _, hok⟩ := exists_of_bind_eq_ok hok
  obtain ⟨generators, hgenerators, hok⟩ := exists_of_bind_eq_ok hok
  obtain rfl := eq_rootsOf_of_clauses hgenerators
  rw [build_comprehension hkind] at hok
  cases hok
  exact .slot (runSlot?_comprehension hkind) rfl

theorem dictComprehensionOf_collects {key value : Node}
    (hrule : r.rule.runSlot? = some "generators")
    (hok : dictComprehensionOf r key value run = .ok result) : Collects r.rule run result := by
  rw [dictComprehensionOf] at hok
  obtain ⟨generators, hgenerators, hok⟩ := exists_of_bind_eq_ok hok
  obtain rfl := eq_rootsOf_of_clauses hgenerators
  exact collects_of_build hrule rfl rfl hok

/-- What a handler makes of a run is what its rule collects from it. -/
theorem collects_of_handlerOf (hframe : Frame r.rule before after)
    (hok : handlerOf r.rule r (before ++ run ++ after) = .ok result) :
    Collects r.rule run result := by
  obtain ⟨rule, position, options⟩ := r
  dsimp only at hframe hok ⊢
  cases hframe with
  | whole scans =>
      rw [List.nil_append, List.append_nil] at hok
      cases rule with dsimp only [handlerOf] at hok
      | listDisplay | tupleDisplay | setDisplay => exact sequence_collects hok
      | dictDisplay => exact dict_collects rfl hok
      | argumentList | decorators | suite | simpleStmt => exact nodeList_collects (by simp) hok
      | fileInput | moduleRoot => exact moduleRoot_collects rfl hok
      | delStmt => exact deletion_collects rfl hok
      | importName => exact importModules_collects rfl hok
      | _ => cases scans
  | call callee =>
      rw [List.append_nil, handlerOf, call_eq] at hok
      obtain ⟨func, _, hok⟩ := exists_of_bind_eq_ok hok
      exact callOf_collects rfl hok
  | classDef name body => exact classDefinition_collects rfl hok
  | withStmt body => exact withStatement_collects rfl hok
  | comprehension kind element =>
      rw [List.append_nil, handlerOf_comprehension kind] at hok
      exact comprehension_collects kind hok
  | @dictEntry entry whole =>
      rw [List.append_nil, handlerOf, dictComprehension_eq] at hok
      cases entry with
      | pair key value => exact dictComprehensionOf_collects rfl hok
      | node key => exact absurd rfl (whole key)
      | _ => cases hok
  | dictNodes key value =>
      rw [List.append_nil, handlerOf, dictComprehension_eq] at hok
      obtain ⟨second, _, hok⟩ := exists_of_bind_eq_ok hok
      exact dictComprehensionOf_collects rfl hok

/-- However the run that a rule scans is grouped, the answer to it is the same, be it a
result or a failure. A result has the nodes of the flattened run in source order, and that
of a dict display its entries. Only there, nodes may not be joined: an entry is no node. -/
theorem apply_of_regrouped (options : Options) (position : Position) {rule : Rule}
    {before after run run' : List Reduced} (hframe : Frame rule before after)
    (hruns : Regrouped (rule ≠ .dictDisplay) run run') :
    apply options rule position (before ++ run ++ after) =
        apply options rule position (before ++ run' ++ after) ∧
      ∀ result, apply options rule position (before ++ run ++ after) = .ok result →
        Collects rule run result := by
  have hjoin : rule ≠ .dictDisplay → ∀ nodes : List Node,
      gather (nodes.map .node) = gatherItem (.nodes nodes) := fun _ => gather_map_node
  -- A list of nodes is no entry, so the scan for entries is never asked to see through a join.
  have hentries : rule = .dictDisplay → entries run = entries run' := fun hrule =>
    isScan_entries.of_regrouped (fun hother => absurd hrule hother) hruns
  have hgather := isScan_gather.of_regrouped hjoin hruns
  refine ⟨?_, fun result hok => ?_⟩
  · rw [apply, apply, handlerOf_congr _ hframe (fun _ => hgather) hentries]
  · exact collects_of_handlerOf (r := ⟨rule, position, options⟩) hframe (handlerOf_eq_ok hok)

/-- The argument `f`. -/
def plainArgument : Node :=
  .mk .name [("id", .text "f"), ("ctx", .usage .read)] .unknown

/-- The argument `k=f`. -/
def keyedArgument : Node :=
  .mk .keyword [("arg", .text "k"), ("value", .node plainArgument)] .unknown

/-- The arguments of `f(f, k=f)`, joined in a list or apart in a group with their comma. -/
theorem apply_of_regrouped_call :
    ∃ n, apply .default .call .unknown
        [.node plainArgument, .nodes [plainArgument, keyedArgument]] = .ok (.node n) ∧
      apply .default .call .unknown [.node plainArgument, .fragment "arglist"
        [.node plainArgument, .token ⟨"COMMA", ",", .unknown⟩, .node keyedArgument] .unknown] =
        .ok (.node n) ∧
      Collects .call [.nodes [plainArgument, keyedArgument]] (.node n) := by
  have hruns : Regrouped (Rule.call ≠ .dictDisplay) [.nodes [plainArgument, keyedArgument]]
      [.fragment "arglist" [.node plainArgument, .token ⟨"COMMA", ",", .unknown⟩,
        .node keyedArgument] .unknown] := by
    have hparted : Regrouped (Rule.call ≠ .dictDisplay) [.nodes [plainArgument, keyedArgument]]
        [.node plainArgument, .node keyedArgument] :=
      .symm _ _ (.rel _ _ (.join nofun [plainArgument, keyedArgument]))
    have hcomma : Regrouped (Rule.call ≠ .dictDisplay) [.node plainArgument, .node keyedArgument]
        [.node plainArgument, .token ⟨"COMMA", ",", .unknown⟩, .node keyedArgument] :=
      .rel _ _ (.beside [.node plainArgument] [.node keyedArgument] (.insert rfl))
    exact (hparted.trans _ _ _ hcomma).trans _ _ _ (.rel _ _ (.wrap _ _ _))
  obtain ⟨hsame, hcollects⟩ :=
    apply_of_regrouped .default .unknown (.call (.node plainArgument)) hruns
  exact ⟨_, rfl, hsame.symm.trans rfl, hcollects _ rfl⟩

end TreeLowering
