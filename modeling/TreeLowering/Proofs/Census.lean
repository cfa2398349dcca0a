/-
# The census in the written tree

The numbers of the summary of a module can be read off its written form: its statements are
the items of the member `body`, and its nodes are the objects that tell a line. Operators and
usages are written as objects too, but these tell no line.
-/

import TreeLowering.Node.Census
import TreeLowering.Node.Dump
import TreeLowering.Proofs.Wellformedness

namespace TreeLowering

namespace Json

mutual

/-- The number of objects in a value, at every depth, with a given key. -/
def objectsWith (key : String) : Json → ℕ
  | .object members =>
    (if members.any (·.1 == key) then 1 else 0) + objectsWithInMembers key members
  | .array items => objectsWithInItems key items
  | _ => 0

/-- The number of such objects in the values of members. -/
def objectsWithInMembers (key : String) : List (String × Json) → ℕ
  | [] => 0
  | (_, value) :: rest => objectsWith key value + objectsWithInMembers key rest

/-- The number of such objects in the items of an array. -/
def objectsWithInItems (key : String) : List Json → ℕ
  | [] => 0
  | item :: rest => objectsWith key item + objectsWithInItems key rest

end

variable {key : String}

@[simp]
theorem objectsWithInMembers_append (first rest : List (String × Json)) :
    objectsWithInMembers key (first ++ rest) =
      objectsWithInMembers key first + objectsWithInMembers key rest := by
  induction first with
  | nil => simp [objectsWithInMembers]
  | cons member others ih => simp [objectsWithInMembers, ih, Nat.add_assoc]

theorem objectsWithInItems_eq_zero {items : List Json}
    (h : ∀ item ∈ items, objectsWith key item = 0) : objectsWithInItems key items = 0 := by
  induction items with
  | nil => rfl
  | cons item rest ih =>
      rw [objectsWithInItems, h item List.mem_cons_self,
        ih fun other hother => h other (List.mem_cons_of_mem _ hother)]

end Json

open TreeLowering.Json

/-! ## Nodes -/

theorem length_toJsonList_dumpAll (nodes : List Node) :
    (Dump.toJsonList (Node.dumpAll nodes)).length = nodes.length := by
  induction nodes with
  | nil => rfl
  | cons n rest ih => simp [Node.dumpAll, Dump.toJsonList, ih]

theorem objectsWith_taggedJson (tag : String) : (taggedJson tag).objectsWith "lineno" = 0 := by
  simp [taggedJson, objectsWith, objectsWithInMembers]

/-- A scalar is written without an object that tells a line. -/
theorem objectsWith_scalar (s : Scalar) : s.toJson.objectsWith "lineno" = 0 := by
  cases s with
  | identifiers names =>
      refine objectsWithInItems_eq_zero fun item hitem => ?_
      obtain ⟨name, -, rfl⟩ := List.mem_map.1 hitem
      rfl
  | operators ops =>
      refine objectsWithInItems_eq_zero fun item hitem => ?_
      obtain ⟨op, -, rfl⟩ := List.mem_map.1 hitem
      exact objectsWith_taggedJson _
  | operator op => exact objectsWith_taggedJson _
  | usage u => exact objectsWith_taggedJson _
  | _ => rfl

/-- The object of a node tells a line, and the rest of it are its fields. -/
theorem objectsWith_node (construct : Construct) (fields : List (String × Dump))
    (position : Position) :
    (Dump.node construct fields position).toJson.objectsWith "lineno" =
      1 + objectsWithInMembers "lineno" (Dump.fieldMembers fields) := by
  simp [Dump.toJson, objectsWith, objectsWithInMembers, Dump.positionMembers]

mutual

/-- The objects that tell a line are the nodes. -/
theorem objectsWith_dump : ∀ n : Node, n.dump.toJson.objectsWith "lineno" = n.count
  | .mk construct fields position => by
      rw [Node.dump, objectsWith_node, Node.count, objectsWith_dumpFields fields]

theorem objectsWith_dumpFields : ∀ fields : List (String × Value),
    objectsWithInMembers "lineno" (Dump.fieldMembers (Node.dumpFields fields)) =
      Node.countFields fields
  | [] => rfl
  | (_, value) :: rest => by
      rw [Node.dumpFields, Dump.fieldMembers, objectsWithInMembers, Node.countFields,
        objectsWith_dumpValue value, objectsWith_dumpFields rest]

theorem objectsWith_dumpValue : ∀ value : Value,
    value.dump.toJson.objectsWith "lineno" = value.count
  | .node n => by rw [Value.dump, Value.count, objectsWith_dump n]
  | .list nodes => by
      rw [Value.dump, Dump.toJson, objectsWith, Value.count, objectsWith_dumpAll nodes]
  | .sparse slots => by
      rw [Value.dump, Dump.toJson, objectsWith, Value.count, objectsWith_dumpSlots slots]
  | .scalar s => by rw [Value.dump, Dump.toJson, Value.count, objectsWith_scalar]

theorem objectsWith_dumpAll : ∀ nodes : List Node,
    objectsWithInItems "lineno" (Dump.toJsonList (Node.dumpAll nodes)) = Node.countAll nodes
  | [] => rfl
  | n :: rest => by
      rw [Node.dumpAll, Dump.toJsonList, objectsWithInItems, Node.countAll, objectsWith_dump n,
        objectsWith_dumpAll rest]

theorem objectsWith_dumpSlots : ∀ slots : List (Option Node),
    objectsWithInItems "lineno" (Dump.toJsonList (Node.dumpSlots slots)) = Node.countSlots slots
  | [] => rfl
  | some n :: rest => by
      rw [Node.dumpSlots, Dump.toJsonList, objectsWithInItems, Node.countSlots, objectsWith_dump n,
        objectsWith_dumpSlots rest]
  | none :: rest => by
      rw [Node.dumpSlots, Dump.toJsonList, objectsWithInItems, Node.countSlots,
        objectsWith_dumpSlots rest]
      exact Nat.zero_add _

end

/-! ## Modules -/

variable {options : Options} {tree : ParseTree} {root : Node}

/-- What a tree is lowered to is a module with statements and nothing else. -/
theorem eq_module_of_transform (h : transform options tree = .ok root) : ∃ body position,
    root = .mk .module [("body", .list body), ("type_ignores", .list [])] position := by
  have hreduce := reduce_of_transform h
  have hformed := (everywhere_wellFormed_of_reduce hreduce root (by simp)).self
  obtain ⟨construct, fields, position⟩ := root
  obtain rfl : construct = .module := by
    by_contra hother
    rw [transform, hreduce] at h
    simp [Except.bind, expectModule, Node.construct, hother] at h
  rw [Node.wellFormed_mk] at hformed
  cases hformed with
  | module body => exact ⟨body, position, rfl⟩
  | display kind | elementComprehension kind | keywordStmt kind | branching kind | forLoop kind
  | withBlock kind | function kind | optionalValue kind | requiredValue kind | scope kind =>
      simp at kind

/-- The line that reports so many statements and nodes. -/
def summaryLine (statements nodes : ℕ) : String :=
  s!"ok: {statements} statements, {nodes} nodes"

/-- The statements of a module are the items of its member `body`, and its nodes the objects
that tell a line. -/
theorem summary_of_transform (h : transform options tree = .ok root) : ∃ members items,
    root.dump.toJson = .object members ∧ member? "body" members = some (.array items) ∧
      root.summary = summaryLine items.length ((Json.object members).objectsWith "lineno") := by
  obtain ⟨body, position, rfl⟩ := eq_module_of_transform h
  have hcount := objectsWith_dump
    (.mk .module [("body", .list body), ("type_ignores", .list [])] position)
  refine ⟨_, Dump.toJsonList (Node.dumpAll body), rfl, rfl, ?_⟩
  rw [Node.summary, summaryLine, length_toJsonList_dumpAll, ← hcount]
  rfl

end TreeLowering
