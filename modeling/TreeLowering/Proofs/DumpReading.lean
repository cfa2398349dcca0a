/-
# Reading a dump

Written as JSON, a node is an object whose members are its construct, its slots and its
source range. Each key stands there once, so a backend finds under the name of a slot what
the node holds there, and the tag tells it the construct. An empty slot is null and nothing
else is; an operator is told by its tag from all other contents.
-/

import TreeLowering.Node.Dump
import TreeLowering.Proofs.SchemaPreservation

namespace TreeLowering

/-! ## Tags -/

/-- A construct is known by its tag. -/
theorem Construct.tag_injective : Function.Injective Construct.tag := by
  have htags : (all.map tag).Nodup := by decide +kernel
  intro c d h
  exact List.inj_on_of_nodup_map htags c.mem_all d.mem_all h

namespace Operator

/-- The list of operators is complete. -/
theorem mem_all (op : Operator) : op ∈ all := by
  cases op <;> decide

/-- An operator is known by its tag. -/
theorem tag_injective : Function.Injective tag := by
  have htags : (all.map tag).Nodup := by decide +kernel
  intro op other h
  exact List.inj_on_of_nodup_map htags op.mem_all other.mem_all h

/-- No operator has the tag of a usage. -/
theorem tag_ne_usage (op : Operator) (u : Usage) : op.tag ≠ u.tag := by
  have htags : ∀ op ∈ all, op.tag ≠ u.tag := by cases u <;> decide +kernel
  exact htags op op.mem_all

end Operator

/-! ## Contents of slots -/

namespace Value

variable {value : Value} {n : Node} {op : Operator}

theorem dump_of_node? (h : value.node? = some n) : value.dump = n.dump := by
  cases value with
  | node m =>
      cases h
      rw [dump]
  | list | sparse | scalar => cases h

/-- The object of a node has more members than that of an operator. -/
theorem toJson_dump_ne_taggedJson (n : Node) (tag : String) :
    n.dump.toJson ≠ taggedJson tag := by
  cases n with
  | mk construct fields position =>
      rw [Node.dump, Dump.toJson, taggedJson]
      intro h
      injection h with hmembers
      simp [Dump.positionMembers] at hmembers

/-- Null stands for nothing. -/
theorem toJson_dump_eq_null_iff : value.dump.toJson = .null ↔ value.isAbsent = true := by
  cases value with
  | node n =>
      cases n with
      | mk => simp [dump, Node.dump, Dump.toJson, isAbsent]
  | list | sparse => simp [dump, Dump.toJson, isAbsent]
  | scalar s => cases s <;> simp [dump, Dump.toJson, Scalar.toJson, isAbsent, taggedJson]

/-- The object of a tag stands for the operator with that tag. -/
theorem toJson_dump_eq_taggedJson_iff :
    value.dump.toJson = taggedJson op.tag ↔ value.operator? = some op := by
  cases value with
  | node n =>
      rw [dump]
      exact iff_of_false (toJson_dump_ne_taggedJson n op.tag) nofun
  | list | sparse => simp [dump, Dump.toJson, operator?, taggedJson]
  | scalar s =>
      cases s with
      | operator other =>
          simp [dump, Dump.toJson, Scalar.toJson, operator?, taggedJson,
            Operator.tag_injective.eq_iff]
      | usage u =>
          simp [dump, Dump.toJson, Scalar.toJson, operator?, taggedJson,
            (op.tag_ne_usage u).symm]
      | _ => simp [dump, Dump.toJson, Scalar.toJson, operator?, taggedJson]

end Value

/-! ## Members -/

namespace Json

variable {key : String} {members : List (String × Json)}

/-- Where no key is repeated, a key has the value that is found first. -/
theorem valuesOf_eq_lookup (h : (members.map (·.1)).Nodup) :
    valuesOf key members = (members.lookup key).toList := by
  induction members with
  | nil => rfl
  | cons member rest ih =>
      obtain ⟨name, value⟩ := member
      obtain ⟨hnot, hrest⟩ := List.nodup_cons.mp h
      by_cases hsame : name = key
      · subst hsame
        have hempty : valuesOf name rest = [] := by
          rw [valuesOf, List.map_eq_nil_iff, List.filter_eq_nil_iff]
          intro other hother hkey
          exact hnot (List.mem_map.mpr ⟨other, hother, beq_iff_eq.mp hkey⟩)
        simpa [valuesOf] using hempty
      · have hskip : (key == name) = false := beq_false_of_ne (Ne.symm hsame)
        rw [List.lookup_cons, hskip, ← ih hrest]
        simp [valuesOf, hsame]

theorem member?_eq_lookup (h : (members.map (·.1)).Nodup) :
    member? key members = members.lookup key := by
  rw [member?, valuesOf_eq_lookup h]
  cases members.lookup key <;> rfl

end Json

namespace Node

theorem lookup_dumpFields (fields : List (String × Value)) (slot : String) :
    (dumpFields fields).lookup slot = (fields.lookup slot).map Value.dump := by
  induction fields with
  | nil => rfl
  | cons field rest ih =>
      rw [dumpFields, List.lookup_cons, List.lookup_cons, ih]
      cases slot == field.1 <;> rfl

theorem fieldMembers_dumpFields (fields : List (String × Value)) :
    Dump.fieldMembers (dumpFields fields) =
      fields.map fun field => (field.1, field.2.dump.toJson) := by
  induction fields with
  | nil => rfl
  | cons field rest ih => rw [dumpFields, Dump.fieldMembers, ih, List.map_cons]

/-- A slot of a dump holds the dump of what the node holds there. -/
theorem dump_get? (n : Node) (slot : String) : n.dump.get? slot = (n.get? slot).map Value.dump := by
  cases n with
  | mk construct fields position => exact lookup_dumpFields fields slot

/-- The members of the object of a node. -/
def members : Node → List (String × Json)
  | .mk construct fields position =>
    ("_type", .string construct.tag) ::
      (Dump.fieldMembers (dumpFields fields) ++ Dump.positionMembers position)

theorem toJson_dump (n : Node) : n.dump.toJson = .object n.members := by
  cases n with
  | mk => rw [dump, Dump.toJson, members]

/-- No slot has the key of the construct or of the source range. -/
theorem members_nodup {n : Node} (h : n.FollowsSchema) : (n.members.map (·.1)).Nodup := by
  have hkeys : ∀ construct ∈ Construct.all, ("_type" :: (construct.slots ++
      ["lineno", "col_offset", "end_lineno", "end_col_offset"])).Nodup := by
    decide +kernel
  obtain ⟨construct, fields, position⟩ := n
  have hnames : (Dump.fieldMembers (dumpFields fields)).map (·.1) = construct.slots := by
    rw [fieldMembers_dumpFields, List.map_map]
    exact h
  rw [members, List.map_cons, List.map_append, hnames]
  exact hkeys construct construct.mem_all

/-- What a reader of the object of a node finds in it. -/
structure Shows (n : Node) (members : List (String × Json)) : Prop where
  /-- The tag tells the construct. -/
  construct : ∀ c : Construct,
    Json.member? "_type" members = some (.string c.tag) ↔ n.construct = c
  position : ∀ member ∈ Dump.positionMembers n.position,
    Json.member? member.1 members = some member.2
  /-- Under the name of a slot stands what the dump has there. It tells whether the slot is
  empty, which operator it holds and, of a node, the object of that node. -/
  slot : ∀ slot ∈ n.construct.slots, ∃ value json, n.get? slot = some value ∧
    (n.dump.get? slot).map Dump.toJson = some json ∧ Json.member? slot members = some json ∧
    (json = .null ↔ value.isAbsent = true) ∧
    (∀ op : Operator, json = taggedJson op.tag ↔ value.operator? = some op) ∧
    ∀ m, value.node? = some m → json = .object m.members

theorem shows_members {n : Node} (h : n.FollowsSchema) : n.Shows n.members := by
  have hnodup := members_nodup h
  have hmember : ∀ member ∈ n.members, Json.member? member.1 n.members = some member.2 := by
    intro member hmember
    rw [Json.member?_eq_lookup hnodup, lookup_eq_some_iff_mem hnodup]
    exact hmember
  obtain ⟨construct, fields, position⟩ := n
  refine ⟨fun c => ?_, fun member hposition => ?_, fun slot hslot => ?_⟩
  · rw [hmember ("_type", .string construct.tag) List.mem_cons_self]
    simp [Construct.tag_injective.eq_iff, Node.construct]
  · exact hmember member (List.mem_cons_of_mem _ (List.mem_append_right _ hposition))
  · have hslots : (fields.map Prod.fst).Nodup := h ▸ construct.slots_nodup
    rw [← h] at hslot
    obtain ⟨⟨slot, value⟩, hfield, rfl⟩ := List.mem_map.mp hslot
    have hget : (mk construct fields position).get? slot = some value :=
      (lookup_eq_some_iff_mem hslots).mpr hfield
    have hown : (slot, value.dump.toJson) ∈ Dump.fieldMembers (dumpFields fields) := by
      rw [fieldMembers_dumpFields]
      exact List.mem_map.mpr ⟨_, hfield, rfl⟩
    refine ⟨value, value.dump.toJson, hget, ?_,
      hmember (slot, value.dump.toJson) (List.mem_cons_of_mem _ (List.mem_append_left _ hown)),
      Value.toJson_dump_eq_null_iff, fun op => Value.toJson_dump_eq_taggedJson_iff, ?_⟩
    · rw [dump_get?, hget]
      rfl
    · intro m hm
      rw [Value.dump_of_node? hm, toJson_dump]

/-- In a lowered module, the object of every node shows the node. -/
theorem shows_of_transform {options : Options} {tree : ParseTree} {n m : Node}
    (h : transform options tree = .ok n) (hm : m ∈ n.subtrees) :
    m.dump.toJson = .object m.members ∧ m.Shows m.members := by
  have hschema := followsSchema_of_reduce (reduce_of_transform h) n (by simp)
  exact ⟨m.toJson_dump, shows_members (hschema m hm)⟩

end Node

end TreeLowering
