/-
# Queues of parts

The parts of a reduction as a queue that is used up from both ends. A step takes its
part whether or not the part is of the expected kind, and returns the queue that is
left. Steps follow one another until the first failure.
-/

import TreeLowering.Reduced.Parts

namespace TreeLowering

namespace Reduced.Queue

variable (items : List Reduced)

/-- The first part. -/
def next : Option Reduced × List Reduced :=
  (items.head?, items.tail)

/-- The last part. -/
def nextBack : Option Reduced × List Reduced :=
  (items.getLast?, items.dropLast)

/-- The first part as a node. -/
def node (what : String) : Except Error Node × List Reduced :=
  (expectNode what items.head?, items.tail)

/-- The last part as a node. -/
def nodeBack (what : String) : Except Error Node × List Reduced :=
  (expectNode what items.getLast?, items.dropLast)

/-- The first part as an optional node. -/
def optionalNode (what : String) : Except Error (Option Node) × List Reduced :=
  (Reduced.optionalNode what items.head?, items.tail)

/-- The first part as an identifier. -/
def identifier (what : String) : Except Error String × List Reduced :=
  (Reduced.identifier what items.head?, items.tail)

/-- The end, at which nothing may be left over. -/
def done : Except Error Unit × List Reduced :=
  (noMore items, [])

/-- Everything that is left. -/
def drain : List Reduced × List Reduced :=
  (items, [])

end Reduced.Queue

/-- Steps over a queue of parts, each with its answer and the queue that is left. -/
abbrev Reading : Type → Type :=
  ExceptT Error (StateM (List Reduced))

namespace Reading

open TreeLowering.Reduced

variable {α β : Type}

/-- The answer to a queue of given parts. -/
def answer (step : Reading α) (items : List Reduced) : Except Error α :=
  (step items).1

/-! ## Steps -/

/-- The first part, whatever it is. -/
def next : Reading (Option Reduced) := fun items =>
  (Queue.next items).map .ok id

/-- The last part, whatever it is. -/
def nextBack : Reading (Option Reduced) := fun items =>
  (Queue.nextBack items).map .ok id

/-- The first part, which must be a node. -/
def node (what : String) : Reading Node := fun items =>
  Queue.node items what

/-- The last part, which must be a node. -/
def nodeBack (what : String) : Reading Node := fun items =>
  Queue.nodeBack items what

/-- The first part, which may be a node or missing. -/
def optionalNode (what : String) : Reading (Option Node) := fun items =>
  Queue.optionalNode items what

/-- The first part, which must be an identifier. -/
def identifier (what : String) : Reading String := fun items =>
  Queue.identifier items what

/-- The end of the queue. -/
def done : Reading Unit :=
  Queue.done

/-- A failure, whatever is left. -/
def error (e : Error) : Reading α :=
  throw e

/-- All parts that are left. -/
def drain : Reading (List Reduced) := fun items =>
  (Queue.drain items).map .ok id

/-! ## Answers

The answer of a sequence of steps by the places of the parts that they take. -/

variable (items : List Reduced) (what : String)

/-- A sequence goes on with the parts that its first step leaves. -/
theorem answer_bind (step : Reading α) (rest : α → Reading β) :
    (step >>= rest).answer items =
      step.answer items >>= fun value => (rest value).answer (step items).2 := by
  simp only [answer, bind, ExceptT.bind, ExceptT.mk, StateT.bind]
  rcases step items with ⟨_ | _, _⟩ <;> rfl

@[simp]
theorem answer_pure (value : α) : (pure value : Reading α).answer items = .ok value := rfl

@[simp]
theorem answer_map (f : α → β) (step : Reading α) :
    (f <$> step).answer items = step.answer items >>= fun value => .ok (f value) := by
  rw [← bind_pure_comp, answer_bind]
  rfl

@[simp]
theorem answer_error (e : Error) : (error e : Reading α).answer items = .error e := rfl

@[simp]
theorem answer_ite (condition : Prop) [Decidable condition] (step other : Reading α) :
    (if condition then step else other).answer items =
      if condition then step.answer items else other.answer items :=
  apply_ite (answer · items) ..

@[simp]
theorem answer_liftM (outcome : Except Error α) :
    (liftM outcome : Reading α).answer items = outcome := rfl

@[simp]
theorem answer_liftM_bind (outcome : Except Error α) (rest : α → Reading β) :
    (liftM outcome >>= rest).answer items = outcome >>= fun value => (rest value).answer items :=
  answer_bind ..

@[simp]
theorem answer_next_bind (rest : Option Reduced → Reading β) :
    (next >>= rest).answer items = (rest items[0]?).answer (items.drop 1) := by
  cases items <;> rfl

@[simp]
theorem answer_nextBack_bind (rest : Option Reduced → Reading β) :
    (nextBack >>= rest).answer items = (rest items.getLast?).answer items.dropLast := rfl

@[simp]
theorem answer_node_bind (rest : Node → Reading β) :
    (node what >>= rest).answer items =
      expectNode what items[0]? >>= fun n => (rest n).answer (items.drop 1) := by
  rw [answer_bind, ← List.head?_eq_getElem?, List.drop_one]
  rfl

@[simp]
theorem answer_optionalNode_bind (rest : Option Node → Reading β) :
    (optionalNode what >>= rest).answer items =
      Reduced.optionalNode what items[0]? >>= fun n => (rest n).answer (items.drop 1) := by
  rw [answer_bind, ← List.head?_eq_getElem?, List.drop_one]
  rfl

@[simp]
theorem answer_identifier_bind (rest : String → Reading β) :
    (identifier what >>= rest).answer items =
      Reduced.identifier what items[0]? >>= fun id => (rest id).answer (items.drop 1) := by
  rw [answer_bind, ← List.head?_eq_getElem?, List.drop_one]
  rfl

@[simp]
theorem answer_nodeBack_bind (rest : Node → Reading β) :
    (nodeBack what >>= rest).answer items =
      expectNode what items.getLast? >>= fun n => (rest n).answer items.dropLast :=
  answer_bind ..

@[simp]
theorem answer_done : done.answer items = noMore items := rfl

@[simp]
theorem answer_done_bind (rest : Unit → Reading β) :
    (done >>= rest).answer items = noMore items >>= fun _ => (rest ()).answer [] :=
  answer_bind ..

@[simp]
theorem answer_drain_bind (rest : List Reduced → Reading β) :
    (drain >>= rest).answer items = (rest items).answer [] := rfl

end Reading

end TreeLowering
