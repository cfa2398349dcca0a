/-
# Outcomes of checked steps

A step of a reduction fails with a report of what it found, or yields a value of which
something is known. Outcomes of single steps compose along the steps of a handler, so a
handler has one law that speaks about its success and its failure together. Faults in
the slots of a node and failures attributed to a rule are no reports: no handler may
fail with one.
-/

import Mathlib.Data.List.Forall2
import TreeLowering.Error

namespace TreeLowering

/-- A failure that names what was found in the place of what was looked for. -/
def Error.IsReport : Error → Prop
  | .unrecognized .. | .ambiguousBoolean .. | .shape .. => True
  | _ => False

/-- A report is attributed to the rule that makes it. -/
theorem Error.IsReport.within_eq {e : Error} (h : e.IsReport) (rule : String)
    (position : Position) : e.within rule position = .inRule rule position e := by
  cases e <;> first | rfl | exact h.elim

/-- A report is the cause of itself. -/
theorem Error.IsReport.rootCause_eq {e : Error} (h : e.IsReport) : e.rootCause = e := by
  cases e <;> first | rfl | exact h.elim

/-- Every element on the right of related lists is related to one on the left. -/
theorem exists_of_forall₂_right {α β : Type} {related : α → β → Prop} {items : List α}
    {values : List β} (h : List.Forall₂ related items values) {value : β}
    (hvalue : value ∈ values) : ∃ item ∈ items, related item value := by
  induction h with
  | nil => cases hvalue
  | cons hhead _ ih =>
      rcases List.mem_cons.mp hvalue with rfl | hrest
      · exact ⟨_, List.mem_cons_self, hhead⟩
      · obtain ⟨item, hitem, hrelated⟩ := ih hrest
        exact ⟨item, List.mem_cons_of_mem _ hitem, hrelated⟩

/-- A step in two parts succeeds when both do. -/
theorem bind_eq_ok_iff {α β : Type} {first : Except Error α} {next : α → Except Error β}
    {result : β} :
    first >>= next = .ok result ↔ ∃ value, first = .ok value ∧ next value = .ok result := by
  cases first with
  | ok value => simp [bind, Except.bind]
  | error e => simp [bind, Except.bind]

theorem map_eq_ok_iff {α β : Type} {outcome : Except Error α} {f : α → β} {result : β} :
    outcome.map f = .ok result ↔ ∃ value, outcome = .ok value ∧ f value = result := by
  cases outcome with
  | ok value => simp [Except.map]
  | error e => simp [Except.map]

theorem exists_of_bind_eq_ok {α β : Type} {first : Except Error α} {next : α → Except Error β}
    {result : β} (h : first >>= next = .ok result) :
    ∃ value, first = .ok value ∧ next value = .ok result :=
  bind_eq_ok_iff.mp h

theorem exists_of_map_eq_ok {α β : Type} {outcome : Except Error α} {f : α → β} {result : β}
    (h : outcome.map f = .ok result) : ∃ value, outcome = .ok value ∧ f value = result :=
  map_eq_ok_iff.mp h

/-- The outcome is a report, or a value with a property. -/
def Yields {α : Type} (outcome : Except Error α) (holds : α → Prop) : Prop :=
  match outcome with
  | .ok value => holds value
  | .error e => e.IsReport

namespace Yields

variable {α β : Type} {outcome : Except Error α} {holds : α → Prop}

theorem ok {value : α} (h : holds value) : Yields (.ok value) holds := h

theorem error {e : Error} (h : e.IsReport) : Yields (.error e) holds := h

theorem of_ok (h : Yields outcome holds) {value : α} (hok : outcome = .ok value) :
    holds value := by
  subst hok
  exact h

theorem of_error (h : Yields outcome holds) {e : Error} (herror : outcome = .error e) :
    e.IsReport := by
  subst herror
  exact h

theorem mono (h : Yields outcome holds) {weaker : α → Prop}
    (himp : ∀ value, holds value → weaker value) : Yields outcome weaker := by
  cases outcome with
  | ok value => exact himp value h
  | error e => exact h

theorem and (h : Yields outcome holds) {other : α → Prop} (hother : Yields outcome other) :
    Yields outcome fun value => holds value ∧ other value := by
  cases outcome with
  | ok value => exact ⟨h, hother⟩
  | error e => exact h

/-- What a step yields is known together with its outcome. -/
theorem and_eq (h : Yields outcome holds) :
    Yields outcome fun value => holds value ∧ outcome = .ok value := by
  cases outcome with
  | ok value => exact ⟨h, rfl⟩
  | error e => exact h

/-- What a step yields, the rest of the steps may use. -/
theorem bind (h : Yields outcome holds) {next : α → Except Error β} {result : β → Prop}
    (hnext : ∀ value, holds value → Yields (next value) result) :
    Yields (outcome >>= next) result := by
  cases outcome with
  | ok value => exact hnext value h
  | error e => exact h

theorem map (h : Yields outcome holds) {f : α → β} {result : β → Prop}
    (himp : ∀ value, holds value → result (f value)) : Yields (outcome.map f) result := by
  cases outcome with
  | ok value => exact himp value h
  | error e => exact h

/-- Elementwise steps yield elementwise. -/
theorem mapM {f : α → Except Error β} {related : α → β → Prop} :
    ∀ {items : List α}, (∀ item ∈ items, Yields (f item) (related item)) →
      Yields (items.mapM f) (List.Forall₂ related items)
  | [], _ => by
      rw [List.mapM_nil]
      exact ok .nil
  | item :: rest, h => by
      rw [List.mapM_cons]
      apply bind (h item List.mem_cons_self)
      intro value hvalue
      apply bind (mapM fun other hother => h other (List.mem_cons_of_mem _ hother))
      intro values hvalues
      exact ok (.cons hvalue hvalues)

/-- Elementwise steps that say something about what they are given say it of all. -/
theorem mapM_forall {f : α → Except Error β} {items : List α} {holds : α → Prop}
    (h : ∀ item ∈ items, Yields (f item) fun _ => holds item) :
    Yields (items.mapM f) fun _ => ∀ item ∈ items, holds item := by
  apply (mapM h).mono
  intro values hvalues
  induction hvalues with
  | nil => simp
  | cons hitem _ ih =>
      exact List.forall_mem_cons.mpr
        ⟨hitem, ih fun other hother => h other (List.mem_cons_of_mem _ hother)⟩

/-- A run of steps over a list keeps what every step keeps. The invariant speaks about
the items done so far and the state that they lead to. -/
theorem foldlM_append {f : β → α → Except Error β} {motive : List α → β → Prop}
    (step : ∀ done item state, motive done state →
      Yields (f state item) (motive (done ++ [item]))) :
    ∀ (items : List α) {done : List α} {state : β}, motive done state →
      Yields (items.foldlM f state) (motive (done ++ items))
  | [], done, state, h => by
      rw [List.foldlM_nil, List.append_nil]
      exact ok h
  | item :: rest, done, state, h => by
      rw [List.foldlM_cons]
      apply bind (step done item state h)
      intro next hnext
      simpa using foldlM_append step rest hnext

theorem foldlM {f : β → α → Except Error β} {motive : List α → β → Prop} {start : β}
    (step : ∀ done item state, motive done state →
      Yields (f state item) (motive (done ++ [item])))
    (init : motive [] start) (items : List α) : Yields (items.foldlM f start) (motive items) :=
  foldlM_append step items init

end Yields

end TreeLowering
