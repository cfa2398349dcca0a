/-
# Nesting

How deep the containers of a value are nested, and what a limit on it means to the reader: it
refuses the texts of values nested deeper, and changes nothing otherwise.
-/

import Mathlib.Order.Lattice.Nat
import TreeLowering.Json.Read

namespace TreeLowering.Json

open TreeLowering.Number

variable {n : ℕ} {value : Json} {reader reader' : Reader} {lexeme : Lexeme} {frames : List Frame}

/-! ## Values -/

mutual

/-- The number of containers around the innermost part of a value. -/
def nesting : Json → ℕ
  | .array items => nestingOfItems items + 1
  | .object members => nestingOfMembers members + 1
  | _ => 0

/-- The nesting of the deepest of several items. -/
def nestingOfItems : List Json → ℕ
  | [] => 0
  | item :: rest => max (nesting item) (nestingOfItems rest)

/-- The nesting of the deepest of the values of several members. -/
def nestingOfMembers : List (String × Json) → ℕ
  | [] => 0
  | (_, value) :: rest => max (nesting value) (nestingOfMembers rest)

end

theorem nestingOfItems_le {items : List Json} :
    nestingOfItems items ≤ n ↔ ∀ item ∈ items, item.nesting ≤ n := by
  induction items with
  | nil => simp [nestingOfItems]
  | cons item rest ih => simp [nestingOfItems, ih]

theorem nestingOfMembers_le {members : List (String × Json)} :
    nestingOfMembers members ≤ n ↔ ∀ member ∈ members, member.2.nesting ≤ n := by
  induction members with
  | nil => simp [nestingOfMembers]
  | cons member rest ih => simp [nestingOfMembers, ih]

/-- The order of items does not matter to their nesting. -/
theorem nestingOfItems_reverse (items : List Json) :
    nestingOfItems items.reverse = nestingOfItems items :=
  eq_of_forall_ge_iff fun n => by simp [nestingOfItems_le]

theorem nestingOfMembers_reverse (members : List (String × Json)) :
    nestingOfMembers members.reverse = nestingOfMembers members :=
  eq_of_forall_ge_iff fun n => by simp [nestingOfMembers_le]

/-! ## Lexemes without inner structure -/

/-- A value kept in a lexeme has no inner structure. -/
def Lexeme.IsFlat : Lexeme → Prop
  | .scalar value => value.nesting = 0
  | _ => True

theorem nesting_of_float? {negative : Bool} {text : List Char}
    (h : float? negative text = some value) : value.nesting = 0 := by
  rw [float?] at h
  split at h
  · obtain ⟨x, -, rfl⟩ := Option.map_eq_some_iff.1 h
    rfl
  · cases h

theorem nesting_of_magnitude? {negative : Bool} {text : List Char}
    (h : magnitude? negative text = some value) : value.nesting = 0 := by
  rw [magnitude?] at h
  split at h
  · split at h
    · cases h
    · split at h
      · split at h
        · cases h
          rfl
        · exact nesting_of_float? h
      · split at h
        · cases h
          rfl
        · exact nesting_of_float? h
  · exact nesting_of_float? h

theorem nesting_of_number? {text : List Char} (h : number? text = some value) :
    value.nesting = 0 := by
  rw [number?.eq_def] at h
  split at h <;> exact nesting_of_magnitude? h

theorem nesting_of_word? {text : List Char} (h : word? text = some value) :
    value.nesting = 0 := by
  rw [word?] at h
  split at h
  · cases h
    rfl
  · split at h
    · cases h
      rfl
    · split at h
      · cases h
        rfl
      · cases h

/-- A step of the lexer, if it succeeds, completes no lexemes but flat ones. -/
def GivesFlat (step : Option (LexerState × List Lexeme)) : Prop :=
  ∀ state lexemes, step = some (state, lexemes) → ∀ lexeme ∈ lexemes, lexeme.IsFlat

theorem givesFlat_none : GivesFlat none := by
  intro _ _ h
  cases h

theorem givesFlat_some {state : LexerState} {lexemes : List Lexeme}
    (h : ∀ lexeme ∈ lexemes, lexeme.IsFlat) : GivesFlat (some (state, lexemes)) := by
  rintro _ _ ⟨rfl⟩
  exact h

theorem givesFlat_nil {state : LexerState} : GivesFlat (some (state, [])) :=
  givesFlat_some (by simp)

theorem givesFlat_map {α : Type} {found : Option α} {state : α → LexerState} :
    GivesFlat (found.map fun a => (state a, [])) := by
  cases found with
  | none => exact givesFlat_none
  | some a => exact givesFlat_nil

theorem givesFlat_ite {p : Prop} [Decidable p] {first second : Option (LexerState × List Lexeme)}
    (hfirst : GivesFlat first) (hsecond : GivesFlat second) :
    GivesFlat (if p then first else second) := by
  split
  · exact hfirst
  · exact hsecond

theorem givesFlat_beginLexeme (c : Char) : GivesFlat (beginLexeme c) := by
  have hsingle : ∀ lexeme : Lexeme, lexeme.IsFlat → GivesFlat (some (.between, [lexeme])) :=
    fun lexeme h => givesFlat_some (by simpa using h)
  rw [beginLexeme]
  refine givesFlat_ite givesFlat_nil (givesFlat_ite (hsingle _ trivial)
    (givesFlat_ite (hsingle _ trivial) (givesFlat_ite (hsingle _ trivial)
    (givesFlat_ite (hsingle _ trivial) (givesFlat_ite (hsingle _ trivial)
    (givesFlat_ite (hsingle _ trivial) ?_))))))
  exact givesFlat_ite givesFlat_nil (givesFlat_ite givesFlat_nil
    (givesFlat_ite givesFlat_nil givesFlat_none))

theorem givesFlat_endLexeme {ended : Option Json} (c : Char)
    (hended : ∀ value, ended = some value → value.nesting = 0) :
    GivesFlat (endLexeme ended c) := by
  rw [endLexeme.eq_def]
  split
  · rename_i value state lexemes hbegin
    have hlexemes := givesFlat_beginLexeme c state lexemes hbegin
    exact givesFlat_some (List.forall_mem_cons.2 ⟨hended value rfl, hlexemes⟩)
  · exact givesFlat_none

theorem givesFlat_lexStep (state : LexerState) (c : Char) : GivesFlat (lexStep state c) := by
  cases state with
  | between => exact givesFlat_beginLexeme c
  | number text =>
      exact givesFlat_ite givesFlat_nil (givesFlat_endLexeme c fun _ => nesting_of_number?)
  | word text =>
      exact givesFlat_ite givesFlat_nil (givesFlat_endLexeme c fun _ => nesting_of_word?)
  | string text =>
      refine givesFlat_ite (givesFlat_some ?_) (givesFlat_ite givesFlat_nil
        (givesFlat_ite givesFlat_none givesFlat_nil))
      simp [Lexeme.IsFlat, nesting]
  | escape text => exact givesFlat_ite givesFlat_nil givesFlat_map
  | unit text high digits value =>
      rw [lexStep]
      split
      · exact givesFlat_none
      · exact givesFlat_ite givesFlat_nil givesFlat_map
  | pairBackslash text high => exact givesFlat_ite givesFlat_nil givesFlat_none
  | pairLetter text high => exact givesFlat_ite givesFlat_nil givesFlat_none

theorem flat_of_lexEnd {state : LexerState} {lexemes : List Lexeme}
    (h : lexEnd state = some lexemes) : ∀ lexeme ∈ lexemes, lexeme.IsFlat := by
  rw [lexEnd.eq_def] at h
  split at h
  · cases h
    simp
  · obtain ⟨value, hvalue, rfl⟩ := Option.map_eq_some_iff.1 h
    simpa [Lexeme.IsFlat] using nesting_of_number? hvalue
  · obtain ⟨value, hvalue, rfl⟩ := Option.map_eq_some_iff.1 h
    simpa [Lexeme.IsFlat] using nesting_of_word? hvalue
  · cases h

theorem flat_of_lexFrom {text : List Char} {state : LexerState} {read lexemes : List Lexeme}
    (hread : ∀ lexeme ∈ read, lexeme.IsFlat) (h : lexFrom state read text = some lexemes) :
    ∀ lexeme ∈ lexemes, lexeme.IsFlat := by
  induction text generalizing state read with
  | nil =>
      obtain ⟨last, hlast, rfl⟩ := Option.map_eq_some_iff.1 h
      intro lexeme hlexeme
      rcases List.mem_append.1 hlexeme with hlexeme | hlexeme
      · exact hread lexeme (List.mem_reverse.1 hlexeme)
      · exact flat_of_lexEnd hlast lexeme hlexeme
  | cons c rest ih =>
      rw [lexFrom] at h
      split at h
      · cases h
      · rename_i state' found hstep
        refine ih (fun lexeme hlexeme => ?_) h
        rcases List.mem_append.1 hlexeme with hlexeme | hlexeme
        · exact givesFlat_lexStep _ c _ _ hstep lexeme (List.mem_reverse.1 hlexeme)
        · exact hread lexeme hlexeme

/-- The lexemes of a text keep no containers. -/
theorem flat_of_lexemes? {text : String} {lexemes : List Lexeme}
    (h : lexemes? text = some lexemes) : ∀ lexeme ∈ lexemes, lexeme.IsFlat :=
  flat_of_lexFrom (by simp) h

/-! ## The reader -/

/-- The nesting of what a container under way has collected. -/
def Frame.nesting : Frame → ℕ
  | .items read => nestingOfItems read
  | .members read => nestingOfMembers read
  | .member read _ => nestingOfMembers read

/-- How deep the containers under way are nested, with what they have collected. -/
def depth : List Frame → ℕ
  | [] => 0
  | frame :: outer => max (outer.length + 1 + frame.nesting) (depth outer)

/-- The nesting of a value that is complete. -/
def Expectation.nesting : Expectation → ℕ
  | .separator last => last.nesting
  | _ => 0

namespace Reader

/-- How deep the text has been nested so far. -/
def reach (reader : Reader) : ℕ :=
  max (reader.frames.length + reader.next.nesting) (depth reader.frames)

/-- A container that has just been opened is the innermost one, and is empty. -/
def Sound (reader : Reader) : Prop :=
  match reader.next with
  | .firstItem => ∃ outer, reader.frames = .items [] :: outer
  | .firstKey => ∃ outer, reader.frames = .members [] :: outer
  | _ => True

end Reader

/-- What a lexeme does to the reader: it is let pass under every limit and the reach stays, or
it opens a container, which the limit must allow. -/
inductive Passes (reader : Reader) (lexeme : Lexeme) (reader' : Reader) : Prop
  | level (sound : reader'.Sound) (reach : reader'.reach = reader.reach)
      (step : ∀ limit, readStep limit reader lexeme = some reader')
  | opened (sound : reader'.Sound)
      (reach : reader'.reach = max reader.reach (reader.frames.length + 1))
      (step : ∀ limit, readStep limit reader lexeme =
        if mayOpen limit reader.frames then some reader' else none)

theorem length_le_depth (frames : List Frame) : frames.length ≤ depth frames := by
  cases frames with
  | nil => simp [depth]
  | cons frame outer => simp only [depth, List.length_cons]; omega

theorem passes_of_beginValue (hflat : lexeme.IsFlat) {next : Expectation} (hnext : next.nesting = 0)
    (hstep : ∀ limit, readStep limit ⟨frames, next⟩ lexeme = beginValue limit frames lexeme)
    (h : beginValue none frames lexeme = some reader') : Passes ⟨frames, next⟩ lexeme reader' := by
  have hlength := length_le_depth frames
  cases lexeme with
  | scalar value =>
      cases h
      refine .level trivial ?_ fun limit => hstep limit
      simp only [Lexeme.IsFlat] at hflat
      simp only [Reader.reach, hnext]
      simp only [Expectation.nesting, hflat]
  | openArray =>
      cases h
      refine .opened ⟨frames, rfl⟩ ?_ fun limit => hstep limit
      simp only [Reader.reach, hnext]
      simp only [Expectation.nesting, depth, Frame.nesting, nestingOfItems, List.length_cons]
      omega
  | openObject =>
      cases h
      refine .opened ⟨frames, rfl⟩ ?_ fun limit => hstep limit
      simp only [Reader.reach, hnext]
      simp only [Expectation.nesting, depth, Frame.nesting, nestingOfMembers, List.length_cons]
      omega
  | _ => cases h

theorem passes_of_takeKey {next : Expectation} (hnext : next.nesting = 0)
    (hstep : ∀ limit, readStep limit ⟨frames, next⟩ lexeme = takeKey frames lexeme)
    (h : takeKey frames lexeme = some reader') : Passes ⟨frames, next⟩ lexeme reader' := by
  rw [takeKey.eq_def] at h
  split at h
  · rename_i read outer key
    cases h
    refine .level trivial ?_ fun limit => hstep limit
    simp only [Reader.reach, hnext]
    simp only [Expectation.nesting, depth, Frame.nesting, List.length_cons]
  · cases h

theorem passes_of_endValue {last : Json} (h : endValue last frames lexeme = some reader') :
    Passes ⟨frames, .separator last⟩ lexeme reader' := by
  rw [endValue.eq_def] at h
  split at h
  · rename_i read outer
    cases h
    refine .level trivial ?_ fun limit => rfl
    simp only [Reader.reach, Expectation.nesting, depth, Frame.nesting, nestingOfItems,
      List.length_cons]
    omega
  · rename_i read outer
    cases h
    refine .level trivial ?_ fun limit => rfl
    simp only [Reader.reach, Expectation.nesting, depth, Frame.nesting, nestingOfItems, nesting,
      nestingOfItems_reverse, List.length_cons]
    omega
  · rename_i read key outer
    cases h
    refine .level trivial ?_ fun limit => rfl
    simp only [Reader.reach, Expectation.nesting, depth, Frame.nesting, nestingOfMembers,
      List.length_cons]
    omega
  · rename_i read key outer
    cases h
    refine .level trivial ?_ fun limit => rfl
    simp only [Reader.reach, Expectation.nesting, depth, Frame.nesting, nestingOfMembers, nesting,
      nestingOfMembers_reverse, List.length_cons]
    omega
  · cases h

/-- Every step of the reader passes in one of the two ways. -/
theorem passes_of_readStep (hsound : reader.Sound) (hflat : lexeme.IsFlat)
    (h : readStep none reader lexeme = some reader') : Passes reader lexeme reader' := by
  obtain ⟨frames, next⟩ := reader
  cases next with
  | value => exact passes_of_beginValue hflat rfl (fun _ => rfl) h
  | firstItem =>
      obtain ⟨outer, rfl⟩ : ∃ outer, frames = .items [] :: outer := hsound
      cases lexeme with
      | closeArray =>
          cases h
          refine .level trivial ?_ fun limit => rfl
          simp only [Reader.reach, Expectation.nesting, depth, Frame.nesting, nestingOfItems,
            nesting, List.tail_cons, List.length_cons]
          omega
      | _ => exact passes_of_beginValue hflat rfl (fun _ => rfl) h
  | key => exact passes_of_takeKey rfl (fun _ => rfl) h
  | firstKey =>
      obtain ⟨outer, rfl⟩ : ∃ outer, frames = .members [] :: outer := hsound
      cases lexeme with
      | closeObject =>
          cases h
          refine .level trivial ?_ fun limit => rfl
          simp only [Reader.reach, Expectation.nesting, depth, Frame.nesting, nestingOfMembers,
            nesting, List.tail_cons, List.length_cons]
          omega
      | _ => exact passes_of_takeKey rfl (fun _ => rfl) h
  | colon =>
      cases lexeme with
      | colon =>
          cases h
          exact .level trivial rfl fun limit => rfl
      | _ => cases h
  | separator last => exact passes_of_endValue h

/-- A limit allows nothing that is refused without it. -/
theorem readStep_eq_none (h : readStep none reader lexeme = none) (limit : Option ℕ) :
    readStep limit reader lexeme = none := by
  have hbegin : ∀ frames, beginValue none frames lexeme = none →
      beginValue limit frames lexeme = none := by
    intro frames hnone
    cases lexeme <;> first | rfl | cases hnone
  obtain ⟨frames, next⟩ := reader
  cases next with
  | value => exact hbegin frames h
  | firstItem => cases lexeme <;> first | exact hbegin frames h | cases h
  | firstKey | colon => cases lexeme <;> exact h
  | key | separator => exact h

theorem Passes.sound (h : Passes reader lexeme reader') : reader'.Sound := by
  cases h with
  | level sound => exact sound
  | opened sound => exact sound

theorem Passes.reach_le (h : Passes reader lexeme reader') : reader.reach ≤ reader'.reach := by
  cases h with
  | level _ reach => omega
  | opened _ reach => omega

/-- What has been reached once counts up to the end. -/
theorem reach_le_of_foldlM {lexemes : List Lexeme} (hsound : reader.Sound)
    (hflat : ∀ lexeme ∈ lexemes, lexeme.IsFlat)
    (h : lexemes.foldlM (readStep none) reader = some reader') :
    reader.reach ≤ reader'.reach := by
  induction lexemes generalizing reader with
  | nil =>
      cases h
      exact le_rfl
  | cons lexeme rest ih =>
      obtain ⟨hlexeme, hrest⟩ := List.forall_mem_cons.1 hflat
      obtain ⟨middle, hstep, h⟩ := Option.bind_eq_some_iff.1 h
      have hpasses := passes_of_readStep hsound hlexeme hstep
      exact hpasses.reach_le.trans (ih hpasses.sound hrest h)

/-- Under a limit the reader comes to the same end, unless it has reached beyond. -/
theorem foldlM_readStep_limit {lexemes : List Lexeme} (hsound : reader.Sound)
    (hflat : ∀ lexeme ∈ lexemes, lexeme.IsFlat) (hreach : reader.reach ≤ n) :
    lexemes.foldlM (readStep (some n)) reader =
      (lexemes.foldlM (readStep none) reader).filter fun r => r.reach ≤ n := by
  induction lexemes generalizing reader with
  | nil => simp [Option.filter, hreach]
  | cons lexeme rest ih =>
      obtain ⟨hlexeme, hrest⟩ := List.forall_mem_cons.1 hflat
      rw [List.foldlM_cons, List.foldlM_cons]
      cases hstep : readStep none reader lexeme with
      | none => simp [readStep_eq_none hstep]
      | some middle =>
          have hpasses := passes_of_readStep hsound hlexeme hstep
          have hkept := fun hmiddle => ih hpasses.sound hrest hmiddle
          cases hpasses with
          | level sound reach step =>
              rw [step]
              exact hkept (by omega)
          | opened sound reach step =>
              rw [step]
              by_cases hopen : reader.frames.length < n
              · rw [if_pos (by simpa [mayOpen] using hopen)]
                exact hkept (by omega)
              · -- The limit refuses the container, and without it the reader ends beyond.
                rw [if_neg (by simpa [mayOpen] using hopen)]
                refine (Option.filter_eq_none_iff.2 fun last hlast => ?_).symm
                have hlast := reach_le_of_foldlM sound hrest hlast
                simp only [decide_eq_true_eq]
                omega

theorem reach_of_result? (h : reader.result? = some value) : reader.reach = value.nesting := by
  rw [Reader.result?.eq_def] at h
  split at h
  · cases h
    simp [Reader.reach, Expectation.nesting, depth]
  · cases h

/-- With a limit, a text denotes what it denotes without, unless that is nested deeper. -/
theorem parse?_limit (n : ℕ) (text : String) :
    parse? (some n) text = (parse? none text).filter fun value => value.nesting ≤ n := by
  rw [parse?, parse?]
  cases hlexemes : lexemes? text with
  | none => rfl
  | some lexemes =>
      have hfold : lexemes.foldlM (readStep (some n)) ⟨[], .value⟩ =
          (lexemes.foldlM (readStep none) ⟨[], .value⟩).filter fun r => r.reach ≤ n :=
        foldlM_readStep_limit trivial (flat_of_lexemes? hlexemes) (Nat.zero_le n)
      simp only [Option.bind_some, ofLexemes?, hfold]
      cases lexemes.foldlM (readStep none) ⟨[], .value⟩ with
      | none => rfl
      | some last =>
          cases hresult : last.result? with
          | none => by_cases hn : last.reach ≤ n <;> simp [Option.filter, hn, hresult]
          | some value =>
              have hreach := reach_of_result? hresult
              by_cases hn : value.nesting ≤ n <;> simp [Option.filter, hreach, hn, hresult]

end TreeLowering.Json
