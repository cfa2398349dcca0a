/-
# Checking and lowering

The two tasks go the same way up to what they print: they fail in the same cases and with the
same failure, and otherwise the line that one prints reports on the tree that the other prints.
The flag that keeps fractions does what a file with that choice does.
-/

import TreeLowering.Proofs.Census
import TreeLowering.Proofs.JobArguments

namespace TreeLowering.Command

variable {ε : Type} {files : String → Option String} {file preserving : String}
  {config? : Option String} {preserveFloats compact : Bool} {options : Options} {root : Node}

/-- The form in which a tree is written. -/
def form (compact : Bool) : Json → String :=
  if compact then Json.compact else Json.pretty

/-- What the two tasks give: the same failure, or a line and a tree in a given form. The line
says how many items the body of the tree has and how many objects in it tell a line. -/
inductive Agree (compact : Bool) (ending : String) : Except ε String → Except ε String → Prop
  | failed (cause : ε) : Agree compact ending (.error cause) (.error cause)
  | printed {line text : String} {members : List (String × Json)} {items : List Json}
      (body : Json.member? "body" members = some (.array items))
      (reported : line =
        summaryLine items.length ((Json.object members).objectsWith "lineno") ++ ending)
      (written : text = form compact (.object members) ++ ending) :
      Agree compact ending (.ok line) (.ok text)

/-! ## Jobs -/

theorem job_run (files : String → Option String) (job : Job) :
    job.run (m := Id) files =
      (loadOptions (m := Id) files job.config?).bind fun options =>
        (lowerFile (m := Id) files (job.override options) job.file).map job.render := by
  rw [Job.run]
  cases loadOptions (m := Id) files job.config? with
  | error e => rfl
  | ok options =>
      dsimp only [bind, Except.bind]
      cases lowerFile (m := Id) files (job.override options) job.file <;> rfl

/-- A module comes from a tree in the file. -/
theorem transform_of_lowerFile (h : lowerFile (m := Id) files options file = .ok root) :
    ∃ tree, transform options tree = .ok root := by
  rw [lowerFile] at h
  dsimp only [bind, pure] at h
  split at h
  · cases h
  · split at h
    · cases h
    · exact ⟨_, h⟩

theorem agree_render {tree : ParseTree} (h : transform options tree = .ok root) (ending : String) :
    Agree compact ending
      (.ok (Job.render ⟨.check, file, config?, false, false⟩ root ++ ending) : Except ε String)
      (.ok (Job.render ⟨.lower, file, config?, preserveFloats, compact⟩ root ++ ending)) := by
  obtain ⟨members, items, hjson, hbody, hsummary⟩ := summary_of_transform h
  refine .printed hbody (congrArg (· ++ ending) hsummary) ?_
  cases compact <;> simp [Job.render, form, hjson]

/-- The two tasks agree on every file, under the same options. -/
theorem agree_jobs (files : String → Option String) (file : String) (config? : Option String)
    (compact : Bool) :
    Agree compact "" (Job.run (m := Id) files ⟨.check, file, config?, false, false⟩)
      (Job.run (m := Id) files ⟨.lower, file, config?, false, compact⟩) := by
  rw [job_run, job_run]
  cases loadOptions (m := Id) files config? with
  | error e => exact .failed e
  | ok options =>
      show Agree compact "" ((lowerFile (m := Id) files options file).map _)
        ((lowerFile (m := Id) files options file).map _)
      cases hroot : lowerFile (m := Id) files options file with
      | error e => exact .failed e
      | ok root =>
          obtain ⟨tree, htree⟩ := transform_of_lowerFile hroot
          simpa [Except.map] using agree_render htree ""

/-- With the flag that keeps fractions, the options that were read do not matter. -/
theorem job_run_preserveFloats (file : String) (compact : Bool)
    (haccepted : loadOptions (m := Id) files config? = .ok options)
    (hpreserving : (files preserving).bind Options.parse? = some ⟨.preserve⟩) :
    Job.run (m := Id) files ⟨.lower, file, config?, true, compact⟩ =
      Job.run (m := Id) files ⟨.lower, file, some preserving, false, compact⟩ := by
  have hload : loadOptions (m := Id) files (some preserving) = .ok ⟨.preserve⟩ := by
    obtain ⟨text, htext, hparse⟩ := Option.bind_eq_some_iff.1 hpreserving
    simp only [loadOptions, htext, hparse, bind]
    rfl
  rw [job_run, job_run, haccepted, hload]
  rfl

/-- The choice to keep fractions, as a file says it. -/
theorem parse?_preserve : Options.parse? "float_literals: preserve\n" = some ⟨.preserve⟩ := by
  decide +kernel

/-! ## Command lines -/

theorem written_check (hfile : IsOperand file) (hconfig : ∀ config ∈ config?, IsOperand config) :
    Job.Written ⟨.check, file, config?, false, false⟩ :=
  ⟨hfile, hconfig, fun _ => ⟨rfl, rfl⟩⟩

theorem written_lower (hfile : IsOperand file) (hconfig : ∀ config ∈ config?, IsOperand config) :
    Job.Written ⟨.lower, file, config?, preserveFloats, compact⟩ :=
  ⟨hfile, hconfig, by simp⟩

theorem agree_run (files : String → Option String) (hfile : IsOperand file)
    (hconfig : ∀ config ∈ config?, IsOperand config) (compact : Bool) :
    Agree compact "\n" (run (m := Id) files (Job.arguments ⟨.check, file, config?, false, false⟩))
      (run (m := Id) files (Job.arguments ⟨.lower, file, config?, false, compact⟩)) := by
  have hagree := agree_jobs files file config? compact
  rw [run_arguments files (written_check hfile hconfig),
    run_arguments files (written_lower hfile hconfig)]
  dsimp only
  by_cases hnamed : IsNamed file config?
  · rw [if_pos hnamed, if_pos hnamed]
    revert hagree
    generalize Job.run (m := Id) files ⟨.check, file, config?, false, false⟩ = check
    generalize Job.run (m := Id) files ⟨.lower, file, config?, false, compact⟩ = lower
    intro hagree
    cases hagree with
    | failed e => exact .failed _
    | printed body reported written =>
        exact .printed body (by simp [reported]) (by simp [written])
  · rw [if_neg hnamed, if_neg hnamed]
    exact .failed _

/-- A directory with the tree of `1.5` and a file of options. -/
def fractionFiles (file : String) : Option String :=
  if file = "tree" then
    some ("[\"rule\",\"file_input\",[[\"rule\",\"expr_stmt\",[[\"rule\",\"number\"," ++
      "[[\"token\",\"FLOAT_NUMBER\",\"1.5\"]],[1,1,1,4]]],[1,1,1,4]]],[1,1,1,4]]")
  else if file = "options" then some "float_literals: preserve\n"
  else none

end TreeLowering.Command
