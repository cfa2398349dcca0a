/-
# The arguments of a job

A job written out as a command line is what that command line asks for, provided that its
files are named and not mistaken for options.
-/

import TreeLowering.Command.Run

namespace TreeLowering.Command

variable {task : Task} {file config argument : String} {o o' : Operands} {job : Job}
  {rest : List String}

/-! ## Writing a job out -/

/-- The command for a task. -/
def Task.word : Task → String
  | .lower => "lower"
  | .check => "check"

/-- The arguments for the flags of a job. -/
def flagArguments (preserveFloats compact : Bool) : List String :=
  (if preserveFloats then ["--preserve-floats"] else []) ++
    (if compact then ["--compact"] else [])

/-- The arguments for the options file of a job. -/
def configArguments : Option String → List String
  | some config => ["--config", config]
  | none => []

/-- The command line for a job. -/
def Job.arguments (job : Job) : List String :=
  job.task.word :: job.file ::
    (configArguments job.config? ++ flagArguments job.preserveFloats job.compact)

/-- An argument that is no option. -/
def IsOperand (argument : String) : Prop :=
  ∀ text, argument.toList = '-' :: text → text = []

/-- A job whose files are not mistaken for options, and which has flags only for lowering. -/
structure Job.Written (job : Job) : Prop where
  file : IsOperand job.file
  config : ∀ config ∈ job.config?, IsOperand config
  flags : job.task = .check → job.preserveFloats = false ∧ job.compact = false

/-- The files of a job have names. -/
def IsNamed (file : String) (config? : Option String) : Prop :=
  file ≠ "" ∧ config? ≠ some ""

instance (file : String) (config? : Option String) : Decidable (IsNamed file config?) :=
  inferInstanceAs (Decidable (_ ∧ _))

/-! ## Single arguments -/

theorem ne_of_isOperand (h : IsOperand argument) : argument ≠ "--" := by
  rintro rfl
  cases h ['-'] rfl

theorem takeOperand_of_isOperand (h : IsOperand argument) (task : Task) (o : Operands) :
    takeOperand task o argument =
      if o.awaitsValue then .ok { o with pending := .config (some argument) }
      else o.addFile argument := by
  rw [takeOperand]
  split
  · rename_i heq
    cases h _ heq
  · rfl
  · rename_i heq
    cases h _ heq
  · rename_i hother _ heq
    cases h _ heq
    exact absurd rfl hother
  · rfl

theorem takeOperand_config (task : Task) (o : Operands) :
    takeOperand task o "--config" = o.addFlag .config := by
  cases task <;> rfl

theorem takeOperand_compact (o : Operands) :
    takeOperand .lower o "--compact" = o.addFlag .compact := rfl

theorem takeOperand_preserveFloats (o : Operands) :
    takeOperand .lower o "--preserve-floats" = o.addFlag .preserveFloats := rfl

/-! ## Runs of arguments -/

theorem Operands.settle_of_nothing (h : o.pending = .nothing) : o.settle = .ok o := by
  rw [settle, h]

/-- Once the pending value has been looked at, none is pending and the flags are as before. -/
theorem Operands.of_settle (h : o.settle = .ok o') :
    o'.pending = .nothing ∧ o'.preserveFloats = o.preserveFloats ∧ o'.compact = o.compact := by
  rw [settle] at h
  split at h
  case h_1 hnothing =>
      cases h
      exact ⟨hnothing, rfl, rfl⟩
  case h_2 =>
      split at h <;> cases h
      exact ⟨rfl, rfl, rfl⟩
  case h_3 => cases h
  case h_4 =>
      split at h
      · cases h
      · split at h <;> cases h
        exact ⟨rfl, rfl, rfl⟩

theorem takeOperands_file (hfile : IsOperand file) (task : Task) (rest : List String) :
    takeOperands task .empty (file :: rest) =
      takeOperands task { Operands.empty with pending := .file file, hasFile := true } rest := by
  rw [takeOperands, if_neg (ne_of_isOperand hfile), takeOperand_of_isOperand hfile]
  rfl

theorem takeOperands_config (hconfig : IsOperand config) (task : Task) (o : Operands)
    (rest : List String) :
    takeOperands task o ("--config" :: config :: rest) =
      o.settle.bind fun o =>
        takeOperands task { o with pending := .config (some config) } rest := by
  rw [takeOperands, if_neg (by decide), takeOperand_config, Operands.addFlag]
  cases o.settle with
  | error fault => rfl
  | ok o =>
      show takeOperands task { o with pending := .config none } (config :: rest) = _
      rw [takeOperands, if_neg (ne_of_isOperand hconfig), takeOperand_of_isOperand hconfig]
      rfl

theorem takeOperands_flags {preserveFloats compact : Bool}
    (hflags : task = .check → preserveFloats = false ∧ compact = false)
    (hpreserve : o.preserveFloats = false) (hcompact : o.compact = false) :
    takeOperands task o (flagArguments preserveFloats compact) =
      o.settle.map fun o => { o with preserveFloats := preserveFloats, compact := compact } := by
  cases hsettle : o.settle with
  | error fault =>
      cases task with
      | check =>
          obtain ⟨rfl, rfl⟩ := hflags rfl
          exact hsettle
      | lower =>
          cases preserveFloats <;> cases compact <;>
            simp [flagArguments, takeOperands, takeOperand_preserveFloats, takeOperand_compact,
              Operands.addFlag, hsettle, Except.map]
  | ok o' =>
      obtain ⟨hpending, hpreserve', hcompact'⟩ := Operands.of_settle hsettle
      obtain ⟨file?, config?, _, _, _, hasFile⟩ := o'
      obtain rfl : _ = Pending.nothing := hpending
      obtain rfl : _ = false := hpreserve'.trans hpreserve
      obtain rfl : _ = false := hcompact'.trans hcompact
      cases task with
      | check =>
          obtain ⟨rfl, rfl⟩ := hflags rfl
          exact hsettle
      | lower =>
          cases preserveFloats <;> cases compact <;>
            simp [flagArguments, takeOperands, takeOperand_preserveFloats, takeOperand_compact,
              Operands.addFlag, Operands.settle_of_nothing, hsettle, Except.map]

/-- What is read of the operands of a job. -/
theorem takeOperands_arguments (h : job.Written) :
    takeOperands job.task .empty (job.file ::
        (configArguments job.config? ++ flagArguments job.preserveFloats job.compact)) =
      if IsNamed job.file job.config? then
        .ok ⟨some job.file, job.config?, job.preserveFloats, job.compact, .nothing, true⟩
      else .error .invalidValue := by
  obtain ⟨task, file, config?, preserveFloats, compact⟩ := job
  obtain ⟨hfile, hconfig, hflags⟩ := h
  rw [takeOperands_file hfile]
  cases config? with
  | none =>
      rw [configArguments, List.nil_append, takeOperands_flags hflags rfl rfl]
      by_cases hnamed : file = "" <;>
        simp [hnamed, IsNamed, Operands.settle, Operands.empty, Except.map]
  | some config =>
      rw [configArguments, List.cons_append, List.cons_append, List.nil_append,
        takeOperands_config (hconfig config rfl)]
      by_cases hnamed : file = ""
      · simp [hnamed, IsNamed, Operands.settle, Except.bind]
      · by_cases hvalue : config = "" <;>
          simp [hnamed, hvalue, takeOperands_flags hflags, IsNamed, Operands.settle,
            Operands.empty, Except.bind, Except.map]

/-! ## Whole command lines -/

/-- A job written out is asked for, unless a file has no name. -/
theorem parse_arguments (h : job.Written) :
    parse job.arguments =
      if IsNamed job.file job.config? then .ok ⟨false, false, some job⟩
      else .error .invalidValue := by
  have hword : ∀ (task : Task) (rest : List String), parse (task.word :: rest) =
      (parseJob task rest).map fun job => ⟨false, false, some job⟩ := by
    intro task rest
    cases task <;> rfl
  rw [Job.arguments, hword, parseJob, takeOperands_arguments h]
  split <;> rfl

/-- The command line of a job over a directory prints what the job prints, and a line break
behind it. -/
theorem run_arguments (files : String → Option String) (h : job.Written) :
    run (m := Id) files job.arguments =
      if IsNamed job.file job.config? then match job.run (m := Id) files with
        | .error e => .error (.error e)
        | .ok text => .ok (text ++ "\n")
      else .error (.usage .invalidValue) := by
  rw [run, parse_arguments h]
  by_cases hnamed : IsNamed job.file job.config?
  · rw [if_pos hnamed, if_pos hnamed]
    rfl
  · rw [if_neg hnamed, if_neg hnamed]
    rfl

end TreeLowering.Command
