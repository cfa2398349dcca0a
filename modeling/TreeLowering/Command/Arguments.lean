/-
# Command lines

What a command line asks for. Flags may be combined behind one dash, long options are
written in full, and a double dash ends the options. Arguments are taken in order, and
the first fault decides; what is missing altogether counts only at the end.
-/

namespace TreeLowering.Command

/-- A fault of a command line, or a request for help in its place. -/
inductive UsageFault where
  | displayHelp
  | missingRequiredArgument
  | invalidSubcommand
  | unknownArgument
  | argumentConflict
  | invalidValue
  | tooManyValues
  deriving DecidableEq

/-- The name of a fault. -/
def UsageFault.name : UsageFault → String
  | .displayHelp => "DisplayHelp"
  | .missingRequiredArgument => "MissingRequiredArgument"
  | .invalidSubcommand => "InvalidSubcommand"
  | .unknownArgument => "UnknownArgument"
  | .argumentConflict => "ArgumentConflict"
  | .invalidValue => "InvalidValue"
  | .tooManyValues => "TooManyValues"

/-- What is to be done with a parse tree. -/
inductive Task where
  | lower
  | check
  deriving DecidableEq

/-- A task with its operands. -/
structure Job where
  task : Task
  file : String
  config? : Option String
  preserveFloats : Bool
  compact : Bool
  deriving DecidableEq

/-- What a command line asks for. -/
structure Request where
  version : Bool
  author : Bool
  job? : Option Job
  deriving DecidableEq

/-! ## Options of a task -/

/-- The options of a task. -/
inductive JobOption where
  | help
  | config
  | preserveFloats
  | compact
  deriving DecidableEq

/-- The option of a task with a long name. -/
def JobOption.ofName? (task : Task) (name : String) : Option JobOption :=
  if name = "help" then some .help
  else if name = "config" then some .config
  else if task = .lower ∧ name = "preserve-floats" then some .preserveFloats
  else if task = .lower ∧ name = "compact" then some .compact
  else none

/-- A value that has been read but not yet looked at. It is looked at when the next
argument that is known begins, or at the end. -/
inductive Pending where
  | nothing
  | file (value : String)
  | config (value? : Option String)

/-- What has been read of the operands of a task. -/
structure Operands where
  file? : Option String
  config? : Option String
  preserveFloats : Bool
  compact : Bool
  pending : Pending
  /-- Whether a file has been read, looked at or not. -/
  hasFile : Bool

namespace Operands

/-- Before the first operand. -/
def empty : Operands := ⟨none, none, false, false, .nothing, false⟩

/-- The operands after the pending value has been looked at. It must be present and not
empty, and an option may be given once. -/
def settle (o : Operands) : Except UsageFault Operands :=
  match o.pending with
  | .nothing => .ok o
  | .file value =>
    if value.isEmpty then .error .invalidValue
    else .ok { o with file? := some value, pending := .nothing }
  | .config none => .error .invalidValue
  | .config (some value) =>
    if o.config?.isSome then .error .argumentConflict
    else if value.isEmpty then .error .invalidValue
    else .ok { o with config? := some value, pending := .nothing }

/-- A further operand outside the options; a task has one. -/
def addFile (o : Operands) (value : String) : Except UsageFault Operands :=
  if o.hasFile then .error .unknownArgument
  else o.settle.map fun o => { o with pending := .file value, hasFile := true }

/-- A flag without a value. -/
def addFlag (o : Operands) (option : JobOption) : Except UsageFault Operands :=
  match o.settle with
  | .error fault => .error fault
  | .ok o => match option with
    | .help => .error .displayHelp
    | .preserveFloats =>
      if o.preserveFloats then .error .argumentConflict else .ok { o with preserveFloats := true }
    | .compact => if o.compact then .error .argumentConflict else .ok { o with compact := true }
    | .config => .ok { o with pending := .config none }

/-- An option with a value attached by an equals sign. -/
def addAttached (o : Operands) (option : JobOption) (value : String) :
    Except UsageFault Operands :=
  match option with
  | .config => o.settle.map fun o => { o with pending := .config (some value) }
  | _ => .error .tooManyValues

/-- Whether the next word is the value of an option. -/
def awaitsValue (o : Operands) : Bool :=
  match o.pending with
  | .config none => true
  | _ => false

end Operands

/-- Name and attached value of a long option. -/
def splitLong (text : List Char) : String × Option String :=
  let name := String.ofList (text.takeWhile (· != '='))
  match text.dropWhile (· != '=') with
  | [] => (name, none)
  | _ :: value => (name, some (String.ofList value))

/-- One argument of a task. -/
def takeOperand (task : Task) (o : Operands) (argument : String) : Except UsageFault Operands :=
  match argument.toList with
  | '-' :: '-' :: text =>
    let (name, value?) := splitLong text
    match JobOption.ofName? task name, value? with
    | none, _ => .error .unknownArgument
    | some option, none => o.addFlag option
    | some option, some value => o.addAttached option value
  | ['-'] => takeWord o
  | '-' :: 'h' :: _ => o.addFlag .help
  | '-' :: _ => .error .unknownArgument
  | _ => takeWord o
where
  /-- An argument that is no option. -/
  takeWord (o : Operands) : Except UsageFault Operands :=
    if o.awaitsValue then .ok { o with pending := .config (some argument) }
    else o.addFile argument

/-- The arguments of a task. After a double dash none is an option. -/
def takeOperands (task : Task) (o : Operands) : List String → Except UsageFault Operands
  | [] => o.settle
  | argument :: rest =>
    if argument = "--" then do (← rest.foldlM Operands.addFile o).settle
    else match takeOperand task o argument with
      | .error fault => .error fault
      | .ok o => takeOperands task o rest

/-- A task with its arguments. -/
def parseJob (task : Task) (arguments : List String) : Except UsageFault Job := do
  let o ← takeOperands task .empty arguments
  match o.file? with
  | some file => .ok ⟨task, file, o.config?, o.preserveFloats, o.compact⟩
  | none => .error .missingRequiredArgument

/-! ## Top level -/

/-- The flags before a task. -/
structure Flags where
  version : Bool
  author : Bool

/-- A flag at the top level by its letter. -/
def Flags.addLetter (f : Flags) (letter : Char) : Except UsageFault Flags :=
  if letter = 'h' then .error .displayHelp
  else if letter = 'v' then
    if f.version then .error .argumentConflict else .ok { f with version := true }
  else if letter = 'a' then
    if f.author then .error .argumentConflict else .ok { f with author := true }
  else .error .unknownArgument

/-- The letter of a flag with a long name. -/
def flagLetter? (name : String) : Option Char :=
  if name = "help" then some 'h'
  else if name = "version" then some 'v'
  else if name = "author" then some 'a'
  else none

/-- A long flag at the top level; none takes a value. -/
def Flags.addLong (f : Flags) (text : List Char) : Except UsageFault Flags :=
  let (name, value?) := splitLong text
  match flagLetter? name with
  | none => .error .unknownArgument
  | some letter => if value?.isSome then .error .tooManyValues else f.addLetter letter

/-- The task with a name. -/
def Task.ofName? (name : String) : Option Task :=
  if name = "lower" then some .lower
  else if name = "check" then some .check
  else none

/-- The outcome of a request for help, which may name one command. -/
def helpFault : List String → UsageFault
  | [] => .displayHelp
  | [name] =>
    if (Task.ofName? name).isSome ∨ name = "help" then .displayHelp else .invalidSubcommand
  | _ => .invalidSubcommand

/-- A word after a double dash cannot be a command, even if it is the name of one. -/
def trailingFault (name : String) : UsageFault :=
  if (Task.ofName? name).isSome ∨ name = "help" then .unknownArgument else .invalidSubcommand

/-- The arguments of a command line after the flags read so far. -/
def parseFrom (f : Flags) : List String → Except UsageFault Request
  | [] => .ok ⟨f.version, f.author, none⟩
  | argument :: rest =>
    match argument.toList with
    | ['-', '-'] => match rest with
      | [] => .ok ⟨f.version, f.author, none⟩
      | word :: _ => .error (trailingFault word)
    | '-' :: '-' :: text => match f.addLong text with
      | .error fault => .error fault
      | .ok f => parseFrom f rest
    | '-' :: letter :: letters => match (letter :: letters).foldlM Flags.addLetter f with
      | .error fault => .error fault
      | .ok f => parseFrom f rest
    | _ =>
      if argument = "help" then .error (helpFault rest)
      else match Task.ofName? argument with
        | none => .error .invalidSubcommand
        | some task => (parseJob task rest).map fun job => ⟨f.version, f.author, some job⟩

/-- What a command line asks for. -/
def parse (arguments : List String) : Except UsageFault Request :=
  parseFrom ⟨false, false⟩ arguments

end TreeLowering.Command
