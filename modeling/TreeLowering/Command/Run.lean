/-
# Running a command

What a command prints. Files are read through a function that is given, so that a run
is the same computation over a directory in memory and over a file system. Options are
read before the tree, and a failure prints nothing.
-/

import TreeLowering.Command.Arguments
import TreeLowering.Grammar.Exchange
import TreeLowering.Lowering.Transform
import TreeLowering.Node.Census
import TreeLowering.Node.Dump
import TreeLowering.Options.Document

namespace TreeLowering.Command

/-- How a command line fails. -/
inductive Failure where
  | usage (fault : UsageFault)
  | error (cause : Error)

/-- The line with the name and version of the program. -/
def versionText : String := "Serpentes 0.1.0"

/-- The line with the authors of the program. -/
def authorText : String := "The Serpentes Developers"

/-- The help text of the program. -/
def helpText : String :=
  "Lowers grammar parse trees into a Python-style abstract syntax tree.

Usage: serpentes [OPTIONS] [COMMAND]

Commands:
  lower  Build the tree and print its materialized form as JSON
  check  Build the tree and print a one-line summary
  help   Print this message or the help of the given subcommand(s)

Options:
  -v, --version  Shows the current version of Serpentes
  -a, --author   The author of Serpentes
  -h, --help     Print help"

variable {m : Type → Type} [Monad m]

/-- The options in a file; without a file, the default. -/
def loadOptions (readFile : String → m (Option String)) :
    Option String → m (Except Error Options)
  | none => pure (.ok .default)
  | some file => do
    match ← readFile file with
    | none => pure (.error .unreadableFile)
    | some text => match Options.parse? text with
      | none => pure (.error .malformedOptions)
      | some options => pure (.ok options)

/-- The module that the tree in a file lowers to. -/
def lowerFile (readFile : String → m (Option String)) (options : Options) (file : String) :
    m (Except Error Node) := do
  match ← readFile file with
  | none => pure (.error .unreadableFile)
  | some text => match ParseTree.parse? text with
    | none => pure (.error .malformedTree)
    | some tree => pure (transform options tree)

/-- The options of a job: a flag wins over a file. -/
def Job.override (job : Job) (options : Options) : Options :=
  if job.preserveFloats then ⟨.preserve⟩ else options

/-- The text that a job prints for its module. -/
def Job.render (job : Job) (root : Node) : String :=
  match job.task with
  | .check => root.summary
  | .lower => if job.compact then root.dump.toJson.compact else root.dump.toJson.pretty

/-- The text that a job prints. -/
def Job.run (readFile : String → m (Option String)) (job : Job) : m (Except Error String) := do
  match ← loadOptions readFile job.config? with
  | .error e => pure (.error e)
  | .ok options =>
    match ← lowerFile readFile (job.override options) job.file with
    | .error e => pure (.error e)
    | .ok root => pure (.ok (job.render root))

/-- The text that a request prints. The version comes before the author, and both come
before a task. -/
def Request.run (readFile : String → m (Option String)) (request : Request) :
    m (Except Error String) :=
  if request.version then pure (.ok versionText)
  else if request.author then pure (.ok authorText)
  else match request.job? with
    | none => pure (.ok helpText)
    | some job => job.run readFile

/-- What a command line prints, ended by a line break, or how it fails. -/
def run (readFile : String → m (Option String)) (arguments : List String) :
    m (Except Failure String) := do
  match parse arguments with
  | .error fault => pure (.error (.usage fault))
  | .ok request =>
    match ← request.run readFile with
    | .error e => pure (.error (.error e))
    | .ok text => pure (.ok (text ++ "\n"))

end TreeLowering.Command
