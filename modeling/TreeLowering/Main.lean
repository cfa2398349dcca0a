/-
# The program

The outermost layer: arguments and files come from the system, the text of a run goes
to standard output and the words of a failure to standard error.
-/

import TreeLowering.Command.Run

namespace TreeLowering

/-- The content of a file, if it can be read as text. -/
def readTextFile (file : String) : IO (Option String) := do
  try
    return some (← IO.FS.readFile file)
  catch _ =>
    return none

/-- The words of a failure, with the cause beneath a rule and the advice on it on lines of
their own. -/
def failureText (e : Error) : String :=
  let cause := match e with
    | .inRule _ _ cause => s!"\n{cause.code}: {cause.message}"
    | _ => ""
  let advice := match e.help? with
    | some help => s!"\nhelp: {help}"
    | none => ""
  s!"{e.code}: {e.message}{cause}{advice}"

end TreeLowering

/-- Runs the command line and returns its exit code. -/
def main (arguments : List String) : IO UInt32 := do
  match ← TreeLowering.Command.run TreeLowering.readTextFile arguments with
  | .ok text =>
    IO.print text
    return 0
  | .error (.usage .displayHelp) =>
    IO.println TreeLowering.Command.helpText
    return 0
  | .error (.usage fault) =>
    IO.eprintln s!"error: {fault.name}"
    return 2
  | .error (.error e) =>
    IO.eprintln (TreeLowering.failureText e)
    return 1
