/-
# Options

The choices that lowering leaves to its user. There is one: whether a literal with a
fraction keeps it.
-/

namespace TreeLowering

/-- What becomes of number literals with a fraction. -/
inductive FloatLiterals where
  /-- The fraction is dropped and the literal is an integer. -/
  | truncate
  /-- The literal stays a number with a fraction. -/
  | preserve
  deriving DecidableEq

/-- The word for a choice. -/
def FloatLiterals.word : FloatLiterals → String
  | .truncate => "truncate"
  | .preserve => "preserve"

/-- The choice that a word stands for. -/
def FloatLiterals.ofWord? (word : String) : Option FloatLiterals :=
  [truncate, preserve].find? fun choice => choice.word = word

/-- The options of a run. -/
structure Options where
  floatLiterals : FloatLiterals
  deriving DecidableEq

/-- Unless told otherwise, fractions are dropped. -/
def Options.default : Options := ⟨.truncate⟩

end TreeLowering
