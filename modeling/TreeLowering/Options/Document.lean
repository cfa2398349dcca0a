/-
# Option documents

Options are written as a YAML document that is empty or a mapping from the names of
options to words. A word is the text of a scalar, or the name of a tag on a scalar
without a value.
-/

import TreeLowering.Options.Basic
import TreeLowering.Text.Blank
import TreeLowering.Yaml.Document

namespace TreeLowering

/-- The choice that a scalar stands for. -/
def FloatLiterals.ofScalar? (scalar : Yaml.Scalar) : Option FloatLiterals :=
  match scalar.localTag? with
  | some name => if scalar.isNull then ofWord? name else none
  | none => ofWord? scalar.text

/-- The options that a document denotes. -/
def Options.ofDocument? : Yaml.Document → Option Options
  | .empty | .mapping none => some Options.default
  | .mapping (some (key, value)) =>
    if key.text = "float_literals" then (FloatLiterals.ofScalar? value).map Options.mk else none

/-- The options that a text denotes. A text of blanks alone leaves everything as it
is. -/
def Options.parse? (text : String) : Option Options :=
  if text.toList.all Text.isBlank then some Options.default
  else (Yaml.Document.ofText? text).bind Options.ofDocument?

end TreeLowering
