import BlockMarkup.Span
import BlockMarkup.Text.Measure

/-!
# Member calls

A script is of interest for its calls of the form `object.property(argument)`.
Whoever reads the script reports them in the order in which they begin, an
enclosing call before the calls inside it. The spans count bytes of the script.

The contract of a reader is stated for a script and nothing else: it reports the
calls of that script, or gives up because the script cannot be read. So a reader is
a function of the script. What is proved for every reader is meant for those that
keep to the contract, and one that answered a script in two ways would not.
-/

namespace BlockMarkup

/-- The first argument of a call. A literal is a string whose characters are
    its value, and `value` is its span without the quotes. -/
inductive CallArgument where
  | literal (whole value : Span)
  | other (whole : Span)
deriving DecidableEq

/-- The span of an argument. -/
def CallArgument.span : CallArgument → Span
  | .literal whole _ => whole
  | .other whole => whole

/-- A call of a property of a named object. -/
structure MemberCall where
  object : Text
  property : Text
  span : Span
  argument : Option CallArgument
deriving DecidableEq

/-- The member calls of a script. A damaged script has places that fit no rule
    of the language; its calls are those that could still be made out. -/
structure ScriptOutline where
  calls : List MemberCall
  damaged : Bool
deriving DecidableEq

/-- A way to read scripts, which may give up on a script. What it reports is determined
    by the script alone, as its contract has it. -/
abbrev ScriptReader := Text → Option ScriptOutline

end BlockMarkup
