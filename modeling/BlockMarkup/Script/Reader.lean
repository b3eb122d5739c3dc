import BlockMarkup.Script.Calls
import BlockMarkup.Script.Rule.Element
import BlockMarkup.Script.Rule.Member
import BlockMarkup.Script.Rule.Statement

/-!
# Reading a script

All rules together make the language. They call one another only at a smaller
depth, so reading ends whatever the script is. Between two lexemes that are
taken at most a few rules are entered, so a depth in proportion to the length of
the script is never used up.
-/

namespace BlockMarkup.Script

/-- The rule for a goal, in terms of the rules that it refers to. -/
def rule (rules : Rules) : Rules
  | .program => Rule.program rules
  | .statements inSwitch => Rule.statements rules inSwitch
  | .statement place => Rule.statement rules place
  | .declarators => Rule.declarators rules
  | .cases => Rule.cases rules
  | .expressions ending => Rule.expressions rules ending
  | .assignment ending => Rule.assignment rules ending
  | .chain ending => Rule.chain rules ending
  | .operand ending => Rule.operand rules ending
  | .construction ending => Rule.construction rules ending
  | .suffixes ending base => Rule.suffixes rules ending base
  | .memberSuffixes ending base => Rule.memberSuffixes rules ending base
  | .elements close => Rule.elements rules close
  | .grouped => Rule.grouped rules
  | .properties => Rule.properties rules
  | .classMembers => Rule.classMembers rules
  | .templateParts => Rule.templateParts rules
  | .decorators => Rule.decorators rules
  | .element => Rule.element rules
  | .attributes => Rule.attributes rules
  | .contents => Rule.contents rules

/-- The rules down to a depth. Below it everything is damage. -/
def rulesTo : Nat → Rules
  | 0 => fun _ stream => ([], stream.damage)
  | depth + 1 => rule fun goal stream => rulesTo depth goal stream

/-- A depth that no script of that length uses up. -/
def depthFor (length : Nat) : Nat := 16 * (length + 4)

/-- The tree of a script, and whether anything in it fits no rule. -/
def tree (source : Text) : Node × Bool :=
  let (nodes, after) := rulesTo (depthFor source.length) .program (Stream.ofText source)
  (.mk .program true .plain ⟨0, Text.size source⟩ nodes, after.damaged)

/-- Reads a script in JavaScript. It gives up on no script. -/
def readJavaScript : ScriptReader := fun source =>
  let (root, damaged) := tree source
  some ⟨memberCalls source root, damaged⟩

end BlockMarkup.Script
