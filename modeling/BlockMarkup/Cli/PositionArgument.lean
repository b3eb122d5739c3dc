import BlockMarkup.Position
import BlockMarkup.Text.Blank

/-!
# Positions on the command line

A position is given as a line and a column with a colon between. The first
colon divides. Blanks around either number are ignored, and each number is read
as a machine word. The line is looked at before the column.
-/

namespace BlockMarkup

/-- Why an argument is no position. -/
inductive PositionMistake where
  | noColon (given : Text)
  | line (given : Text) (mistake : Decimal.Mistake)
  | character (given : Text) (mistake : Decimal.Mistake)
deriving DecidableEq

/-- The wording of a mistake. -/
def PositionMistake.message : PositionMistake → String
  | .noColon given => "expected LINE:CHARACTER, got '" ++ String.ofList given ++ "'"
  | .line given mistake => "invalid line '" ++ String.ofList given ++ "': " ++ mistake.message
  | .character given mistake =>
    "invalid character '" ++ String.ofList given ++ "': " ++ mistake.message

/-- The parts of a text before and after its first colon. -/
def splitAtColon? (text : Text) : Option (Text × Text) :=
  match text.span (· != ':') with
  | (before, ':' :: after) => some (before, after)
  | _ => none

/-- Reads a number with blanks around it. -/
def readTrimmed (text : Text) : Except Decimal.Mistake Nat :=
  Decimal.read (Text.trim text)

/-- Reads a position from an argument. -/
def Position.ofArgument (given : Text) : Except PositionMistake Position :=
  match splitAtColon? given with
  | none => .error (.noColon given)
  | some (line, character) =>
    match readTrimmed line with
    | .error mistake => .error (.line line mistake)
    | .ok lineValue =>
      match readTrimmed character with
      | .error mistake => .error (.character character mistake)
      | .ok characterValue => .ok ⟨lineValue, characterValue⟩

end BlockMarkup
