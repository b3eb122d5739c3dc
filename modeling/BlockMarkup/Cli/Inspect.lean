import BlockMarkup.Cli.Arguments
import BlockMarkup.File.Codec
import BlockMarkup.Json.Printer
import BlockMarkup.Script.Reader
import BlockMarkup.Settings.Loading

/-!
# The inspection tool

The tool prints what a file holds, or the reference that a position in it falls
on, as JSON. In a block of code that is the innermost accessor call around the
position, in any other block the interpolated name at it.

A run is a function of the arguments and of what the files hold. It ends with an
exit code of zero if there is something to print, one if no reference is found,
and two if the arguments, the settings or the file are refused.
-/

namespace BlockMarkup.Cli

/-- What a run leaves behind. -/
structure Outcome where
  exitCode : Nat
  output : Text
  errors : Text
deriving DecidableEq

namespace Outcome

/-- A run that prints something. -/
def printed (output : Text) : Outcome := ⟨0, output ++ ['\n'], []⟩

/-- A run that ends with a message. -/
def failed (exitCode : Nat) (message : String) : Outcome :=
  ⟨exitCode, [], message.toList ++ ['\n']⟩

/-- A run that is refused. -/
def refused (message : String) : Outcome := failed 2 ("error: " ++ message)

end Outcome

/-- The name and version of the tool. -/
def versionText : String := "bru-inspect 0.2.0"

/-- What the tool says about itself. -/
def helpText : String :=
  "Inspect the structure of .bru files\n\n" ++
    "Usage: bru-inspect [OPTIONS] <FILE>\n\n" ++
    "Arguments:\n" ++
    "  <FILE>  The .bru file to parse\n\n" ++
    "Options:\n" ++
    "      --config <CONFIG>      Settings JSON file with a \"bru-parser\" section\n" ++
    "      --compact              Print JSON on a single line\n" ++
    "      --at <LINE:CHARACTER>  " ++
    "Show the variable reference at LINE:CHARACTER (zero-based)\n" ++
    "  -h, --help                 Print help\n" ++
    "  -V, --version              Print version"

/-- The reference in a block of code that a position falls on. -/
def codeReferenceAt? (reader : ScriptReader) (block : Block) (p : Position) :
    Checked (Option Json) :=
  match block.text? with
  | none => .ok none
  | some code => do
    return (← AccessorCall.findAt reader code block.contentRange.start p).map fun hit =>
      record
        [("block", .string block.name), ("function", .string hit.call.accessor.name),
          ("positionInArgument", .bool hit.inArgument),
          ("reference", hit.call.reference.toJson)]

/-- The reference in a block without code that a position falls on. -/
def textReferenceAt? (block : Block) (p : Position) : Option Json :=
  (VariableReference.findAt block.references p).map fun reference =>
    record [("block", .string block.name), ("reference", reference.toJson)]

/-- The reference of a file that a position falls on. -/
def referenceAt? (reading : Reading) (file : ParsedFile) (p : Position) :
    Checked (Option Json) :=
  match file.blockAt p with
  | none => .ok none
  | some block =>
    if reading.settings.isCodeBlock block.name then codeReferenceAt? reading.reader block p
    else .ok (textReferenceAt? block p)

/-- What is to be printed about a file, if there is anything. -/
def answer? (reading : Reading) (text : Text) (p : Option Position) : Checked (Option Json) := do
  let file ← (Document.ofText text).parse reading
  match p with
  | none => return some file.toJson
  | some p => referenceAt? reading file p

/-- The settings that a run is to use. -/
def settingsFor (read : Text → Except ReadFailure Text) : Option Text →
    Except SettingsError Settings
  | none => .ok Settings.standard
  | some path => Settings.loadFile path (read path)

/-- Prints what is asked about a file. -/
def inspect (read : Text → Except ReadFailure Text) (options : Options) : Outcome :=
  match settingsFor read options.config with
  | .error error => .refused error.message
  | .ok settings =>
    match read options.file with
    | .error failure =>
      .refused ("cannot read '" ++ String.ofList options.file ++ "': " ++ failure.message)
    | .ok text =>
      match answer? ⟨settings, Script.readJavaScript⟩ text options.position with
      | .error fault => .failed 101 fault.message
      | .ok none =>
        .failed 1 ("no variable reference at " ++
          String.ofList ((options.position.getD Position.origin).render))
      | .ok (some value) => .printed (if options.compact then value.compact else value.pretty)

/-- Runs the tool with these arguments, files being read by the function. -/
def run (read : Text → Except ReadFailure Text) (arguments : List Text) : Outcome :=
  match readArguments arguments with
  | .error error => .refused error.report
  | .ok .help => .printed helpText.toList
  | .ok .version => .printed versionText.toList
  | .ok (.inspect options) => inspect read options

end BlockMarkup.Cli
