import BlockMarkup.Cli.PositionArgument
import BlockMarkup.Text.Terminal

/-!
# Command line arguments

The tool takes one file and three options. An option with a value takes it from
behind an equals sign or from the next argument, unless that begins with a
hyphen. After two hyphens alone every argument is a file.

Arguments are gone through in order. A value that is an argument of its own is
looked at only when the next option is met or the arguments end, so an argument
that is not known is reported first.
-/

namespace BlockMarkup.Cli

/-- What is asked of the tool. -/
structure Options where
  file : Text
  config : Option Text
  compact : Bool
  position : Option Position
deriving DecidableEq

/-- The arguments that have a value. -/
inductive Valued where
  | file
  | config
  | position
deriving DecidableEq

/-- How an argument with a value is written in messages. -/
def Valued.label : Valued → String
  | .file => "<FILE>"
  | .config => "--config <CONFIG>"
  | .position => "--at <LINE:CHARACTER>"

/-- The arguments without a value. -/
inductive Flag where
  | compact
  | help
  | version
deriving DecidableEq

/-- How an argument without a value is written in messages. -/
def Flag.label : Flag → String
  | .compact => "--compact"
  | .help => "--help"
  | .version => "--version"

/-- Why arguments are refused. -/
inductive UsageError where
  | unexpected (argument : Text)
  | missingFile
  | missingValue (argument : Valued)
  | repeatedFlag
  | repeatedValue (argument : Valued)
  | needlessValue (flag : Flag) (value : Text)
  | invalidPosition (value : Text) (mistake : PositionMistake)
deriving DecidableEq

/-- The wording of an error, for a terminal. What may be written on the command
    line is emphasised. -/
def UsageError.message : UsageError → String
  | .unexpected argument => "unexpected argument " ++ Terminal.quoted argument ++ " found"
  | .missingFile => "the following required arguments were not provided:\n  <FILE>"
  | .missingValue argument =>
    "a value is required for " ++ Terminal.quoted argument.label.toList ++
      " but none was supplied"
  | .repeatedFlag =>
    "the argument " ++ Terminal.quoted Flag.compact.label.toList ++
      " cannot be used multiple times"
  | .repeatedValue argument =>
    "the argument " ++ Terminal.quoted argument.label.toList ++ " cannot be used multiple times"
  | .needlessValue flag value =>
    "unexpected value " ++ Terminal.quoted value ++ " for " ++
      Terminal.quoted flag.label.toList ++ " found; no more were expected"
  | .invalidPosition value mistake =>
    "invalid value " ++ Terminal.quoted value ++ " for " ++
      Terminal.quoted Valued.position.label.toList ++ ": " ++ mistake.message

/-- What is shown of an error, with a hint, where there is no terminal. A command to
    the terminal that a mistaken position leaves unfinished reaches into the
    hint. -/
def UsageError.report (error : UsageError) : String :=
  let hint := "\n\nFor more information, try " ++ Terminal.quoted Flag.help.label.toList ++ "."
  String.ofList (Terminal.shown (error.message ++ hint).toList)

/-- What the arguments ask for. -/
inductive Request where
  | inspect (options : Options)
  | help
  | version
deriving DecidableEq

/-- What has been gathered from the arguments so far. An option whose value is an
    argument of its own waits to be looked at, with its value once there is one. -/
structure Gathered where
  file : Option Text := none
  config : Option Text := none
  compact : Bool := false
  position : Option Position := none
  waiting : Option (Valued × Option Text) := none
  filesOnly : Bool := false

namespace Gathered

/-- Whether the argument has been given before. -/
def has (gathered : Gathered) : Valued → Bool
  | .file => gathered.file.isSome
  | .config => gathered.config.isSome
  | .position => gathered.position.isSome

/-- Takes the value of an argument. A path must not be empty. -/
def accept (gathered : Gathered) (argument : Valued) (value : Text) :
    Except UsageError Gathered :=
  if gathered.has argument then .error (.repeatedValue argument)
  else
    match argument with
    | .file =>
      if value.isEmpty then .error (.missingValue .file)
      else .ok { gathered with file := some value }
    | .config =>
      if value.isEmpty then .error (.missingValue .config)
      else .ok { gathered with config := some value }
    | .position =>
      match Position.ofArgument value with
      | .ok position => .ok { gathered with position := some position }
      | .error mistake => .error (.invalidPosition value mistake)

/-- Looks at the argument that is waiting, if there is one. -/
def settle (gathered : Gathered) : Except UsageError Gathered :=
  match gathered.waiting with
  | none => .ok gathered
  | some (argument, none) => .error (.missingValue argument)
  | some (argument, some value) => { gathered with waiting := none }.accept argument value

/-- Whether a file has been given, waiting or not. -/
def hasFile (gathered : Gathered) : Bool :=
  gathered.file.isSome ||
    match gathered.waiting with
    | some (.file, _) => true
    | _ => false

/-- Whether an option is waiting for its value. -/
def awaits (gathered : Gathered) : Option Valued :=
  match gathered.waiting with
  | some (argument, none) => some argument
  | _ => none

/-- Takes an option with a value. -/
def option (gathered : Gathered) (argument : Valued) (value : Option Text) :
    Except UsageError Gathered := do
  let settled ← gathered.settle
  match value with
  | some value => settled.accept argument value
  | none => return { settled with waiting := some (argument, none) }

/-- Takes the option for the compact layout. -/
def compactFlag (gathered : Gathered) : Except UsageError Gathered := do
  let settled ← gathered.settle
  if settled.compact then .error .repeatedFlag else return { settled with compact := true }

/-- Takes an argument as the file. -/
def positional (gathered : Gathered) (argument : Text) : Except UsageError Gathered :=
  if gathered.hasFile then .error (.unexpected argument)
  else do
    return { ← gathered.settle with waiting := some (.file, some argument) }

/-- Takes an argument that is no option: the value that is waited for, or the
    file. -/
def plain (gathered : Gathered) (argument : Text) : Except UsageError Gathered :=
  match gathered.awaits with
  | some waiting => .ok { gathered with waiting := some (waiting, some argument) }
  | none => gathered.positional argument

/-- The options, once all arguments have been gone through. -/
def finish (gathered : Gathered) : Except UsageError Request := do
  let settled ← gathered.settle
  match settled.file with
  | none => .error .missingFile
  | some file => return .inspect ⟨file, settled.config, settled.compact, settled.position⟩

end Gathered

/-- The name of a long option and the value behind its equals sign. -/
def splitLong (argument : Text) : Text × Option Text :=
  match argument.span (· != '=') with
  | (name, _ :: value) => (name, some value)
  | (name, []) => (name, none)

/-- The flag of a name. -/
def flagNamed? (name : Text) : Option Flag :=
  [Flag.compact, .help, .version].find? fun flag => flag.label.toList == '-' :: '-' :: name

/-- The option with a value of a name. -/
def valuedNamed? (name : Text) : Option Valued :=
  if name = "config".toList then some .config
  else if name = "at".toList then some .position
  else none

/-- Goes through the arguments in order. -/
def gather : Gathered → List Text → Except UsageError Request
  | gathered, [] => gathered.finish
  | gathered, argument :: rest =>
    if gathered.filesOnly then do gather (← gathered.positional argument) rest
    else
      match argument with
      | ['-', '-'] => gather { gathered with filesOnly := true } rest
      | '-' :: '-' :: long =>
        let (name, value) := splitLong long
        match valuedNamed? name, flagNamed? name, value with
        | some valued, _, _ => do gather (← gathered.option valued value) rest
        | none, some flag, some given => .error (.needlessValue flag given)
        | none, some .compact, none => do gather (← gathered.compactFlag) rest
        | none, some .help, none => gathered.settle.map fun _ => .help
        | none, some .version, none => gathered.settle.map fun _ => .version
        | none, none, _ => .error (.unexpected ('-' :: '-' :: name))
      | '-' :: 'h' :: _ => gathered.settle.map fun _ => .help
      | '-' :: 'V' :: _ => gathered.settle.map fun _ => .version
      | '-' :: short :: _ => .error (.unexpected ['-', short])
      | _ => do gather (← gathered.plain argument) rest

/-- What the arguments ask for. -/
def readArguments (arguments : List Text) : Except UsageError Request :=
  gather {} arguments

end BlockMarkup.Cli
