import BlockMarkup.Cli.Inspect

/-!
# The command line

Reads the files that a run asks for, prints what it leaves behind and ends with
its exit code.
-/

namespace BlockMarkup.Cli

/-- Reads a file as text. -/
def readTextFile (path : String) : IO (Except ReadFailure Text) := do
  try
    return Text.ofBytes (← IO.FS.readBinFile path)
  catch
    | .noFileOrDirectory .. => return .error .missing
    | error => return .error (.other error.toString)

/-- The files that the arguments name, each with what it holds. -/
def readNamedFiles (arguments : List Text) : IO (List (Text × Except ReadFailure Text)) := do
  match readArguments arguments with
  | .ok (.inspect options) =>
    (options.file :: options.config.toList).mapM fun path => do
      return (path, ← readTextFile (String.ofList path))
  | _ => return []

end BlockMarkup.Cli

open BlockMarkup

/-- Runs the tool with the arguments it was started with. -/
def main (arguments : List String) : IO UInt32 := do
  let given := arguments.map String.toList
  let files ← Cli.readNamedFiles given
  let outcome := Cli.run (fun path => (files.lookup path).getD (.error .missing)) given
  (← IO.getStdout).putStr (String.ofList outcome.output)
  (← IO.getStderr).putStr (String.ofList outcome.errors)
  return outcome.exitCode.toUInt32
