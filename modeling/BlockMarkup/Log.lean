import BlockMarkup.File.Scan

/-!
# The log

What is worth knowing about a run but is not part of its result is logged. The
entries follow from what a run has found, so they are computed from it and not
collected on the way.
-/

namespace BlockMarkup

/-- How urgent a log entry is. -/
inductive LogLevel where
  | error
  | warn
  | info
  | debug
  | trace
deriving DecidableEq

/-- The name of a level. -/
def LogLevel.label : LogLevel → String
  | .error => "ERROR"
  | .warn => "WARN"
  | .info => "INFO"
  | .debug => "DEBUG"
  | .trace => "TRACE"

/-- An entry of the log. -/
structure LogEntry where
  level : LogLevel
  message : String
deriving DecidableEq

/-- A number in a message. -/
def numeral (n : Nat) : String :=
  String.ofList (Decimal.digits n)

/-- What was still open at the end of a document. -/
def Unclosed.logEntry : Unclosed → LogEntry
  | .dictionary firstLine =>
    ⟨.debug, "dictionary block starting at line " ++ numeral firstLine ++ " is never closed"⟩
  | .arrayField key line =>
    ⟨.trace, "array field '" ++ String.ofList key ++ "' opened at line " ++ numeral line ++
      " is never closed"⟩
  | .array firstLine =>
    ⟨.debug, "array block starting at line " ++ numeral firstLine ++ " has no closing bracket"⟩
  | .text firstLine =>
    ⟨.debug, "text block starting at line " ++ numeral firstLine ++ " is never closed"⟩

/-- What reading the code that begins at `origin` tells. -/
def ScriptReader.log (reader : ScriptReader) (code : Text) (origin : Position) : List LogEntry :=
  match reader code with
  | none => [⟨.debug, "no syntax tree for code starting at " ++ String.ofList origin.render⟩]
  | some outline =>
    if outline.damaged then
      [⟨.trace, "script contains syntax errors, scanning the partial tree"⟩]
    else
      []

/-- What reading a block tells: something only if the block holds code. -/
def Block.log (reading : Reading) (block : Block) : List LogEntry :=
  match reading.settings.classify block.name block.bracket, block.content with
  | .code, .text code => ScriptReader.log reading.reader code block.contentRange.start
  | _, _ => []

/-- What a scan tells about a block that is never closed. -/
def Scan.unterminatedLog (scan : Scan) : List LogEntry :=
  match scan.unterminated with
  | none => []
  | some (header, cause) =>
    [cause.logEntry,
      ⟨.debug, "block '" ++ String.ofList header.name ++ "' at line " ++ numeral header.line ++
        " is not terminated, treating the rest of the document as text outside of blocks"⟩]

/-- What a scan of a document tells. -/
def Scan.log (reading : Reading) (scan : Scan) : List LogEntry :=
  scan.blocks.flatMap (Block.log reading) ++ scan.unterminatedLog ++
    [⟨.debug, "parsed " ++ numeral scan.blocks.length ++ " blocks and " ++
      numeral scan.outside.length ++ " spans of text outside of blocks"⟩]

end BlockMarkup
