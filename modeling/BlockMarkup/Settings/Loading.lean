import BlockMarkup.Json.Decode
import BlockMarkup.Json.Reader
import BlockMarkup.Log
import BlockMarkup.Settings

/-!
# Loading settings

Settings stand in one member of a larger JSON object. A list that is not given
there has its standard value. If the member is missing or does not have the form
of settings, the standard settings hold. What is loaded is checked, so settings
that come out of here are valid.
-/

namespace BlockMarkup

/-- Why a file could not be read as text. -/
inductive ReadFailure where
  | missing
  | notText
  | other (message : String)
deriving DecidableEq

/-- The wording of a failure. -/
def ReadFailure.message : ReadFailure → String
  | .missing => "No such file or directory (os error 2)"
  | .notText => "stream did not contain valid UTF-8"
  | .other message => message

/-- The text that bytes are the UTF-8 form of. -/
def Text.ofBytes (bytes : ByteArray) : Except ReadFailure Text :=
  match String.fromUTF8? bytes with
  | some text => .ok text.toList
  | none => .error .notText

/-- Why settings could not be loaded. -/
inductive SettingsError where
  | unreadable (path : Text) (failure : ReadFailure)
  | notJson (path : Text)
  | invalid (fault : SettingsFault)
deriving DecidableEq

/-- The wording of an error. -/
def SettingsError.message : SettingsError → String
  | .unreadable path failure =>
    "Failed to read settings file '" ++ String.ofList path ++ "': " ++ failure.message
  | .notJson path =>
    "Settings file '" ++ String.ofList path ++ "' is not valid JSON: unexpected character or end"
  | .invalid fault => "Invalid configuration: " ++ fault.message

namespace Settings

/-- The member that holds the settings. -/
def sectionKey : Text := "bru-parser".toList

/-- A list of names, or a standard list where none is given. -/
def namesOr (standard : List Text) : Option Json → Option (List Text)
  | none => some standard
  | some value => value.list? Json.text?

/-- Reads settings from an object, or from an array with the text blocks first
    and the code blocks second. -/
def ofJson? : Json → Option Settings
  | .object members => do
    return ⟨← namesOr defaultTextBlocks (members.lookup NameList.textBlocks.label.toList),
      ← namesOr defaultCodeBlocks (members.lookup NameList.codeBlocks.label.toList)⟩
  | .array items => do
    if items.length ≤ 2 then
      return ⟨← namesOr defaultTextBlocks items[0]?, ← namesOr defaultCodeBlocks items[1]?⟩
    else
      none
  | _ => none

/-- The settings that are asked for, not yet checked. -/
def requested (given : Option Json) : Settings :=
  match given.bind (Json.member? sectionKey) with
  | none => standard
  | some value =>
    match ofJson? value with
    | some settings => standard.merge settings
    | none => standard

/-- Loads settings. -/
def load (given : Option Json) : Except SettingsError Settings :=
  let settings := requested given
  match settings.check with
  | .ok () => .ok settings
  | .error fault => .error (.invalid fault)

/-- What loading settings tells. -/
def loadLog (given : Option Json) : List LogEntry :=
  match given.bind (Json.member? sectionKey) with
  | none => []
  | some value =>
    if (ofJson? value).isSome then []
    else [⟨.warn, "Failed to parse " ++ String.ofList sectionKey ++ " settings. Using defaults."⟩]

/-- Loads settings from a file whose content is given. -/
def loadFile (path : Text) (content : Except ReadFailure Text) : Except SettingsError Settings :=
  match content with
  | .error failure => .error (.unreadable path failure)
  | .ok text =>
    match Json.read? text with
    | none => .error (.notJson path)
    | some value => load (some value)

/-- What loading settings from a file tells. -/
def loadFileLog (path : Text) (content : Except ReadFailure Text) : List LogEntry :=
  match content with
  | .error _ => []
  | .ok text =>
    match Json.read? text with
    | none => []
    | some value =>
      ⟨.debug, "Loaded parser settings from " ++ String.ofList path⟩ :: loadLog (some value)

/-- The written form of settings. -/
def toJson (settings : Settings) : Json :=
  .object
    [(NameList.codeBlocks.label.toList, .array (settings.codeBlocks.map .string)),
      (NameList.textBlocks.label.toList, .array (settings.textBlocks.map .string))]

end Settings

end BlockMarkup
