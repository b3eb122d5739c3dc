import BlockMarkup.Grammar.Header

/-!
# Settings

The settings name the blocks with curly brackets whose content is kept as a
text, and those of them whose text is script code. They decide how a block is
read and nothing else; the grammar of the blocks is fixed.

Settings are valid if every listed name can stand in a header, no list has a
name twice, and every code block is listed as a text block. Of several faults
the first one found is reported: the text list comes before the code list, the
names of a list are taken in order, and the relation of the two lists is looked
at last.
-/

namespace BlockMarkup

/-- The names of the blocks that hold text, and of those that hold code. -/
structure Settings where
  textBlocks : List Text
  codeBlocks : List Text
deriving DecidableEq

/-- The two lists of the settings. -/
inductive NameList where
  | textBlocks
  | codeBlocks
deriving DecidableEq

/-- The name under which a list is configured. -/
def NameList.label : NameList → String
  | .textBlocks => "textBlockNames"
  | .codeBlocks => "codeBlockNames"

/-- Why settings are not valid. -/
inductive SettingsFault where
  | invalidName (list : NameList) (name : Text)
  | repeatedName (list : NameList) (name : Text)
  | unlistedCode (name : Text)
deriving DecidableEq

/-- The wording of a fault. -/
def SettingsFault.message : SettingsFault → String
  | .invalidName list name =>
    list.label ++ " contains an invalid block name '" ++ String.ofList name ++ "'"
  | .repeatedName list name => list.label ++ " lists '" ++ String.ofList name ++ "' more than once"
  | .unlistedCode name =>
    "code block '" ++ String.ofList name ++ "' must also be listed in textBlockNames"

/-- How the content of a block is read. -/
inductive ContentKind where
  | dictionary
  | array
  | text
  | code
deriving DecidableEq

namespace Settings

/-- The text blocks of request files. -/
def defaultTextBlocks : List Text :=
  ["body:json", "body:text", "body:xml", "body:sparql", "body:graphql", "body:graphql:vars",
    "script:pre-request", "script:post-response", "tests", "docs"].map String.toList

/-- The code blocks of request files. -/
def defaultCodeBlocks : List Text :=
  ["script:pre-request", "script:post-response", "tests"].map String.toList

/-- The settings for request files. -/
def standard : Settings := ⟨defaultTextBlocks, defaultCodeBlocks⟩

/-- Whether blocks of that name hold text. -/
def isTextBlock (settings : Settings) (name : Text) : Bool :=
  settings.textBlocks.contains name

/-- Whether blocks of that name hold code. -/
def isCodeBlock (settings : Settings) (name : Text) : Bool :=
  settings.codeBlocks.contains name

/-- How a block is read. The square bracket always makes an array, whatever the
    name. -/
def classify (settings : Settings) (name : Text) : Bracket → ContentKind
  | .square => .array
  | .curly =>
    if settings.isCodeBlock name then .code
    else if settings.isTextBlock name then .text
    else .dictionary

/-- Checks the names of a list in order, those seen before being given. -/
def checkNames (list : NameList) : List Text → List Text → Except SettingsFault Unit
  | _, [] => .ok ()
  | seen, name :: rest =>
    if !isBlockName name then .error (.invalidName list name)
    else if seen.contains name then .error (.repeatedName list name)
    else checkNames list (name :: seen) rest

/-- Checks that the settings are valid. -/
def check (settings : Settings) : Except SettingsFault Unit := do
  checkNames .textBlocks [] settings.textBlocks
  checkNames .codeBlocks [] settings.codeBlocks
  match settings.codeBlocks.find? fun name => !settings.isTextBlock name with
  | some name => .error (.unlistedCode name)
  | none => .ok ()

/-- Settings with other settings laid over them: both lists are replaced. -/
def merge (_ : Settings) (other : Settings) : Settings := other

end Settings

end BlockMarkup
