import BlockMarkup.Checked
import BlockMarkup.Document
import BlockMarkup.Script.MemberCall
import BlockMarkup.Variable

/-!
# References by accessor calls

Scripts reach variables through the functions of one object. Each function
fixes the scope of the variable and whether it is read or written, and its
first argument names the variable. A call counts only if that argument is a
string literal.

A script is a text inside a document. The spans of its calls become positions
in the script, and these become positions in the document. A call with a span
that the script does not have is left out.

Any reader may be handed in. Its contract makes it a function of the script, so a
script that stands in two places of a document, or in two documents, has the same
references in both but for the place.
-/

namespace BlockMarkup

/-- A function through which scripts reach variables. -/
inductive Accessor where
  | getEnvVar
  | setEnvVar
  | getVar
  | setVar
  | getGlobalEnvVar
  | setGlobalEnvVar
  | getFolderVar
  | getCollectionVar
  | getRequestVar
  | getProcessEnv
deriving DecidableEq

namespace Accessor

/-- The object that has the functions. -/
def object : Text := "bru".toList

/-- All the functions. -/
def all : List Accessor :=
  [.getEnvVar, .setEnvVar, .getVar, .setVar, .getGlobalEnvVar, .setGlobalEnvVar, .getFolderVar,
    .getCollectionVar, .getRequestVar, .getProcessEnv]

/-- The name of a function in scripts. -/
def name : Accessor → Text
  | .getEnvVar => "getEnvVar".toList
  | .setEnvVar => "setEnvVar".toList
  | .getVar => "getVar".toList
  | .setVar => "setVar".toList
  | .getGlobalEnvVar => "getGlobalEnvVar".toList
  | .setGlobalEnvVar => "setGlobalEnvVar".toList
  | .getFolderVar => "getFolderVar".toList
  | .getCollectionVar => "getCollectionVar".toList
  | .getRequestVar => "getRequestVar".toList
  | .getProcessEnv => "getProcessEnv".toList

/-- The function of a name. -/
def ofName? (name : Text) : Option Accessor :=
  all.find? fun accessor => accessor.name == name

/-- Whether a function reads or writes. -/
def access : Accessor → Access
  | .setEnvVar | .setVar | .setGlobalEnvVar => .write
  | _ => .read

/-- The scope a function reaches. -/
def scope : Accessor → Scope
  | .getEnvVar | .setEnvVar => .environment
  | .getVar | .setVar => .runtime
  | .getGlobalEnvVar | .setGlobalEnvVar => .global
  | .getFolderVar => .folder
  | .getCollectionVar => .collection
  | .getRequestVar => .request
  | .getProcessEnv => .processEnv

end Accessor

/-- A call of an accessor: the ranges of the whole call and of the literal with
    its quotes, and the reference that it makes. -/
structure AccessorCall where
  accessor : Accessor
  callRange : Range
  argumentRange : Range
  reference : VariableReference
deriving DecidableEq

/-- An accessor call that a position falls on, and whether it falls on the
    literal. -/
structure AccessorHit where
  call : AccessorCall
  inArgument : Bool
deriving DecidableEq

/-- The range in the containing document of a span of a script that begins at
    `origin`. -/
def Document.outerRange? (script : Document) (origin : Position) (span : Span) :
    Checked (Option Range) :=
  match script.positionAt span.start, script.positionAt span.stop with
  | some start, some stop => do
    let inner ← Range.between start stop
    return some (← inner.toOuter origin)
  | _, _ => .ok none

namespace AccessorCall

/-- The accessor call with these spans, if the script has them all. -/
def locate? (script : Document) (origin : Position) (accessor : Accessor)
    (callSpan argumentSpan nameSpan : Span) : Checked (Option AccessorCall) :=
  match Text.slice? script.text nameSpan.start nameSpan.stop with
  | none => .ok none
  | some name => do
    let some nameRange ← script.outerRange? origin nameSpan | return none
    let some callRange ← script.outerRange? origin callSpan | return none
    let some argumentRange ← script.outerRange? origin argumentSpan | return none
    return some ⟨accessor, callRange, argumentRange,
      ⟨name, nameRange, accessor.access, accessor.scope⟩⟩

/-- A member call as an accessor call. -/
def ofMemberCall? (script : Document) (origin : Position) (call : MemberCall) :
    Checked (Option AccessorCall) :=
  if call.object = Accessor.object then
    match Accessor.ofName? call.property, call.argument with
    | some accessor, some (.literal whole value) =>
      locate? script origin accessor call.span whole value
    | _, _ => .ok none
  else
    .ok none

/-- The accessor calls in code that begins at `origin`. -/
def inCode (reader : ScriptReader) (code : Text) (origin : Position) :
    Checked (List AccessorCall) :=
  match reader code with
  | none => .ok []
  | some outline =>
    Checked.filterMap (ofMemberCall? (Document.ofText code) origin) outline.calls

/-- The references that the accessor calls in code make. -/
def referencesIn (reader : ScriptReader) (code : Text) (origin : Position) :
    Checked (List VariableReference) := do
  return (← inCode reader code origin).map reference

/-- The call that begins last; of several the last in the list. -/
def latest? : List AccessorCall → Option AccessorCall
  | [] => none
  | call :: rest =>
    match latest? rest with
    | none => some call
    | some later => if call.callRange.start ≤ later.callRange.start then some later else some call

/-- The innermost accessor call that a position of the document falls on. -/
def findAt (reader : ScriptReader) (code : Text) (origin p : Position) :
    Checked (Option AccessorHit) := do
  let calls ← inCode reader code origin
  let hits := calls.filter fun call => call.callRange.containsInclusive p
  return (latest? hits).map fun call => ⟨call, call.argumentRange.containsInclusive p⟩

end AccessorCall

end BlockMarkup
