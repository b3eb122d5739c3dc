import BlockMarkup.Grammar.Entry
import BlockMarkup.Grammar.Header
import BlockMarkup.Grammar.Interpolation
import BlockMarkup.Grammar.Pattern

/-!
# The productions of the line grammar

Each production of the grammar can be asked where it applies to a text. The
answer lists byte spans: first that of everything the production covers, then
those of its parts. All but the interpolation cover the whole text or nothing;
of several interpolations the first is reported.

Each production is written down as a pattern too. The pattern says by its
preferences what the readers decide by looking: that blanks are taken before
anything else, that a tilde is a mark if the rest of the line allows it, and that of
several interpolations the first counts.
-/

namespace BlockMarkup

/-- A production of the line grammar. -/
inductive Production where
  | header
  | blockName
  | field
  | innerEntry
  | lastEntry
  | interpolation
deriving DecidableEq

/-- Whether a character opens a block. -/
def opensBlock (c : Char) : Bool :=
  c == '{' || c == '['

namespace Production

/-- The comma at the end of an entry line that has one. -/
def terminator : EntryPlace → Pattern
  | .inner => [.one (· == ',')]
  | .last => []

/-- The pattern of an entry line. -/
def entryPattern (place : EntryPlace) : Pattern :=
  [.start, .any isBlank, .group (.optional (· == '~')), .group (.any isEntryChar), .any isBlank] ++
    terminator place ++ [.stop]

/-- The pattern of a production. -/
def pattern : Production → Pattern
  | .header =>
    [.start, .any isBlank, .group (.some isNameChar), .any isBlank, .group (.one opensBlock),
      .any isBlank, .stop]
  | .blockName => [.start, .some isNameChar, .stop]
  | .field =>
    [.start, .any isBlank, .group (.optional (· == '~')), .group (.some isKeyChar), .any isBlank,
      .one (· == ':'), .group (.any (· != '\n')), .stop]
  | .innerEntry => entryPattern .inner
  | .lastEntry => entryPattern .last
  | .interpolation =>
    [.one (· == '{'), .one (· == '{'), .group (.some isVariableChar), .one (· == '}'),
      .one (· == '}')]

end Production

/-- The span of everything a production covers and those of its parts, if it
    applies to the text. -/
def Production.spans? (production : Production) (text : Text) : Option (List Span) :=
  let whole : Span := ⟨0, Text.size text⟩
  match production with
  | .header => (HeaderLine.read? text).map fun line => [whole, line.nameSpan, line.bracketSpan]
  | .blockName => if isBlockName text then some [whole] else none
  | .field =>
    (FieldLine.read? text).map fun line => [whole, line.markSpan, line.keySpan, line.valueSpan]
  | .innerEntry =>
    (EntryLine.read? .inner text).map fun line => [whole, line.markSpan, line.entrySpan]
  | .lastEntry =>
    (EntryLine.read? .last text).map fun line => [whole, line.markSpan, line.entrySpan]
  | .interpolation =>
    (Interpolation.scan text).head?.map fun found => [found.wholeSpan, found.nameSpan]

end BlockMarkup
