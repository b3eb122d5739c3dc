import BlockMarkup.Span
import BlockMarkup.Text.Measure

/-!
# Patterns

The productions of the line grammar can be written down as patterns. A pattern is
a row of steps. A step stands at an end of the text or takes characters of one
class, and it may be a group, whose part of the text is reported.

Where a step leaves a choice, more characters are preferred to fewer, and the choice
of an earlier step counts before that of a later one. `Pattern.ways` lists the ways
to go through a pattern in this order. A pattern matches where a way begins, in the
first such place of the text, and of the ways from there it is the first that counts.
Nothing here says how a match is looked for.
-/

namespace BlockMarkup

/-- A place in a text: the bytes before it and what follows. -/
structure Place where
  offset : Nat
  rest : Text

/-- A step of a pattern, with the class of the characters that it takes: exactly one
    of them, one if it can, any number, or any number but none. -/
inductive PatternStep where
  | start
  | stop
  | one (allows : Char → Bool)
  | optional (allows : Char → Bool)
  | any (allows : Char → Bool)
  | some (allows : Char → Bool)
  | group (inner : PatternStep)

namespace PatternStep

/-- The place behind the next character, if the character is allowed. -/
def pass? (allows : Char → Bool) : Place → Option Place
  | ⟨_, []⟩ => none
  | ⟨offset, c :: rest⟩ => if allows c then Option.some ⟨offset + c.utf8Size, rest⟩ else none

/-- The places behind any number of allowed characters, the furthest first. -/
def run (allows : Char → Bool) (offset : Nat) : Text → List Place
  | [] => [⟨offset, []⟩]
  | c :: rest =>
    if allows c then run allows (offset + c.utf8Size) rest ++ [⟨offset, c :: rest⟩]
    else [⟨offset, c :: rest⟩]

/-- The places to which a step can lead, the preferred one first. -/
def reach : PatternStep → Place → List Place
  | start, place => if place.offset = 0 then [place] else []
  | stop, place => if place.rest = [] then [place] else []
  | one allows, place => (pass? allows place).toList
  | optional allows, place => (pass? allows place).toList ++ [place]
  | any allows, place => run allows place.offset place.rest
  | some allows, place =>
    (pass? allows place).toList.flatMap fun next => run allows next.offset next.rest
  | group inner, place => inner.reach place

/-- The spans that a step reports if it leads from one place to another. -/
def spans : PatternStep → Place → Place → List Span
  | group inner, place, next => ⟨place.offset, next.offset⟩ :: inner.spans place next
  | _, _, _ => []

end PatternStep

/-- A pattern is a row of steps. -/
abbrev Pattern := List PatternStep

/-- A way through a pattern: the spans of the groups, and the place behind it. -/
structure Way where
  groups : List Span
  stop : Place

/-- A way with a step in front of it that reports the spans. -/
def Way.behind (spans : List Span) (way : Way) : Way :=
  ⟨spans ++ way.groups, way.stop⟩

namespace Pattern

/-- The ways through a pattern from a place, the preferred one first. -/
def ways : Pattern → Place → List Way
  | [], place => [⟨[], place⟩]
  | step :: later, place =>
    (step.reach place).flatMap fun next =>
      (ways later next).map (Way.behind (step.spans place next))

/-- The preferred way through a pattern from a place. -/
def first? (pattern : Pattern) (place : Place) : Option Way :=
  (ways pattern place).head?

/-- What a pattern matches first from a place on: the spans of the whole match and of
    the groups, and the place behind. A later place counts only if there is no way from
    an earlier one. -/
inductive FirstMatch (pattern : Pattern) : Place → List Span → Place → Prop where
  | here {place : Place} {way : Way} (found : pattern.first? place = some way) :
      FirstMatch pattern place (⟨place.offset, way.stop.offset⟩ :: way.groups) way.stop
  | later {offset : Nat} {c : Char} {rest : Text} {spans : List Span} {after : Place}
      (missing : pattern.first? ⟨offset, c :: rest⟩ = none)
      (onward : FirstMatch pattern ⟨offset + c.utf8Size, rest⟩ spans after) :
      FirstMatch pattern ⟨offset, c :: rest⟩ spans after

/-- What a pattern matches in a text: the preferred way from the first place that has
    one. -/
def LeftmostFirst (pattern : Pattern) (text : Text) (spans : List Span) : Prop :=
  ∃ after, pattern.FirstMatch ⟨0, text⟩ spans after

/-- All that a pattern matches from a place on, each match being looked for behind the
    one before. The pattern is one that matches no empty text. -/
inductive Successive (pattern : Pattern) : Place → List (List Span) → Prop where
  | ended {place : Place} (missing : ∀ spans after, ¬ pattern.FirstMatch place spans after) :
      Successive pattern place []
  | found {place after : Place} {spans : List Span} {later : List (List Span)}
      (first : pattern.FirstMatch place spans after) (onward : Successive pattern after later) :
      Successive pattern place (spans :: later)

end Pattern

end BlockMarkup
