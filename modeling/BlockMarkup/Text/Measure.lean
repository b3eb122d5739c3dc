/-!
# Text and its byte measure

A text is a list of characters, and every offset, length and column of this
library counts the bytes of its UTF-8 form. An offset between two characters is
a boundary; an offset inside a character is not. Cutting is total: a cut that
falls inside a character keeps only the characters that fit whole, so no
character is ever divided.

`slice?` is the strict form, which refuses offsets that are out of bounds, out
of order or not boundaries.
-/

namespace BlockMarkup

/-- A text, character by character. -/
abbrev Text := List Char

namespace Text

/-- The number of bytes in the UTF-8 form of a text. -/
def size : Text → Nat
  | [] => 0
  | c :: rest => c.utf8Size + size rest

/-- The largest boundary of the text that is not above the offset. -/
def floorBoundary : Text → Nat → Nat
  | [], _ => 0
  | c :: rest, offset =>
    if c.utf8Size ≤ offset then c.utf8Size + floorBoundary rest (offset - c.utf8Size) else 0

/-- Whether the offset lies between two characters, or at either end. -/
def isBoundary (text : Text) (offset : Nat) : Bool :=
  floorBoundary text offset == offset

/-- The longest part from the start that has at most this many bytes. -/
def takeSize : Nat → Text → Text
  | _, [] => []
  | limit, c :: rest =>
    if c.utf8Size ≤ limit then c :: takeSize (limit - c.utf8Size) rest else []

/-- What `takeSize` leaves. -/
def dropSize : Nat → Text → Text
  | _, [] => []
  | limit, c :: rest =>
    if c.utf8Size ≤ limit then dropSize (limit - c.utf8Size) rest else c :: rest

/-- The characters from one offset up to another. -/
def between (text : Text) (start stop : Nat) : Text :=
  takeSize (stop - start) (dropSize start text)

/-- The characters of a span, if both ends are boundaries of the text and in
    order. -/
def slice? (text : Text) (start stop : Nat) : Option Text :=
  if start ≤ stop && isBoundary text start && isBoundary text stop then
    some (between text start stop)
  else
    none

/-- The empty text has no bytes. -/
@[simp]
theorem size_nil : size [] = 0 := rfl

/-- The bytes of the first character come first. -/
@[simp]
theorem size_cons (c : Char) (rest : Text) : size (c :: rest) = c.utf8Size + size rest := rfl

/-- The bytes of two texts add up. -/
@[simp]
theorem size_append (front back : Text) : size (front ++ back) = size front + size back := by
  induction front with
  | nil => simp
  | cons c rest hypothesis => simp [hypothesis, Nat.add_assoc]

/-- Cutting loses nothing. -/
theorem takeSize_append_dropSize (limit : Nat) (text : Text) :
    takeSize limit text ++ dropSize limit text = text := by
  induction text generalizing limit with
  | nil => rfl
  | cons c rest hypothesis =>
    simp only [takeSize, dropSize]
    split
    · simp [hypothesis]
    · rfl

/-- The part that is kept reaches exactly to the boundary below the limit. -/
theorem size_takeSize (limit : Nat) (text : Text) :
    size (takeSize limit text) = floorBoundary text limit := by
  induction text generalizing limit with
  | nil => rfl
  | cons c rest hypothesis =>
    simp only [takeSize, floorBoundary]
    split
    · simp [hypothesis]
    · rfl

/-- A boundary found below an offset is not above it. -/
theorem floorBoundary_le (text : Text) (offset : Nat) : floorBoundary text offset ≤ offset := by
  induction text generalizing offset with
  | nil => exact Nat.zero_le _
  | cons c rest hypothesis =>
    simp only [floorBoundary]
    split
    · have := hypothesis (offset - c.utf8Size)
      omega
    · exact Nat.zero_le _

end Text

end BlockMarkup
