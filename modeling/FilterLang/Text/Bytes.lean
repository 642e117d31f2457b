/-! Positions in a text counted in UTF-8 bytes. -/

namespace FilterLang

/-- The number of bytes a run of characters takes in UTF-8. -/
def byteLength : List Char → Nat
  | [] => 0
  | c :: cs => c.utf8Size + byteLength cs

/-- The number of bytes a text takes in UTF-8. -/
def byteSize (text : String) : Nat :=
  byteLength text.toList

/-- What is left after a number of bytes, or nothing when that cuts a character or overruns. -/
def dropBytes : Nat → List Char → Option (List Char)
  -- An offset of nothing is always a boundary.
  | 0, cs => some cs
  | _ + 1, [] => none
  | count + 1, c :: cs =>
    -- A character is dropped whole or not at all.
    if c.utf8Size ≤ count + 1 then dropBytes (count + 1 - c.utf8Size) cs else none

/-- The leading characters that take a number of bytes, or nothing when none take exactly that. -/
def takeBytes : Nat → List Char → Option (List Char)
  | 0, _ => some []
  | _ + 1, [] => none
  | count + 1, c :: cs =>
    -- A character is taken whole or not at all.
    if c.utf8Size ≤ count + 1 then (takeBytes (count + 1 - c.utf8Size) cs).map (c :: ·) else none

/-- The characters between two byte offsets, when both are boundaries in order. -/
def sliceBytes (start stop : Nat) (cs : List Char) : Option (List Char) :=
  -- The stop counts from the start of the text, so the start is taken off it.
  if start ≤ stop then (dropBytes start cs).bind (takeBytes (stop - start)) else none

/-- The last character boundary at or before a byte offset; past the end it is the end. -/
def floorBoundary : Nat → List Char → Nat
  | _, [] => 0
  | offset, c :: cs =>
    -- An offset inside this character falls back to its beginning.
    if c.utf8Size ≤ offset then c.utf8Size + floorBoundary (offset - c.utf8Size) cs else 0

/-- Dropping no bytes leaves the whole text. -/
@[simp] theorem dropBytes_zero (cs : List Char) : dropBytes 0 cs = some cs := by
  -- Both forms of the text leave it untouched.
  cases cs <;> rfl

/-- Taking no bytes gives the empty run. -/
@[simp] theorem takeBytes_zero (cs : List Char) : takeBytes 0 cs = some [] := by
  -- No character is looked at.
  cases cs <;> rfl

/-- The bytes of two runs add up. -/
@[simp] theorem byteLength_append (front back : List Char) :
    byteLength (front ++ back) = byteLength front + byteLength back := by
  -- Each character of the front moves one summand to the left.
  induction front with
  | nil => simp [byteLength]
  | cons c cs ih => simp [byteLength, ih, Nat.add_assoc]

end FilterLang
