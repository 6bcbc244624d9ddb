/-!
# Slices at byte offsets

Offsets into a source count the bytes of its UTF-8 form. A cut is defined only between two
characters and inside the text; everywhere else there is no slice.
-/

namespace AppletBundle.Text

/-- The number of bytes that the characters take in UTF-8. -/
def byteLength (s : List Char) : Nat :=
  s.foldl (fun n c ↦ n + c.utf8Size) 0

/-- The text after its first `n` bytes, if a character ends there. -/
def dropBytes? : Nat → List Char → Option (List Char)
  | 0, s => some s
  | _ + 1, [] => none
  | n + 1, c :: rest => if c.utf8Size ≤ n + 1 then dropBytes? (n + 1 - c.utf8Size) rest else none

/-- The first `n` bytes of the text, if a character ends there. -/
def takeBytes? : Nat → List Char → Option (List Char)
  | 0, _ => some []
  | _ + 1, [] => none
  | n + 1, c :: rest =>
    if c.utf8Size ≤ n + 1 then (takeBytes? (n + 1 - c.utf8Size) rest).map (c :: ·) else none

/-- The text between two byte offsets, if both are on character boundaries and in order. -/
def slice? (s : List Char) (start stop : Nat) : Option (List Char) :=
  if start ≤ stop then (dropBytes? start s).bind (takeBytes? (stop - start)) else none

end AppletBundle.Text
