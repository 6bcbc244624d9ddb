import AppletBundle.Text.CharRange

/-!
# White space

White space in the sense of the character standard: the class used for trimming, for compacting
styles and for the gaps that a search pattern allows.
-/

namespace AppletBundle.Text

/-- Ranges of white space characters. -/
def blankRanges : List (Nat × Nat) :=
  [(9, 13), (32, 32), (133, 133), (160, 160), (5760, 5760), (8192, 8202), (8232, 8233),
   (8239, 8239), (8287, 8287), (12288, 12288)]

/-- A white space character of any alphabet. -/
def isBlank (c : Char) : Bool :=
  inRanges blankRanges c

/-- The text without white space in front. -/
def trimStart (s : List Char) : List Char :=
  s.dropWhile isBlank

/-- The text without white space at its end. -/
def trimEnd (s : List Char) : List Char :=
  (s.reverse.dropWhile isBlank).reverse

/-- The text without white space on both sides. -/
def trim (s : List Char) : List Char :=
  trimEnd (trimStart s)

end AppletBundle.Text
