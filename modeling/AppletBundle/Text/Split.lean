import AppletBundle.Text.Blank

/-!
# Cutting texts

A text is cut at the characters of a class, or into the words between its white space.
-/

namespace AppletBundle.Text

/-- The parts of a text between the characters of a class; there is always one part more than such
characters. -/
def splitAt (cut : Char → Bool) : List Char → List (List Char)
  | [] => [[]]
  | c :: rest =>
    if cut c then [] :: splitAt cut rest
    else match splitAt cut rest with
      | [] => [[c]]
      | part :: parts => (c :: part) :: parts

/-- The words of a text: its parts without white space. -/
def words (s : List Char) : List (List Char) :=
  (splitAt isBlank s).filter (!·.isEmpty)

/-- The parts of a text with a separator between two of them. -/
def joinWith (separator : List Char) (parts : List (List Char)) : List Char :=
  separator.intercalate parts

/-- Whether a text occurs in another. -/
def occursIn (part : List Char) : List Char → Bool
  | [] => part.isEmpty
  | c :: rest => part.isPrefixOf (c :: rest) || occursIn part rest

end AppletBundle.Text
