import AppletBundle.Text.Identifier
import AppletBundle.Text.Split

/-!
# Animations with scoped names

When a stylesheet declares keyframes, their names get a suffix, and the declarations that refer to
them have to follow: `animation-name` lists names, `animation` lists shorthands, in each of which the
first value that names keyframes is the reference.

A declaration is recognised by its text alone: it follows the start of the text, white space, an
opening brace or a semicolon, and its value reaches to the next semicolon or closing brace.
-/

namespace AppletBundle.Style

open AppletBundle.Text

/-- The new names of the keyframes that a stylesheet declares. -/
structure Renaming where
  /-- What every name gets at its end. -/
  suffix : List Char
  /-- The names that were declared. -/
  names : List (List Char)

namespace Renaming

/-- The name that replaces one of the declared names. -/
def renamed (r : Renaming) (name : List Char) : List Char :=
  name ++ r.suffix

/-- The name that an item of a list of names stands for afterwards. -/
def ofName (r : Renaming) (item : List Char) : List Char :=
  let name := trim item
  if name ∈ r.names then r.renamed name else name

/-- Renames the first declared name among the values of a shorthand. -/
def ofValues (r : Renaming) : List (List Char) → List (List Char)
  | [] => []
  | v :: vs => if v ∈ r.names then r.renamed v :: vs else v :: r.ofValues vs

/-- A shorthand afterwards. One that names no keyframes keeps the white space inside it. -/
def ofShorthand (r : Renaming) (item : List Char) : List Char :=
  if (words item).any (· ∈ r.names) then joinWith [' '] (r.ofValues (words item)) else trim item

end Renaming

/-- A declaration that may refer to keyframes. -/
structure AnimationDeclaration where
  /-- The name of the property. -/
  property : List Char
  /-- Whether the value lists names, and not shorthands. -/
  isNameList : Bool
  /-- The colon with the white space around it. -/
  colon : List Char
  value : List Char

namespace AnimationDeclaration

/-- Reads the prefix of a vendor between two dashes. -/
def readVendor (s : List Char) : List Char × List Char :=
  match s with
  | '-' :: rest =>
    match rest.takeWhile isWord, rest.dropWhile isWord with
    | [], _ => ([], s)
    | name, '-' :: after => ('-' :: name ++ ['-'], after)
    | _, _ => ([], s)
  | _ => ([], s)

/-- Reads a fixed word. -/
def readWord? (word s : List Char) : Option (List Char) :=
  if word.isPrefixOf s then some (s.drop word.length) else none

/-- Whether a character ends the value of a declaration. -/
def isValueEnd (c : Char) : Bool :=
  c == ';' || c == '\x7d'

/-- Reads the colon and the value after a property. A value has at least one character, if need be
the last of the white space after the colon. -/
def readValue? (property : List Char) (isNameList : Bool) (s : List Char) :
    Option AnimationDeclaration :=
  match s.dropWhile isBlank with
  | ':' :: rest =>
    let before := s.takeWhile isBlank
    let gap := rest.takeWhile isBlank
    let value := (rest.dropWhile isBlank).takeWhile (!isValueEnd ·)
    match value, gap.getLast? with
    | [], none => none
    | [], some blank => some ⟨property, isNameList, before ++ ':' :: gap.dropLast, [blank]⟩
    | _, _ => some ⟨property, isNameList, before ++ ':' :: gap, value⟩
  | _ => none

/-- The declaration at the start of a text, if there is one. -/
def read? (s : List Char) : Option AnimationDeclaration :=
  let (vendor, rest) := readVendor s
  (readWord? "animation".toList rest).bind fun rest ↦
    let property := vendor ++ "animation".toList
    match readWord? "-name".toList rest with
    | some rest => readValue? (property ++ "-name".toList) true rest
    | none => readValue? property false rest

/-- The number of characters of a declaration. -/
def length (d : AnimationDeclaration) : Nat :=
  d.property.length + d.colon.length + d.value.length

/-- The text of a declaration after renaming. -/
def rename (d : AnimationDeclaration) (r : Renaming) : List Char :=
  let item := if d.isNameList then r.ofName else r.ofShorthand
  d.property ++ d.colon ++ joinWith [','] ((splitAt (· == ',') d.value).map item)

end AnimationDeclaration

/-- Whether a declaration may follow a character. -/
def opensDeclaration (c : Char) : Bool :=
  c == '\x7b' || c == ';' || isBlank c

/-- Renames the references in a text; its first `skip` characters belong to a declaration that was
read before. -/
def renameFrom (r : Renaming) (skip : Nat) : List Char → List Char
  | [] => []
  | c :: rest =>
    match skip with
    | k + 1 => renameFrom r k rest
    | 0 =>
      match if opensDeclaration c then AnimationDeclaration.read? rest else none with
      | some d => c :: d.rename r ++ renameFrom r d.length rest
      | none => c :: renameFrom r 0 rest

/-- Renames the references to keyframes in a stylesheet. -/
def renameAnimations (r : Renaming) (css : List Char) : List Char :=
  match AnimationDeclaration.read? css with
  | some d => d.rename r ++ renameFrom r d.length css
  | none => renameFrom r 0 css

end AppletBundle.Style
