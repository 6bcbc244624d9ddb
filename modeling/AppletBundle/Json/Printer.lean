import AppletBundle.Json.Basic
import AppletBundle.Text.Quoted

/-!
# Writing JSON

Strings escape the quote, the backslash and control characters, and nothing else. Values are laid
out with one member or item a line and two spaces for every level; those without members or items
stay closed.
-/

namespace AppletBundle.Json

/-- One character inside quotes. -/
def escaped (c : Char) : List Char :=
  if c = '"' then ['\\', '"']
  else if c = '\\' then ['\\', '\\']
  else if c = '\x08' then ['\\', 'b']
  else if c = '\x0c' then ['\\', 'f']
  else if c = '\n' then ['\\', 'n']
  else if c = '\r' then ['\\', 'r']
  else if c = '\t' then ['\\', 't']
  else if c.toNat < 32 then
    ['\\', 'u', '0', '0', Nat.digitChar (c.toNat / 16), Nat.digitChar (c.toNat % 16)]
  else [c]

/-- The characters of a text between quotes. -/
def quotedChars (s : List Char) : List Char :=
  '"' :: s.flatMap escaped ++ ['"']

/-- A text between quotes. -/
def quoted (s : String) : String :=
  .ofList (quotedChars s.toList)

/-- A new line at a depth. -/
def newLine (depth : Nat) : List Char :=
  '\n' :: List.replicate (2 * depth) ' '

mutual

/-- The characters of a value at a depth. -/
def printAt (depth : Nat) : Json → List Char
  | null => "null".toList
  | bool true => "true".toList
  | bool false => "false".toList
  | number digits => digits.toList
  | string text => quotedChars text.toList
  | array [] => "[]".toList
  | array (v :: vs) =>
    '[' :: newLine (depth + 1) ++ printAt (depth + 1) v ++ printItems (depth + 1) vs ++
      newLine depth ++ [']']
  | object [] => "\x7b\x7d".toList
  | object ((k, v) :: ms) =>
    '\x7b' :: newLine (depth + 1) ++ quotedChars k.toList ++ [':', ' '] ++ printAt (depth + 1) v ++
      printMembers (depth + 1) ms ++ newLine depth ++ ['\x7d']
  | unpaired => "null".toList

/-- The characters of the items after the first. -/
def printItems (depth : Nat) : List Json → List Char
  | [] => []
  | v :: vs => ',' :: newLine depth ++ printAt depth v ++ printItems depth vs

/-- The characters of the members after the first. -/
def printMembers (depth : Nat) : List (String × Json) → List Char
  | [] => []
  | (k, v) :: ms =>
    ',' :: newLine depth ++ quotedChars k.toList ++ [':', ' '] ++ printAt depth v ++
      printMembers depth ms

end

/-- A value in lines. -/
def pretty (v : Json) : String :=
  .ofList (printAt 0 v)

end AppletBundle.Json
