import AppletBundle.Json.Basic
import AppletBundle.Text.Hexadecimal

/-!
# Reading JSON

Readers take the characters from where they stand and give what they read with the rest, or nothing
when the text is not of the format. A string is read in two steps: its characters and escapes become
symbols, where an escape by a number stands for a UTF-16 unit; then units are paired, and a text
results unless half a pair is left over.
-/

namespace AppletBundle.Json

open AppletBundle.Text

/-! ### Strings -/

/-- A part of a string: a character, or a UTF-16 unit that was written as a number. -/
inductive Symbol where
  | char (c : Char)
  | unit (n : Nat)
  deriving DecidableEq

/-- The character that a letter after a backslash stands for. -/
def escapedChar? : Char → Option Char
  | '"' => some '"'
  | '\\' => some '\\'
  | '/' => some '/'
  | 'b' => some '\x08'
  | 'f' => some '\x0c'
  | 'n' => some '\n'
  | 'r' => some '\r'
  | 't' => some '\t'
  | _ => none

/-- Reads the symbols of a string up to the closing quote. -/
def readSymbols : List Char → Option (List Symbol × List Char)
  | [] => none
  | '\\' :: 'u' :: a :: b :: c :: d :: rest => do
    let n ← hexNumber? [a, b, c, d]
    let (symbols, rest) ← readSymbols rest
    return (.unit n :: symbols, rest)
  | '\\' :: e :: rest => do
    let c ← escapedChar? e
    let (symbols, rest) ← readSymbols rest
    return (.char c :: symbols, rest)
  | c :: rest =>
    if c = '"' then some ([], rest)
    else if c = '\\' || c.toNat < 32 then none
    else do
      let (symbols, rest) ← readSymbols rest
      return (.char c :: symbols, rest)

/-- Whether a unit is the first half of a pair. -/
def isHighHalf (n : Nat) : Bool :=
  0xD800 ≤ n && n < 0xDC00

/-- Whether a unit is the second half of a pair. -/
def isLowHalf (n : Nat) : Bool :=
  0xDC00 ≤ n && n < 0xE000

/-- The text of symbols, unless half a pair is left over. -/
def textOf? : List Symbol → Option (List Char)
  | [] => some []
  | .char c :: rest => (textOf? rest).map (c :: ·)
  | .unit n :: .unit m :: rest =>
    if isHighHalf n && isLowHalf m then
      (textOf? rest).map (Char.ofNat (0x10000 + 0x400 * (n - 0xD800) + (m - 0xDC00)) :: ·)
    else if isHighHalf n || isLowHalf n then none
    else (textOf? (.unit m :: rest)).map (Char.ofNat n :: ·)
  | .unit n :: rest =>
    if isHighHalf n || isLowHalf n then none
    else (textOf? rest).map (Char.ofNat n :: ·)

/-- Reads a string after its opening quote. There is no text when half a pair is left over. -/
def readString (s : List Char) : Option (Option String × List Char) := do
  let (symbols, rest) ← readSymbols s
  return ((textOf? symbols).map .ofList, rest)

/-! ### Numbers -/

/-- Reads at least one digit. -/
def readDigits (s : List Char) : Option (List Char × List Char) :=
  let (digits, rest) := s.span Char.isDigit
  if digits.isEmpty then none else some (digits, rest)

/-- Reads the whole part of a number: no zero stands in front of other digits. -/
def readWhole : List Char → Option (List Char × List Char)
  | '0' :: rest => some (['0'], rest)
  | s => readDigits s

/-- Reads the digits after the point, if there is one. -/
def readFraction : List Char → Option (List Char × List Char)
  | '.' :: rest => (readDigits rest).map fun (digits, rest) ↦ ('.' :: digits, rest)
  | s => some ([], s)

/-- Reads the sign of an exponent. -/
def readSign : List Char → List Char × List Char
  | '+' :: rest => (['+'], rest)
  | '-' :: rest => (['-'], rest)
  | s => ([], s)

/-- Reads the exponent, if there is one. -/
def readExponent : List Char → Option (List Char × List Char)
  | [] => some ([], [])
  | c :: rest =>
    if c = 'e' || c = 'E' then
      let (sign, rest) := readSign rest
      (readDigits rest).map fun (digits, rest) ↦ (c :: sign ++ digits, rest)
    else some ([], c :: rest)

/-- Reads a number without its sign. -/
def readMagnitude (s : List Char) : Option (List Char × List Char) := do
  let (whole, rest) ← readWhole s
  let (fraction, rest) ← readFraction rest
  let (exponent, rest) ← readExponent rest
  return (whole ++ fraction ++ exponent, rest)

/-- Reads a number. -/
def readNumber : List Char → Option (List Char × List Char)
  | '-' :: rest => (readMagnitude rest).map fun (digits, rest) ↦ ('-' :: digits, rest)
  | s => readMagnitude s

/-! ### Values -/

/-- White space between the parts of a value. -/
def isGap (c : Char) : Bool :=
  c == ' ' || c == '\n' || c == '\r' || c == '\t'

/-- The text after the white space in front of it. -/
def skipGap (s : List Char) : List Char :=
  s.dropWhile isGap

/-- The text after a word. -/
def afterWord (word : String) (s : List Char) : Option (List Char) :=
  if word.toList.isPrefixOf s then some (s.drop word.length) else none

/-- An object, unless one of its names holds half a pair. -/
def ofMembers (members : List (Option String × Json)) : Json :=
  match members.mapM fun (name, v) ↦ name.map fun n ↦ (n, v) with
  | some members => .object members
  | none => .unpaired

mutual

/-- Reads a value of a bounded length. -/
def readValue : Nat → List Char → Option (Json × List Char)
  | 0, _ => none
  | fuel + 1, s =>
    match skipGap s with
    | '"' :: rest => (readString rest).map fun (text, rest) ↦
        (match text with
          | some t => .string t
          | none => .unpaired, rest)
    | '[' :: rest =>
      match skipGap rest with
      | ']' :: rest => some (.array [], rest)
      | rest => (readItems fuel rest).map fun (items, rest) ↦ (.array items, rest)
    | '\x7b' :: rest =>
      match skipGap rest with
      | '\x7d' :: rest => some (.object [], rest)
      | rest => (readMembers fuel rest).map fun (members, rest) ↦ (ofMembers members, rest)
    | 'n' :: rest => (afterWord "ull" rest).map fun rest ↦ (.null, rest)
    | 't' :: rest => (afterWord "rue" rest).map fun rest ↦ (.bool true, rest)
    | 'f' :: rest => (afterWord "alse" rest).map fun rest ↦ (.bool false, rest)
    | s => (readNumber s).map fun (digits, rest) ↦ (.number (.ofList digits), rest)

/-- Reads items up to the closing bracket; there is at least one. -/
def readItems : Nat → List Char → Option (List Json × List Char)
  | 0, _ => none
  | fuel + 1, s => do
    let (v, rest) ← readValue fuel s
    match skipGap rest with
    | ']' :: rest => return ([v], rest)
    | ',' :: rest =>
      let (vs, rest) ← readItems fuel rest
      return (v :: vs, rest)
    | _ => none

/-- Reads members up to the closing brace; there is at least one. -/
def readMembers : Nat → List Char → Option (List (Option String × Json) × List Char)
  | 0, _ => none
  | fuel + 1, s =>
    match skipGap s with
    | '"' :: rest => do
      let (name, rest) ← readString rest
      match skipGap rest with
      | ':' :: rest =>
        let (v, rest) ← readValue fuel rest
        match skipGap rest with
        | '\x7d' :: rest => return ([(name, v)], rest)
        | ',' :: rest =>
          let (ms, rest) ← readMembers fuel rest
          return ((name, v) :: ms, rest)
        | _ => none
      | _ => none
    | _ => none

end

/-- The value that a text is, with white space around it. Every level of a value takes at most two
steps of reading and at least one character, which bounds the steps. -/
def parse? (s : List Char) : Option Json :=
  match readValue (2 * s.length + 2) s with
  | some (v, rest) => if (skipGap rest).isEmpty then some v else none
  | none => none

end AppletBundle.Json
