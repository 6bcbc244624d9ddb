import AppletBundle.Text.Hexadecimal

/-!
# Texts in TOML

A text stands between single or double quotes, on one line, or between three of them on any number of
lines. Between double quotes a backslash opens an escape. The readers start after the opening quotes
and give the text with the rest after the closing quotes.
-/

namespace AppletBundle.Toml

open AppletBundle.Text

/-- A character that a line may hold: no control but the tab. -/
def isLineChar (c : Char) : Bool :=
  c == '\t' || (32 ≤ c.toNat && c.toNat != 127)

/-- White space in a line. -/
def isSpace (c : Char) : Bool :=
  c == ' ' || c == '\t'

/-- The character with a code point. -/
def charOf? (n : Nat) : Option Char :=
  if n.isValidChar then some (.ofNat n) else none

/-- The character that a letter after a backslash stands for. -/
def escapedChar? : Char → Option Char
  | 'b' => some '\x08'
  | 't' => some '\t'
  | 'n' => some '\n'
  | 'f' => some '\x0c'
  | 'r' => some '\r'
  | '"' => some '"'
  | '\\' => some '\\'
  | _ => none

/-- The number of digits of an escape by code point. -/
def codeDigits? : Char → Option Nat
  | 'u' => some 4
  | 'U' => some 8
  | _ => none

/-- Where the reader of a text between double quotes stands. -/
inductive TextState where
  | text
  /-- After a backslash. -/
  | escape
  /-- Inside an escape by code point, of which `left` digits are missing. -/
  | code (left value : Nat)
  /-- Inside white space that an escaped line ending drops. -/
  | gap

/-- Puts a character in front of a text that was read. -/
def consText (c : Char) (r : List Char × List Char) : List Char × List Char :=
  (c :: r.1, r.2)

/-- Reads one character of an escape: the state after it, and the character that it completes. -/
def escapeStep (s : TextState) (c : Char) : Option (TextState × Option Char) :=
  match s with
  | .code left value => do
    let d ← hexValue? c
    let n := 16 * value + d
    if left ≤ 1 then
      let ch ← charOf? n
      return (.text, some ch)
    else return (.code (left - 1) n, none)
  | _ =>
    match codeDigits? c with
    | some left => some (.code left 0, none)
    | none => (escapedChar? c).map fun ch ↦ (.text, some ch)

/-- Reads a text between double quotes on one line. -/
def readBasic : TextState → List Char → Option (List Char × List Char)
  | _, [] => none
  | .text, c :: rest =>
    if c = '"' then some ([], rest)
    else if c = '\\' then readBasic .escape rest
    else if isLineChar c then (readBasic .text rest).map (consText c)
    else none
  | s, c :: rest =>
    match escapeStep s c with
    | none => none
    | some (s, none) => readBasic s rest
    | some (s, some ch) => (readBasic s rest).map (consText ch)

/-- Reads a text between single quotes on one line. -/
def readLiteral : List Char → Option (List Char × List Char)
  | [] => none
  | c :: rest =>
    if c = '\'' then some ([], rest)
    else if isLineChar c then (readLiteral rest).map (consText c)
    else none

/-- The number of times that a text opens with a character. -/
def runLength (c : Char) (s : List Char) : Nat :=
  (s.takeWhile (· == c)).length

/-- The end of a text between three quotes, if it is here: up to two quotes may stand in front of the
closing ones and belong to the text. -/
def closing? (quote : Char) (s : List Char) : Option (List Char × List Char) :=
  let run := min (runLength quote s) 5
  if run < 3 then none else some (List.replicate (run - 3) quote, s.drop run)

/-- Whether white space with a line ending in it opens a text. -/
def opensGap (s : List Char) : Bool :=
  match s.dropWhile isSpace with
  | '\n' :: _ => true
  | '\r' :: '\n' :: _ => true
  | _ => false

/-- Reads a text between three double quotes. A line ending is a line feed in the text. -/
def readBasicLines : TextState → List Char → Option (List Char × List Char)
  | _, [] => none
  | .text, c :: rest =>
    match closing? '"' (c :: rest) with
    | some r => some r
    | none =>
      if c = '\\' then readBasicLines (if opensGap rest then .gap else .escape) rest
      else if c = '\r' then
        if rest.head? = some '\n' then readBasicLines .text rest else none
      else if c = '\n' || isLineChar c then (readBasicLines .text rest).map (consText c)
      else none
  | .gap, c :: rest =>
    if isSpace c || c = '\n' || (c = '\r' && rest.head? = some '\n') then readBasicLines .gap rest
    else match closing? '"' (c :: rest) with
      | some r => some r
      | none =>
        if c = '\\' then readBasicLines (if opensGap rest then .gap else .escape) rest
        else if isLineChar c then (readBasicLines .text rest).map (consText c)
        else none
  | s, c :: rest =>
    match escapeStep s c with
    | none => none
    | some (s, none) => readBasicLines s rest
    | some (s, some ch) => (readBasicLines s rest).map (consText ch)

/-- Reads a text between three single quotes. A line ending is a line feed in the text. -/
def readLiteralLines : List Char → Option (List Char × List Char)
  | [] => none
  | c :: rest =>
    match closing? '\'' (c :: rest) with
    | some r => some r
    | none =>
      if c = '\r' then
        if rest.head? = some '\n' then readLiteralLines rest else none
      else if c = '\n' || isLineChar c then (readLiteralLines rest).map (consText c)
      else none

/-- The text without a line ending at its start. -/
def dropLineEnding : List Char → List Char
  | '\n' :: rest => rest
  | '\r' :: '\n' :: rest => rest
  | s => s

/-- Reads a text in quotes of any form, if one starts here. -/
def readText : List Char → Option (String × List Char)
  | '"' :: '"' :: '"' :: rest =>
    (readBasicLines .text (dropLineEnding rest)).map fun (t, rest) ↦ (.ofList t, rest)
  | '\'' :: '\'' :: '\'' :: rest =>
    (readLiteralLines (dropLineEnding rest)).map fun (t, rest) ↦ (.ofList t, rest)
  | '"' :: rest => (readBasic .text rest).map fun (t, rest) ↦ (.ofList t, rest)
  | '\'' :: rest => (readLiteral rest).map fun (t, rest) ↦ (.ofList t, rest)
  | _ => none

end AppletBundle.Toml
