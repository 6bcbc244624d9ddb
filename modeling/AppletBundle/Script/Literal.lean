import AppletBundle.Script.Node
import AppletBundle.Text.Hexadecimal
import AppletBundle.Text.Identifier
import AppletBundle.Text.LineEnding

/-!
# Literals of scripts

Reading the literals of a script from the characters after their first one: strings and templates
with their escapes, numbers, and regular expressions. Each reader gives the rest of the text, and
nothing when the text is no such literal. Escapes are read by small machines that look at one
character at a time.
-/

namespace AppletBundle.Script

open AppletBundle.Text

/-- Line terminators of the script language. -/
def isLineTerminator (c : Char) : Bool :=
  c == '\n' || c == '\r' || c == '\u2028' || c == '\u2029'

/-- A digit of an octal number. -/
def isOctalDigit (c : Char) : Bool :=
  '0' ≤ c && c ≤ '7'

/-! ### Strings -/

/-- Where the reader of a string stands. -/
inductive StringState where
  | text
  /-- After a backslash. -/
  | escape
  /-- Inside an escape with a fixed number of digits, of which `left` are missing. -/
  | hex (left value : Nat)
  /-- After `\u`. -/
  | unicode
  /-- Inside the braces of an escape. -/
  | braced (digits value : Nat)
  /-- Inside an octal escape, which may take `left` more digits. -/
  | octal (left value : Nat)
  /-- After a backslash and a carriage return. -/
  | carriageReturn

/-- What one character does to the reader of a string. -/
inductive StringStep where
  | close
  | fail
  | next (state : StringState) (output : List Nat)

/-- A character of a string outside escapes. -/
def StringStep.ofText (quote c : Char) : StringStep :=
  if c = quote then .close
  else if c = '\\' then .next .escape []
  else if c = '\n' || c = '\r' then .fail
  else .next .text [c.toNat]

/-- The character after a backslash. -/
def StringStep.ofEscape (c : Char) : StringStep :=
  match c with
  | 'n' => .next .text [10]
  | 't' => .next .text [9]
  | 'r' => .next .text [13]
  | 'b' => .next .text [8]
  | 'f' => .next .text [12]
  | 'v' => .next .text [11]
  | 'x' => .next (.hex 2 0) []
  | 'u' => .next .unicode []
  | '\n' => .next .text []
  | '\u2028' => .next .text []
  | '\u2029' => .next .text []
  | '\r' => .next .carriageReturn []
  | _ =>
    if isOctalDigit c then .next (.octal (if c ≤ '3' then 2 else 1) (c.toNat - 48)) []
    else .next .text [c.toNat]

/-- One character of a string that ends with `quote`. -/
def StringState.step (quote : Char) (c : Char) : StringState → StringStep
  | .text => .ofText quote c
  | .escape => .ofEscape c
  | .hex left value =>
    match hexValue? c with
    | none => .fail
    | some d =>
      if left ≤ 1 then .next .text [16 * value + d] else .next (.hex (left - 1) (16 * value + d)) []
  | .unicode =>
    if c = '\x7b' then .next (.braced 0 0) []
    else match hexValue? c with
      | none => .fail
      | some d => .next (.hex 3 d) []
  | .braced digits value =>
    if c = '\x7d' then
      if digits = 0 then .fail else .next .text [value]
    else match hexValue? c with
      | none => .fail
      | some d =>
        if 16 * value + d ≤ 0x10FFFF then .next (.braced (digits + 1) (16 * value + d)) [] else .fail
  | .octal left value =>
    if isOctalDigit c && left != 0 then .next (.octal (left - 1) (8 * value + (c.toNat - 48))) []
    else match StringStep.ofText quote c with
      | .close => .close
      | .fail => .fail
      | .next state output => .next state (value :: output)
  | .carriageReturn => if c = '\n' then .next .text [] else .ofText quote c

/-- What is still owed when a string closes. -/
def StringState.pending : StringState → List Nat
  | .octal _ value => [value]
  | _ => []

/-- Joins pairs of surrogates. -/
def joinSurrogates : List Nat → List Nat
  | h :: l :: rest =>
    if 0xD800 ≤ h && h < 0xDC00 && 0xDC00 ≤ l && l < 0xE000 then
      (0x10000 + (h - 0xD800) * 0x400 + (l - 0xDC00)) :: joinSurrogates rest
    else h :: joinSurrogates (l :: rest)
  | rest => rest

/-- A string that was read: its value, its text between the quotes, and what follows it. -/
structure StringLexeme where
  value : StringValue
  raw : List Char
  rest : List Char

/-- Reads a string after its opening quote; the lists so far are reversed. -/
def readString (quote : Char) (state : StringState) (value : List Nat) (raw : List Char) :
    List Char → Option StringLexeme
  | [] => none
  | c :: rest =>
    match state.step quote c with
    | .fail => none
    | .close => some ⟨joinSurrogates (state.pending.reverse ++ value).reverse, raw.reverse, rest⟩
    | .next state output => readString quote state (output.reverse ++ value) (c :: raw) rest

/-! ### Templates -/

/-- A stretch of a template up to its end or to the next value. -/
structure TemplateLexeme where
  raw : List Char
  /-- Whether the template ends here. -/
  isTail : Bool
  /-- The number of characters read, the delimiter included. -/
  rest : List Char
  size : Nat

/-- Reads a template up to a closing quote or an opening brace. -/
def readTemplate (escaped : Bool) (raw : List Char) (size : Nat) :
    List Char → Option TemplateLexeme
  | [] => none
  | c :: rest =>
    if escaped then readTemplate false (c :: raw) (size + c.utf8Size) rest
    else if c = '\u0060' then some ⟨raw.reverse, true, rest, size + 1⟩
    else if c = '$' && rest.head? = some '\x7b' then
      some ⟨raw.reverse, false, rest.drop 1, size + 2⟩
    else readTemplate (c = '\\') (c :: raw) (size + c.utf8Size) rest

/-- Whether all escapes of a template's text have a meaning. -/
def hasValidEscapes (state : StringState) : List Char → Bool
  | [] =>
    match state with
    | .text => true
    | .carriageReturn => true
    | .octal _ _ => true
    | _ => false
  | c :: rest =>
    match state with
    | .escape =>
      if '1' ≤ c && c ≤ '9' then false
      else if c = '0' then !(rest.head?.any Char.isDigit) && hasValidEscapes .text rest
      else match StringStep.ofEscape c with
        | .next state _ => hasValidEscapes state rest
        | _ => false
    | .text => hasValidEscapes (if c = '\\' then .escape else .text) rest
    | .carriageReturn => hasValidEscapes (if c = '\\' then .escape else .text) rest
    | state =>
      match state.step '\x00' c with
      | .next state _ => hasValidEscapes state rest
      | _ => false

/-- The text of a template as its raw value, with line feeds only. -/
def templateRaw (raw : List Char) : String :=
  .ofList ((joinLinePairs raw).map lineFeedFor)

/-! ### Numbers -/

/-- A number that was read. -/
structure NumberLexeme where
  raw : List Char
  isBigInt : Bool
  rest : List Char

/-- Whether separators stand only between digits. -/
def hasValidSeparators (digits : List Char) : Bool :=
  match digits with
  | [] => true
  | '_' :: _ => false
  | _ :: '_' :: '_' :: _ => false
  | [_, '_'] => false
  | _ :: '_' :: rest => hasValidSeparators rest
  | _ :: rest => hasValidSeparators rest

/-- The longest run of digits and separators, if its separators are valid. -/
def digitRun (isDigit : Char → Bool) (s : List Char) : Option (List Char × List Char) :=
  let run := s.takeWhile fun c ↦ isDigit c || c == '_'
  if hasValidSeparators run then some (run, s.dropWhile fun c ↦ isDigit c || c == '_') else none

/-- Refuses a number that runs into a name or another digit. -/
def endNumber (raw : List Char) (isBigInt : Bool) (rest : List Char) : Option NumberLexeme :=
  match rest with
  | [] => some ⟨raw, isBigInt, rest⟩
  | c :: _ => if isIdentifierStart c || c.isDigit || c == '\\' then none else some ⟨raw, isBigInt, rest⟩

/-- An integer that a letter may mark as a big one. -/
def endInteger (raw : List Char) (rest : List Char) : Option NumberLexeme :=
  match rest with
  | 'n' :: rest => endNumber (raw ++ ['n']) true rest
  | _ => endNumber raw false rest

/-- Digits after a base mark. -/
def readBased (mark : List Char) (isDigit : Char → Bool) (s : List Char) : Option NumberLexeme :=
  match digitRun isDigit s with
  | none => none
  | some ([], _) => none
  | some (digits, rest) => endInteger (mark ++ digits) rest

/-- The exponent of a decimal number, if one follows. -/
def readExponent (raw : List Char) (s : List Char) : Option NumberLexeme :=
  match s with
  | e :: rest =>
    if e = 'e' || e = 'E' then
      let (sign, rest) := match rest with
        | '+' :: rest => (['+'], rest)
        | '-' :: rest => (['-'], rest)
        | _ => ([], rest)
      match digitRun Char.isDigit rest with
      | none => none
      | some ([], _) => none
      | some (digits, rest) => endNumber (raw ++ e :: sign ++ digits) false rest
    else endNumber raw false s
  | [] => endNumber raw false s

/-- The fraction of a decimal number after its point. -/
def readFraction (raw : List Char) (s : List Char) : Option NumberLexeme :=
  match digitRun Char.isDigit s with
  | none => none
  | some (digits, rest) => readExponent (raw ++ digits) rest

/-- The part of a decimal number after its integer digits. -/
def readAfterInteger (digits : List Char) (rest : List Char) : Option NumberLexeme :=
  match rest with
  | '.' :: rest => readFraction (digits ++ ['.']) rest
  | 'n' :: _ => endInteger digits rest
  | _ => readExponent digits rest

/-- Reads a number that starts with a digit. -/
def readNumber (s : List Char) : Option NumberLexeme :=
  match s with
  | '0' :: c :: rest =>
    if c = 'x' || c = 'X' then readBased ['0', c] (fun c ↦ (hexValue? c).isSome) rest
    else if c = 'o' || c = 'O' then readBased ['0', c] isOctalDigit rest
    else if c = 'b' || c = 'B' then readBased ['0', c] (fun c ↦ c == '0' || c == '1') rest
    else if c.isDigit then
      let digits := s.takeWhile Char.isDigit
      let rest := s.dropWhile Char.isDigit
      if digits.all isOctalDigit then endNumber digits false rest
      else match rest with
        | '.' :: rest => readFraction (digits ++ ['.']) rest
        | _ => readExponent digits rest
    else if c = '_' then none
    else readAfterInteger ['0'] (c :: rest)
  | _ =>
    match digitRun Char.isDigit s with
    | none => none
    | some (digits, rest) => readAfterInteger digits rest

/-! ### Regular expressions -/

/-- Reads the body of a regular expression up to its closing slash. -/
def readRegexBody (inClass escaped : Bool) (raw : List Char) :
    List Char → Option (List Char × List Char)
  | [] => none
  | c :: rest =>
    if isLineTerminator c then none
    else if escaped then readRegexBody inClass false (c :: raw) rest
    else if c = '/' && !inClass then some (raw.reverse, rest)
    else readRegexBody (if c = '[' then true else if c = ']' then false else inClass) (c = '\\')
      (c :: raw) rest

/-- Whether the flags of a regular expression are known and pairwise different. -/
def validFlags : List Char → Bool
  | [] => true
  | c :: rest => "dgimsuvy".toList.contains c && !rest.contains c && validFlags rest

/-- Reads a regular expression after its opening slash; its text and what follows it. -/
def readRegex (s : List Char) : Option (List Char × List Char) :=
  match readRegexBody false false [] s with
  | none => none
  | some (body, rest) =>
    let flags := rest.takeWhile isIdentifierPart
    if validFlags flags then
      some ('/' :: body ++ '/' :: flags, rest.dropWhile isIdentifierPart)
    else none

end AppletBundle.Script
