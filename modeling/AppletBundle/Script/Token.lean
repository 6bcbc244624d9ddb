import AppletBundle.Script.Literal
import AppletBundle.Text.Slice

/-!
# Tokens of scripts

A script is cut into tokens on demand: whether a slash divides or opens a regular expression, and
whether a closing brace goes on with a template, is known only to the parser. `Token.read` gives the
token for the usual reading; the parser asks again for the others. Before a token stand blanks and
comments, the *trivia*, of which the parser needs to know whether they hold a line terminator.
-/

namespace AppletBundle.Script

open AppletBundle.Text

/-- A token of a script. -/
inductive Token where
  | eof
  /-- An identifier or keyword, and whether an escape was used to write it. -/
  | name (text : String) (escaped : Bool)
  | privateName (text : String)
  | punctuator (text : String)
  | number (raw : String)
  | bigint (raw : String)
  | string (value : StringValue) (raw : String)
  | template (raw : List Char) (isTail : Bool)
  /-- Text that is no token. -/
  | invalid
  deriving DecidableEq

/-- A token that was read, the number of bytes it takes, and what follows it. -/
structure Lexeme where
  token : Token
  size : Nat
  rest : List Char

/-! ### Trivia -/

/-- A blank of the script language other than a line terminator. -/
def isScriptBlank (c : Char) : Bool :=
  c == ' ' || c == '\t' || c == '\x0b' || c == '\x0c' || c == '\u0085' || c == '\u00a0' ||
    c == '\u1680' || ('\u2000' ≤ c && c ≤ '\u200b') || c == '\u202f' || c == '\u205f' ||
    c == '\u3000' || c == '\uFEFF'

/-- Where the reader of trivia stands. -/
inductive TriviaState where
  | blank
  | line (text : List Char)
  | block (text : List Char)

/-- The trivia before a token. The comments in front of the token, the newest first, are those
that do not trail the token before: a comment trails if it stands on that token's line and nothing
but the end of the line follows. -/
structure Trivia where
  newline : Bool
  comments : List Comment
  size : Nat

/-- The comments that are left when a line ends: what stood on the line of the token before is
dropped, and the last comment of another line is marked. -/
def Trivia.endLine (t : Trivia) (lineStart : Bool) : List Comment :=
  if lineStart then
    match t.comments with
    | c :: rest => { c with followedByNewline := true } :: rest
    | [] => []
  else []

/-- Adds a line comment. One that trails is dropped, together with its neighbours. -/
def Trivia.addLine (t : Trivia) (lineStart : Bool) (text : List Char) : Trivia :=
  { t with comments := if lineStart then ⟨.ofList text, true, true, true⟩ :: t.comments else [] }

/-- Reads the trivia before a token. `lineStart` tells whether a line has ended since the token
before, in the sense that decides which comments trail. -/
def readTrivia (lineStart : Bool) (state : TriviaState) (t : Trivia) :
    List Char → Option (Trivia × List Char)
  | [] =>
    match state with
    | .blank => some (t, [])
    | .line text => some (t.addLine lineStart text.reverse, [])
    | .block _ => none
  | c :: rest =>
    let grown := { t with size := t.size + c.utf8Size }
    match state with
    | .blank =>
      if isLineTerminator c then
        readTrivia true .blank { grown with newline := true, comments := t.endLine lineStart } rest
      else if isScriptBlank c then readTrivia lineStart .blank grown rest
      else if c = '/' && rest.head? = some '/' then readTrivia lineStart (.line [c]) grown rest
      else if c = '/' && rest.head? = some '*' then readTrivia lineStart (.block [c]) grown rest
      else some (t, c :: rest)
    | .line text =>
      if isLineTerminator c then
        readTrivia true .blank { grown.addLine lineStart text.reverse with newline := true } rest
      else readTrivia lineStart (.line (c :: text)) grown rest
    | .block text =>
      match c, text with
      | '/', '*' :: _ :: _ :: _ =>
        let comment : Comment := ⟨.ofList ('/' :: text).reverse, false, lineStart, false⟩
        readTrivia lineStart .blank { grown with comments := comment :: t.comments } rest
      | _, _ =>
        readTrivia lineStart (.block (c :: text))
          { grown with newline := t.newline || isLineTerminator c } rest

/-! ### Names -/

/-- Where the reader of a name stands. -/
inductive NameState where
  | text
  | escape
  | unicode
  | hex (left value : Nat)
  | braced (digits value : Nat)

/-- A name that was read: its characters, whether an escape was used, its size and the rest. -/
structure NameLexeme where
  text : List Char
  escaped : Bool
  size : Nat
  rest : List Char

/-- The character of an escape, if it may stand at this place of a name. -/
def nameChar? (isFirst : Bool) (value : Nat) : Option Char :=
  if value.isValidChar then
    let c := Char.ofNat value
    if (if isFirst then isIdentifierStart c else isIdentifierPart c) then some c else none
  else none

/-- Reads a name; the characters so far are reversed. -/
def readName (state : NameState) (text : List Char) (escaped : Bool) (size : Nat) :
    List Char → Option NameLexeme
  | [] =>
    match state with
    | .text => if text.isEmpty then none else some ⟨text.reverse, escaped, size, []⟩
    | _ => none
  | c :: rest =>
    match state with
    | .text =>
      if (if text.isEmpty then isIdentifierStart c else isIdentifierPart c) then
        readName .text (c :: text) escaped (size + c.utf8Size) rest
      else if c = '\\' then readName .escape text true (size + 1) rest
      else if text.isEmpty then none
      else some ⟨text.reverse, escaped, size, c :: rest⟩
    | .escape => if c = 'u' then readName .unicode text true (size + 1) rest else none
    | .unicode =>
      if c = '{' then readName (.braced 0 0) text true (size + 1) rest
      else match hexValue? c with
        | none => none
        | some d => readName (.hex 3 d) text true (size + 1) rest
    | .hex left value =>
      match hexValue? c with
      | none => none
      | some d =>
        if left ≤ 1 then
          match nameChar? text.isEmpty (16 * value + d) with
          | none => none
          | some c => readName .text (c :: text) true (size + 1) rest
        else readName (.hex (left - 1) (16 * value + d)) text true (size + 1) rest
    | .braced digits value =>
      if c = '}' then
        if digits = 0 then none
        else match nameChar? text.isEmpty value with
          | none => none
          | some c => readName .text (c :: text) true (size + 1) rest
      else match hexValue? c with
        | none => none
        | some d => readName (.braced (digits + 1) (16 * value + d)) text true (size + 1) rest

/-! ### Punctuators -/

/-- The punctuators, none before one that it opens. -/
def punctuators : List (List Char) :=
  [">>>=", "...", "===", "!==", "**=", "<<=", ">>=", ">>>", "&&=", "||=", "??=",
   "=>", "==", "!=", "<=", ">=", "&&", "||", "??", "?.", "++", "--", "+=", "-=", "*=", "/=", "%=",
   "&=", "|=", "^=", "<<", ">>", "**",
   "\x7b", "\x7d", "(", ")", "[", "]", ";", ",", "<", ">", "+", "-", "*", "/", "%", "&", "|", "^", "!",
   "~", "?", ":", "=", ".", "@"].map String.toList

/-- The longest punctuator at the start of a text. A question mark and a point before a digit are
two tokens. -/
def readPunctuator (s : List Char) : Option (List Char) :=
  punctuators.find? fun p ↦
    p.isPrefixOf s && !(p == ['?', '.'] && ((s.drop 2).head?.any Char.isDigit))

/-! ### Tokens -/

/-- The token of a number. -/
def NumberLexeme.toLexeme (n : NumberLexeme) : Lexeme where
  token := if n.isBigInt then .bigint (.ofList n.raw) else .number (.ofList n.raw)
  size := n.raw.length
  rest := n.rest

/-- Text that is no token. -/
def Lexeme.invalid (s : List Char) : Lexeme :=
  ⟨.invalid, 0, s⟩

/-- Reads the token at the start of a text without trivia, a slash being a punctuator. -/
def Token.read (s : List Char) : Lexeme :=
  match s with
  | [] => ⟨.eof, 0, []⟩
  | c :: rest =>
    if isIdentifierStart c || c == '\\' then
      match readName .text [] false 0 s with
      | none => .invalid s
      | some n => ⟨.name (.ofList n.text) n.escaped, n.size, n.rest⟩
    else if c.isDigit then
      match readNumber s with
      | none => .invalid s
      | some n => n.toLexeme
    else if c = '.' && (rest.head?.any Char.isDigit) then
      match readFraction ['.'] rest with
      | none => .invalid s
      | some n => n.toLexeme
    else if c = '"' || c = '\'' then
      match readString c .text [] [] rest with
      | none => .invalid s
      | some l => ⟨.string l.value (.ofList l.raw), byteLength l.raw + 2, l.rest⟩
    else if c = '\u0060' then
      match readTemplate false [] 1 rest with
      | none => .invalid s
      | some t => ⟨.template t.raw t.isTail, t.size, t.rest⟩
    else if c = '#' then
      match readName .text [] false 1 rest with
      | none => .invalid s
      | some n => ⟨.privateName (.ofList n.text), n.size, n.rest⟩
    else match readPunctuator s with
      | none => .invalid s
      | some p => ⟨.punctuator (.ofList p), p.length, s.drop p.length⟩

end AppletBundle.Script
