import AppletBundle.Script.Token

/-!
# The parser's state and its basic steps

A parser is a function on a `Cursor`, which stands at one token of the source. The grammar is
recursive in a few places only, its *goals*: a production does not call another goal itself but asks
the `Grammar` that it is given, and the knot is tied once, by recursion on a bound for the depth.
That keeps every production a definition of its own.
-/

namespace AppletBundle.Script

open AppletBundle.Text

/-- Why a text is no script. -/
structure SyntaxError where
  /-- The offset of the token at which the parser gave up. -/
  offset : Nat
  expected : String

/-- A place in the source. -/
structure Cursor where
  /-- The offset after the token before. -/
  before : Nat
  /-- The offset of the token. -/
  start : Nat
  /-- The offset after the token. -/
  stop : Nat
  /-- The source from the token on. -/
  source : List Char
  /-- The source after the token. -/
  rest : List Char
  token : Token
  /-- Whether a line terminator stands before the token. -/
  newline : Bool
  /-- The comments in front of the token. -/
  comments : List Comment
  /-- The offsets of shorthand properties with a default that are part of no pattern yet. -/
  defaults : List Nat

/-- Moves a cursor to the first token of `rest`, which starts at `offset`. -/
def Cursor.moveTo (c : Cursor) (lineStart : Bool) (offset : Nat) (rest : List Char) : Cursor :=
  match readTrivia lineStart .blank ⟨false, [], 0⟩ rest with
  | none =>
    { c with before := offset, start := offset, stop := offset, source := rest, rest := rest,
             token := .invalid, newline := false, comments := [] }
  | some (trivia, source) =>
    let l := Token.read source
    let start := offset + trivia.size
    { c with before := offset, start := start, stop := start + l.size, source := source,
             rest := l.rest, token := l.token, newline := trivia.newline,
             comments := trivia.comments.reverse }

/-- Moves a cursor behind its token. -/
def Cursor.next (c : Cursor) : Cursor :=
  c.moveTo false c.stop c.rest

/-- The cursor at the first token of a text. -/
def Cursor.ofText (offset : Nat) (s : List Char) : Cursor :=
  Cursor.moveTo ⟨offset, offset, offset, s, s, .eof, false, [], []⟩ true offset s

/-- A parser reads on from a cursor or gives up. -/
abbrev Parser := StateT Cursor (Except SyntaxError)

/-- What the surroundings of a production allow. -/
structure Context where
  /-- `in` is an operator. -/
  allowIn : Bool
  /-- `yield` is an operator. -/
  inYield : Bool
  /-- `await` is an operator. -/
  inAwait : Bool
  /-- A return statement may stand here. -/
  inReturn : Bool

/-- The context of the statements of a module. -/
def Context.module : Context where
  allowIn := true
  inYield := false
  inAwait := true
  inReturn := false

/-- The context inside a function. -/
def Context.function (isAsync isGenerator : Bool) : Context where
  allowIn := true
  inYield := isGenerator
  inAwait := isAsync
  inReturn := true

/-- The context inside brackets, where `in` is an operator again. -/
def Context.withIn (ctx : Context) : Context :=
  { ctx with allowIn := true }

/-- Where a statement stands. -/
inductive StatementPlace where
  /-- In a list of statements. -/
  | list
  /-- As the only statement of a branch or a loop. -/
  | single
  deriving DecidableEq

/-- The goals at which the grammar is recursive. -/
inductive Goal where
  | assignment (ctx : Context)
  /-- An expression of binary operators of at least a level; `arrow` allows an arrow function. -/
  | binary (ctx : Context) (level : Nat) (arrow : Bool)
  | unary (ctx : Context) (arrow : Bool)
  /-- A value and its accesses; `calls` allows calls among them. -/
  | leftHandSide (ctx : Context) (calls : Bool)
  | bindingTarget (ctx : Context)
  | statement (ctx : Context) (place : StatementPlace)
  | element (ctx : Context)

/-- How to reach the goals, and a bound for the length of the lists among them. -/
structure Grammar where
  bound : Nat
  parse : Goal → Parser Node

namespace Parser

/-- Gives up at the current token. -/
def fail {α : Type} (expected : String) : Parser α := do
  throw ⟨(← get).start, expected⟩

/-- Moves behind the current token. -/
def advance : Parser Unit :=
  modify Cursor.next

/-- The current token. -/
def token : Parser Token :=
  return (← get).token

/-- The token after the current one, and whether a line terminator stands before it. -/
def peek : Parser (Token × Bool) := do
  let c := (← get).next
  return (c.token, c.newline)

/-- Whether the current token is the punctuator. -/
def atPunctuator (p : String) : Parser Bool :=
  return (← get).token = .punctuator p

/-- Whether the current token is the word, written without an escape. -/
def atWord (w : String) : Parser Bool :=
  return (← get).token = .name w false

/-- Moves behind the punctuator if it is the current token. -/
def eat (p : String) : Parser Bool := do
  if ← atPunctuator p then
    advance
    return true
  else return false

/-- Moves behind the word if it is the current token. -/
def eatWord (w : String) : Parser Bool := do
  if ← atWord w then
    advance
    return true
  else return false

/-- Moves behind the punctuator, which must be the current token. -/
def expect (p : String) : Parser Unit := do
  if ← eat p then return else fail p

/-- Moves behind the word, which must be the current token. -/
def expectWord (w : String) : Parser Unit := do
  if ← eatWord w then return else fail w

/-- Ends a statement: by a semicolon, or by what lets one be left out. -/
def semicolon : Parser Unit := do
  let c ← get
  if c.token = .punctuator ";" then advance
  else if c.token = .punctuator "\x7d" || c.token = .eof || c.newline then return
  else fail ";"

/-- The words that are never names. -/
def reservedWords : List String :=
  ["break", "case", "catch", "class", "const", "continue", "debugger", "default", "delete", "do",
   "else", "enum", "export", "extends", "false", "finally", "for", "function", "if", "import", "in",
   "instanceof", "new", "null", "return", "super", "switch", "this", "throw", "true", "try",
   "typeof", "var", "void", "while", "with"]

/-- Whether a word may be used as a name. -/
def isIdentifier (ctx : Context) (word : String) : Bool :=
  !reservedWords.contains word && !(ctx.inAwait && word == "await") &&
    !(ctx.inYield && word == "yield")

/-- Whether a token is a name that may be declared or used. -/
def isIdentifierToken (ctx : Context) : Token → Bool
  | .name text _ => isIdentifier ctx text
  | _ => false

/-- Reads a name that is declared or used. -/
def identifier (ctx : Context) : Parser Binding := do
  let c ← get
  match c.token with
  | .name text _ =>
    if isIdentifier ctx text then
      advance
      return ⟨text, c.start⟩
    else fail "a name"
  | _ => fail "a name"

/-- Reads any word. -/
def word : Parser String := do
  match ← token with
  | .name text _ =>
    advance
    return text
  | _ => fail "a word"

/-- Repeats a step while it gives results. -/
def collect {α : Type} : Nat → Parser (Option α) → Parser (List α)
  | 0, _ => fail "an end"
  | n + 1, step => do
    match ← step with
    | none => return []
    | some a => return a :: (← collect n step)

/-- Reads items with commas between them up to a closing punctuator, which is read too; a comma may
stand before it. -/
def commaList {α : Type} (bound : Nat) (close : String) (item : Parser α) : Parser (List α) :=
  collect bound do
    if ← eat close then return none
    else
      let a ← item
      if ← atPunctuator close then return some a
      else
        expect ","
        return some a

end Parser

end AppletBundle.Script
