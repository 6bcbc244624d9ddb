/-!
# Scanning styles

Selectors and stylesheets are looked at one character at a time by small machines. In selectors only
string literals and brackets matter; in stylesheets there are comments as well. A backslash inside a
string takes the meaning from the character after it; outside strings it has none.
-/

namespace AppletBundle.Style

/-! ### Strings -/

/-- Where a scanner stands with respect to string literals. -/
inductive Quoting where
  | outside
  | inside (quote : Char)
  | escaped (quote : Char)
  deriving DecidableEq

/-- One character of a text with string literals. -/
def Quoting.step : Quoting → Char → Quoting
  | outside, c => if c = '"' ∨ c = '\'' then inside c else outside
  | inside quote, c => if c = '\\' then escaped quote else if c = quote then outside else inside quote
  | escaped quote, _ => inside quote

/-! ### Splitting at the top level -/

/-- The depth of brackets after a character outside strings. A bracket that closes nothing is no
bracket. -/
def nest (depth : Nat) (c : Char) : Nat :=
  if c = '(' ∨ c = '[' then depth + 1
  else if c = ')' ∨ c = ']' then depth - 1
  else depth

/-- Adds a character in front of the first part. -/
def consPart (c : Char) : List (List Char) → List (List Char)
  | [] => [[c]]
  | p :: ps => (c :: p) :: ps

/-- Splits a text at a separator outside brackets and strings. -/
def splitTopLevel (separator : Char) (q : Quoting) (depth : Nat) : List Char → List (List Char)
  | [] => [[]]
  | c :: rest =>
    match q with
    | .outside =>
      if c = separator ∧ depth = 0 then [] :: splitTopLevel separator .outside 0 rest
      else consPart c (splitTopLevel separator (q.step c) (nest depth c) rest)
    | _ => consPart c (splitTopLevel separator (q.step c) depth rest)

/-! ### Groups -/

/-- The text of a group up to its closing bracket, and what follows it. Brackets of the same kind
nest inside; `depth` of them are open. -/
def closeGroup? (opener closer : Char) (q : Quoting) (depth : Nat) :
    List Char → Option (List Char × List Char)
  | [] => none
  | c :: rest =>
    let cons := fun (r : List Char × List Char) ↦ (c :: r.1, r.2)
    match q with
    | .outside =>
      if c = opener then (closeGroup? opener closer .outside (depth + 1) rest).map cons
      else if c = closer then
        match depth with
        | 0 => some ([], rest)
        | d + 1 => (closeGroup? opener closer .outside d rest).map cons
      else (closeGroup? opener closer (q.step c) depth rest).map cons
    | _ => (closeGroup? opener closer (q.step c) depth rest).map cons

/-! ### Comments -/

/-- Where a scanner of a stylesheet stands. -/
inductive Zone where
  | code
  /-- After a slash, which may open a comment. -/
  | slash
  | comment
  /-- After an asterisk inside a comment. -/
  | commentStar
  | string (quote : Char)
  | escaped (quote : Char)
  deriving DecidableEq

/-- The zone after a character of code. -/
def Zone.afterCode (c : Char) : Zone :=
  if c = '/' then .slash else if c = '"' ∨ c = '\'' then .string c else .code

/-- One character of a stylesheet. -/
def Zone.step : Zone → Char → Zone
  | code, c => afterCode c
  | slash, c => if c = '*' then comment else afterCode c
  | comment, c => if c = '*' then commentStar else comment
  | commentStar, c => if c = '/' then code else if c = '*' then commentStar else comment
  | string quote, c => if c = '\\' then escaped quote else if c = quote then code else string quote
  | escaped quote, _ => string quote

/-- Whether the next character of a stylesheet is read as code. -/
def Zone.isCode : Zone → Bool
  | code => true
  | slash => true
  | _ => false

end AppletBundle.Style
