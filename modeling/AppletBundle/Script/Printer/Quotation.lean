import AppletBundle.Script.Literal

/-!
# Strings in printed scripts

A string is printed with an escape for every character that could not stand between its quotes or that
would end the script it is part of; all other characters stand as they are. Where space matters the
quotes are those that need the fewest escapes.
-/

namespace AppletBundle.Script

/-! ### The choice of quotes -/

/-- The quotes of a string. -/
inductive QuoteMark where
  | double
  | single
  | backtick
  deriving DecidableEq

/-- The character of a quote. -/
def QuoteMark.char : QuoteMark → Char
  | double => '"'
  | single => '\''
  | backtick => '\u0060'

/-- Whether a character, before the one after it, starts a value in a template. -/
def opensValue (c : Nat) (rest : List Nat) : Bool :=
  c == 36 && rest.head? == some 123

/-- What a string costs in quotes, beyond its characters. -/
def QuoteMark.cost (q : QuoteMark) : StringValue → Int
  | [] => 0
  | c :: rest =>
    (if c = q.char.toNat then 1 else 0) +
      (if q = .backtick then (if c = 10 then -1 else if opensValue c rest then 1 else 0) else 0) +
      q.cost rest

/-- The quotes that cost least: if they are allowed backticks first, then double quotes. -/
def QuoteMark.cheapest (allowBacktick : Bool) (value : StringValue) : QuoteMark :=
  let plain := if single.cost value < double.cost value then single else double
  if allowBacktick && backtick.cost value ≤ plain.cost value then backtick else plain

/-! ### Escapes -/

/-- A number in four hexadecimal digits. -/
def fourHexDigits (n : Nat) : List Char :=
  [Nat.digitChar (n / 4096), Nat.digitChar (n / 256 % 16), Nat.digitChar (n / 16 % 16),
   Nat.digitChar (n % 16)]

/-- Whether a text, after an opening bracket, goes on like the end of a script. -/
def closesScript (rest : List Nat) : Bool :=
  (rest.take 7).map (fun n ↦ if 65 ≤ n ∧ n ≤ 90 then n + 32 else n) =
    "/script".toList.map Char.toNat

/-- The escape of a character before the rest of its string, if it needs one. -/
def escape? (q : QuoteMark) (c : Nat) (rest : List Nat) : Option (List Char) :=
  match c with
  | 0 => some (if rest.head?.any fun d ↦ 48 ≤ d && d ≤ 57 then "\\x00".toList else "\\0".toList)
  | 7 => some "\\x07".toList
  | 8 => some "\\b".toList
  | 10 => some (if q = .backtick then ['\n'] else "\\n".toList)
  | 11 => some "\\v".toList
  | 12 => some "\\f".toList
  | 13 => some "\\r".toList
  | 27 => some "\\x1B".toList
  | 36 => if q = .backtick && opensValue c rest then some "\\$".toList else none
  | 92 => some "\\\\".toList
  | 160 => some "\\xA0".toList
  | 0x2028 => some "\\u2028".toList
  | 0x2029 => some "\\u2029".toList
  | _ =>
    if c = q.char.toNat then some ['\\', q.char]
    else if c.isValidChar then none
    else some ('\\' :: 'u' :: fourHexDigits c)

/-- The characters of a string between quotes of a kind; the slash after a bracket that would end the
script gets a backslash. -/
def escapedString (q : QuoteMark) (guarded : Bool) : StringValue → List Char
  | [] => []
  | c :: rest =>
    let shown := match escape? q c rest with
      | some escape => escape
      | none => if guarded then ['\\', '/'] else [Char.ofNat c]
    shown ++ escapedString q (c == 60 && closesScript rest) rest

/-- A string in quotes of a kind. -/
def quotedString (q : QuoteMark) (value : StringValue) : List Char :=
  q.char :: escapedString q false value ++ [q.char]

/-- A text as it is, but for a backslash in everything that would end the script. -/
def guardScript (guarded : Bool) : List Char → List Char
  | [] => []
  | c :: rest =>
    (if guarded then ['\\', c] else [c]) ++
      guardScript (c == '<' && closesScript (rest.map Char.toNat)) rest

/-- The quotes around a directive, which is never escaped: its first quote that is not escaped
decides. -/
def directiveQuote (escaped : Bool) : List Char → QuoteMark
  | [] => .double
  | c :: rest =>
    if escaped then directiveQuote false rest
    else if c = '"' then .single
    else if c = '\'' then .double
    else directiveQuote (c == '\\') rest

end AppletBundle.Script
