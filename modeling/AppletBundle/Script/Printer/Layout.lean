import AppletBundle.Script.NumberText
import AppletBundle.Script.Printer.Quotation
import AppletBundle.Text.Blank

/-!
# The layout of printed scripts

A script is printed as a list of pieces: words, operators, literals, and the places where space, a new
line or a semicolon may stand. `Layout` turns pieces into text. In the spacious layout there is one
statement a line, indented by tabs; in the compact one only the space is left that keeps two pieces
apart, and a semicolon is written when something follows that needs it.
-/

namespace AppletBundle.Script

/-- How much space a printed script gets. -/
inductive Spacing where
  | compact
  | spacious
  deriving DecidableEq

/-- A piece of a printed script. -/
inductive Piece where
  /-- A text that needs nothing around it. -/
  | text (s : List Char)
  /-- A name or keyword, apart from one before it. -/
  | word (s : List Char)
  /-- A number that is not negative. -/
  | number (s : List Char)
  /-- An operator, apart from one before it that it would run into. -/
  | operator (s : String)
  /-- The point before a property. -/
  | point
  | regex (s : List Char)
  | string (value : StringValue) (allowBacktick : Bool)
  /-- A space in any layout. -/
  | space
  /-- A space in the spacious layout. -/
  | softSpace
  /-- The end of a line in the spacious layout. -/
  | softLine
  /-- The indentation of a line in the spacious layout. -/
  | margin
  /-- The next indentation is a single space. -/
  | sameLine
  | indent
  | dedent
  /-- The semicolon after a statement: in the compact layout it is owed. -/
  | endStatement
  /-- Writes a semicolon that is owed. -/
  | settle
  /-- Forgives a semicolon that is owed. -/
  | forgive
  /-- Comments, which the compact layout leaves out. -/
  | comments (cs : List Comment)

/-- What was written last, as far as the next piece has to know. -/
inductive LastPiece where
  | other
  | integer
  | regex
  | operator (s : String)
  deriving DecidableEq

/-- A script that is being printed. -/
structure Layout where
  spacing : Spacing
  /-- What has been written, the last character first. -/
  written : List Char
  last : LastPiece
  depth : Nat
  /-- Whether a semicolon is owed. -/
  owes : Bool
  /-- Whether the next indentation is a single space. -/
  sameLine : Bool

namespace Layout

/-- Nothing has been printed. -/
def initial (spacing : Spacing) : Layout :=
  ⟨spacing, [], .other, 0, false, false⟩

/-- Writes characters. -/
def put (l : Layout) (s : List Char) : Layout :=
  { l with written := s.reverse ++ l.written, last := if s.isEmpty then l.last else .other }

/-- Writes a space if the last piece would run into a word. -/
def separateWord (l : Layout) : Layout :=
  if l.last = .regex || l.written.head?.any Text.isIdentifierPart then l.put [' '] else l

/-- Whether an operator would run into the one before it. -/
def mergesInto (before next : String) (written : List Char) : Bool :=
  (before == "+" && (next == "+" || next == "++")) ||
    (before == "-" && (next == "-" || next == "--")) ||
    (before == "--" && next == ">") ||
    (before == "!" && next == "--" && written.getD 1 ' ' == '<')

/-- Writes a space if the last operator would run into the next one. -/
def separateOperator (l : Layout) (next : String) : Layout :=
  match l.last with
  | .operator before => if mergesInto before next l.written then l.put [' '] else l
  | _ => l

/-- Writes the end of a line and what the next line begins with. -/
def margin (l : Layout) : Layout :=
  if l.sameLine then { l.put [' '] with sameLine := false }
  else l.put (List.replicate l.depth '\t')

/-! ### Comments -/

/-- Cuts a text into its lines; a carriage return and a line feed end one line. -/
def lines : List Char → List (List Char)
  | [] => [[]]
  | c :: rest =>
    if isLineTerminator c then
      if c = '\r' && rest.head? = some '\n' then lines rest else [] :: lines rest
    else match lines rest with
      | [] => [[c]]
      | s :: more => (c :: s) :: more

/-- Writes the lines of a comment in a block. -/
def blockLines (l : Layout) : List (List Char) → Layout
  | [] => l
  | s :: rest =>
    let l := if "/*".toList.isPrefixOf s then l else l.margin
    let l := l.put (guardScript false (Text.trimStart s))
    let l := if "*/".toList.isSuffixOf s then l else l.put ['\n']
    l.blockLines rest

/-- Writes a comment. -/
def comment (l : Layout) (c : Comment) : Layout :=
  if c.isLine then l.put (guardScript false c.text.toList)
  else match lines c.text.toList with
    | [s] => l.put (guardScript false s)
    | ss => l.blockLines ss

/-- Begins the first of a few comments. -/
def beginComments (l : Layout) (c : Comment) : Layout :=
  if c.precededByNewline then
    match l.written.head? with
    | none => l
    | some '\n' => l.margin
    | some '\t' => l
    | some _ => (l.put ['\n']).margin
  else l.margin

/-- Writes comments, of which the first has begun. -/
def restComments (l : Layout) : List Comment → Layout
  | [] => l
  | [c] =>
    let l := l.comment c
    if c.isLine || c.followedByNewline then l.put ['\n'] else { l with sameLine := true }
  | c :: next :: rest =>
    let l := l.comment c
    restComments (if next.precededByNewline then (l.put ['\n']).margin else l) (next :: rest)

/-- Writes comments. -/
def comments (l : Layout) : List Comment → Layout
  | [] => l
  | c :: cs => (l.beginComments c).restComments (c :: cs)

/-! ### Pieces -/

/-- Writes what only the spacious layout has. -/
def spaciously (l : Layout) (f : Layout → Layout) : Layout :=
  match l.spacing with
  | .compact => l
  | .spacious => f l

/-- Writes a piece. -/
def add (l : Layout) : Piece → Layout
  | .text s => l.put s
  | .word s => l.separateWord.put s
  | .number s =>
    let l := l.separateWord.put s
    if s.any fun c ↦ c == '.' || c == 'e' || c == 'x' then l else { l with last := .integer }
  | .operator s => { (l.separateOperator s).put s.toList with last := .operator s }
  | .point => (if l.last = .integer then l.put [' '] else l).put ['.']
  | .regex s =>
    let apart := l.written.head? = some '/' ||
      (l.written.head? = some '<' && closesScript (s.map Char.toNat))
    { (if apart then l.put [' '] else l).put s with last := .regex }
  | .string value allowBacktick =>
    match l.spacing with
    | .compact => l.put (quotedString (.cheapest allowBacktick value) value)
    | .spacious => l.put (quotedString .double value)
  | .space => l.put [' ']
  | .softSpace => l.spaciously fun l ↦ l.put [' ']
  | .softLine => l.spaciously fun l ↦ l.put ['\n']
  | .margin => l.spaciously margin
  | .sameLine => { l with sameLine := true }
  | .indent => { l with depth := l.depth + 1 }
  | .dedent => { l with depth := l.depth - 1 }
  | .endStatement =>
    match l.spacing with
    | .compact => { l with owes := true }
    | .spacious => l.put [';', '\n']
  | .settle => if l.owes then { l.put [';'] with owes := false } else l
  | .forgive => { l with owes := false }
  | .comments cs => l.spaciously fun l ↦ l.comments cs

end Layout

/-- The text of pieces. -/
def layOut (spacing : Spacing) (pieces : List Piece) : List Char :=
  (pieces.foldl Layout.add (.initial spacing)).written.reverse

end AppletBundle.Script
