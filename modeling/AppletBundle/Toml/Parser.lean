import AppletBundle.Toml.Text

/-!
# Reading TOML

A document is a list of lines: assignments, and headers that open the section of a table. Lines are
read first; then the tables are built from them. A name gets a value once: a table can be opened by
one header or grow by dotted names in one section, and a table in braces is complete where it stands.
Lists of tables by repeated headers are not read.

Settings are written as texts, switches, lists and tables. The other values of the format, numbers
and dates, are no settings.
-/

namespace AppletBundle

/-- A value of the data format TOML. -/
inductive Toml where
  | string (text : String)
  | bool (value : Bool)
  | array (items : List Toml)
  /-- Values with pairwise different names. -/
  | table (members : List (String × Toml))

namespace Toml

/-! ### Names and values -/

/-- The text after white space in the line. -/
def skipSpace (s : List Char) : List Char :=
  s.dropWhile isSpace

/-- A character of a name without quotes. -/
def isBareChar (c : Char) : Bool :=
  c.isAlphanum || c == '_' || c == '-'

/-- Reads one part of a name. -/
def readSimpleKey : List Char → Option (String × List Char)
  | '"' :: rest => (readBasic .text rest).map fun (t, rest) ↦ (.ofList t, rest)
  | '\'' :: rest => (readLiteral rest).map fun (t, rest) ↦ (.ofList t, rest)
  | s =>
    let (name, rest) := s.span isBareChar
    if name.isEmpty then none else some (.ofList name, rest)

/-- Reads a name of parts with dots between them. A text as long as `fuel` has no more parts. -/
def readKey : Nat → List Char → Option (List String × List Char)
  | 0, _ => none
  | fuel + 1, s => do
    let (part, rest) ← readSimpleKey (skipSpace s)
    match skipSpace rest with
    | '.' :: rest =>
      let (parts, rest) ← readKey fuel rest
      return (part :: parts, rest)
    | rest => return ([part], rest)

/-- The text after the comment that it opens with. -/
def skipComment (s : List Char) : List Char :=
  match s with
  | '#' :: rest => rest.dropWhile isLineChar
  | s => s

/-- The text after white space, line endings and comments. -/
def skipLines : Nat → List Char → Option (List Char)
  | 0, _ => none
  | fuel + 1, s =>
    match skipSpace s with
    | '\n' :: rest => skipLines fuel rest
    | '\r' :: '\n' :: rest => skipLines fuel rest
    | '#' :: rest =>
      match skipComment ('#' :: rest) with
      | '\n' :: rest => skipLines fuel rest
      | '\r' :: '\n' :: rest => skipLines fuel rest
      | _ => none
    | rest => some rest

/-- The text after a word. -/
def afterWord? (word : String) (s : List Char) : Option (List Char) :=
  if word.toList.isPrefixOf s then some (s.drop word.length) else none

/-- A table, unless a name occurs twice or has more than one part. -/
def inlineTable? (pairs : List (List String × Toml)) : Option Toml := do
  let members ← pairs.mapM fun (key, v) ↦
    match key with
    | [name] => some (name, v)
    | _ => none
  if (members.map Prod.fst).Nodup then return .table members else none

mutual

/-- Reads a value of a bounded length. -/
def readValue : Nat → List Char → Option (Toml × List Char)
  | 0, _ => none
  | fuel + 1, s =>
    match s with
    | '[' :: rest => (readItems fuel rest).map fun (items, rest) ↦ (.array items, rest)
    | '\x7b' :: rest =>
      match skipSpace rest with
      | '\x7d' :: rest => some (.table [], rest)
      | rest => do
        let (pairs, rest) ← readPairs fuel rest
        let table ← inlineTable? pairs
        return (table, rest)
    | 't' :: rest => (afterWord? "rue" rest).map fun rest ↦ (.bool true, rest)
    | 'f' :: rest => (afterWord? "alse" rest).map fun rest ↦ (.bool false, rest)
    | s => (readText s).map fun (t, rest) ↦ (.string t, rest)

/-- Reads items up to the closing bracket. A comma may stand after the last one. -/
def readItems : Nat → List Char → Option (List Toml × List Char)
  | 0, _ => none
  | fuel + 1, s => do
    match ← skipLines (s.length + 1) s with
    | ']' :: rest => return ([], rest)
    | s =>
      let (v, rest) ← readValue fuel s
      match ← skipLines (rest.length + 1) rest with
      | ']' :: rest => return ([v], rest)
      | ',' :: rest =>
        let (vs, rest) ← readItems fuel rest
        return (v :: vs, rest)
      | _ => none

/-- Reads names with their values up to the closing brace; there is at least one. -/
def readPairs : Nat → List Char → Option (List (List String × Toml) × List Char)
  | 0, _ => none
  | fuel + 1, s => do
    let (key, rest) ← readKey (s.length + 1) s
    match rest with
    | '=' :: rest =>
      let (v, rest) ← readValue fuel (skipSpace rest)
      match skipSpace rest with
      | '\x7d' :: rest => return ([(key, v)], rest)
      | ',' :: rest =>
        let (pairs, rest) ← readPairs fuel rest
        return ((key, v) :: pairs, rest)
      | _ => none
    | _ => none

end

/-! ### Lines -/

/-- A line that says something. -/
inductive Line where
  | assignment (key : List String) (value : Toml)
  | header (key : List String)

/-- The text after the end of a line with nothing more to say. -/
def lineEnd? (s : List Char) : Option (List Char) :=
  match skipComment (skipSpace s) with
  | [] => some []
  | '\n' :: rest => some rest
  | '\r' :: '\n' :: rest => some rest
  | _ => none

/-- Reads a header after its bracket. -/
def readHeader (s : List Char) : Option (Line × List Char) := do
  let (key, rest) ← readKey (s.length + 1) s
  match rest with
  | ']' :: rest => return (.header key, ← lineEnd? rest)
  | _ => none

/-- Reads an assignment. -/
def readAssignment (s : List Char) : Option (Line × List Char) := do
  let (key, rest) ← readKey (s.length + 1) s
  match rest with
  | '=' :: rest =>
    let (v, rest) ← readValue (2 * rest.length + 2) (skipSpace rest)
    return (.assignment key v, ← lineEnd? rest)
  | _ => none

/-- Reads the lines of a text that is shorter than `fuel`. -/
def readLines : Nat → List Char → Option (List Line)
  | 0, _ => none
  | fuel + 1, s =>
    match skipSpace s with
    | [] => some []
    | '\n' :: rest => readLines fuel rest
    | '\r' :: '\n' :: rest => readLines fuel rest
    | '#' :: rest => do
      let rest ← lineEnd? ('#' :: rest)
      readLines fuel rest
    | '[' :: rest => do
      let (line, rest) ← readHeader rest
      return line :: (← readLines fuel rest)
    | s => do
      let (line, rest) ← readAssignment s
      return line :: (← readLines fuel rest)

/-! ### Tables -/

/-- A table in the making. -/
inductive Draft where
  /-- A complete value. -/
  | value (v : Toml)
  /-- A table that was made by dotted names; more of them may follow in its section. -/
  | grown (members : List (String × Draft))
  /-- A table with a section of its own. -/
  | headed (members : List (String × Draft))

/-- Sets the draft of a name. -/
def setDraft (name : String) (d : Draft) : List (String × Draft) → List (String × Draft)
  | [] => [(name, d)]
  | m :: ms => if m.1 = name then (name, d) :: ms else m :: setDraft name d ms

/-- Gives a dotted name a value in a table. -/
def assign : List String → Toml → List (String × Draft) → Option (List (String × Draft))
  | [], _, _ => none
  | [name], v, ms => if (ms.lookup name).isSome then none else some (setDraft name (.value v) ms)
  | name :: more, v, ms =>
    match ms.lookup name with
    | none => (assign more v []).map fun inner ↦ setDraft name (.grown inner) ms
    | some (.grown inner) => (assign more v inner).map fun inner ↦ setDraft name (.grown inner) ms
    | some _ => none

/-- Opens the section of a new table. -/
def openSection : List String → List (String × Draft) → List (String × Draft) →
    Option (List (String × Draft))
  | [], _, _ => none
  | [name], members, ms =>
    if (ms.lookup name).isSome then none else some (setDraft name (.headed members) ms)
  | name :: more, members, ms =>
    match ms.lookup name with
    | none => (openSection more members []).map fun inner ↦ setDraft name (.headed inner) ms
    | some (.grown inner) =>
      (openSection more members inner).map fun inner ↦ setDraft name (.grown inner) ms
    | some (.headed inner) =>
      (openSection more members inner).map fun inner ↦ setDraft name (.headed inner) ms
    | some (.value _) => none

/-- The sections of a document: the one without a header, and those with one. -/
structure Sections where
  top : List (List String × Toml)
  named : List (List String × List (List String × Toml))

/-- Cuts lines at the headers. -/
def sections : List Line → Sections
  | [] => ⟨[], []⟩
  | .assignment key v :: rest =>
    let s := sections rest
    { s with top := (key, v) :: s.top }
  | .header key :: rest =>
    let s := sections rest
    ⟨[], (key, s.top) :: s.named⟩

mutual

/-- The value that a draft comes to. -/
def Draft.toToml : Draft → Toml
  | .value v => v
  | .grown members => .table (draftMembers members)
  | .headed members => .table (draftMembers members)

/-- The members that drafts come to. -/
def draftMembers : List (String × Draft) → List (String × Toml)
  | [] => []
  | (name, d) :: ms => (name, d.toToml) :: draftMembers ms

end

/-- The members of a table by assignments. -/
def assignAll (assignments : List (List String × Toml)) : Option (List (String × Draft)) :=
  assignments.foldlM (fun ms (key, v) ↦ assign key v ms) []

/-- The table that lines describe. -/
def tableOf? (lines : List Line) : Option Toml := do
  let s := sections lines
  let top ← assignAll s.top
  let all ← s.named.foldlM (fun ms (key, assignments) ↦ do
    openSection key (← assignAll assignments) ms) top
  return .table (draftMembers all)

/-- The text after a mark of its byte order. -/
def skipMark : List Char → List Char
  | '\ufeff' :: rest => rest
  | s => s

/-- The table that a text describes. -/
def parse? (s : List Char) : Option Toml :=
  (readLines (s.length + 1) (skipMark s)).bind tableOf?

end Toml

end AppletBundle
