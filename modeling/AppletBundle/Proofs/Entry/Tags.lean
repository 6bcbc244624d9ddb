import Mathlib.Data.List.Basic
import AppletBundle.Entry.Page

/-!
# Reading the tags of a page

A page is read as the standard for its markup lays down, as far as the entry page needs: tags with
their attributes, declarations, and scripts, whose text is no markup. The text of a script ends at
the closing tag of a script, but not where the script looks like a comment with another script in it
(`ScriptMode`). An attribute's value may hold character references; the table of their names is not
part of this library, so what follows an ampersand is left to a parameter (`References`).

The reader goes over the page character by character, and its tags only grow. So the way it takes
through a text can be told apart from what it has read before (`Reads`), and texts are read one
after the other (`Reads.append`).
-/

namespace AppletBundle.Entry

/-! ### Tags -/

/-- A tag with its attributes in the order of writing. -/
structure Tag where
  closing : Bool
  name : List Char
  attributes : List (List Char × List Char)
  deriving DecidableEq

/-- What the text after an ampersand refers to, and how many of its characters do, unless the
ampersand is an ordinary character. -/
abbrev References := List Char → Option (List Char × ℕ)

/-- A text with its character references replaced. -/
def decode (refs : References) : List Char → List Char
  | [] => []
  | c :: rest =>
    match if c = '&' then refs rest else none with
    | some (s, n) => s ++ decode refs (rest.drop n)
    | none => c :: decode refs rest
termination_by s => s.length

/-- A text without character references is what is written. -/
theorem decode_of_plain {refs : References} {s : List Char}
    (h : ∀ t ∈ s.tails, t.head? = some '&' → refs t.tail = none) : decode refs s = s := by
  induction s with
  | nil => rw [decode]
  | cons c s ih =>
    rw [List.tails, List.forall_mem_cons] at h
    have hnone : (if c = '&' then refs s else none) = none := by
      split
      · rename_i hc
        exact h.1 (congrArg some hc)
      · rfl
    rw [decode, hnone, ih h.2]

namespace Tag

/-- The tag with one more attribute. -/
def add (t : Tag) (name value : List Char) : Tag :=
  { t with attributes := t.attributes ++ [(name, value)] }

/-- The value of an attribute; of several with one name the first counts. -/
def attribute? (refs : References) (t : Tag) (name : String) : Option String :=
  (t.attributes.lookup name.toList).map fun value ↦ .ofList (decode refs value)

end Tag

/-- The elements of a name that tags open. -/
def elements (name : String) (tags : List Tag) : List Tag :=
  tags.filter fun t ↦ !t.closing && t.name == name.toList

/-! ### Scripts -/

/-- The name of the elements for scripts. -/
def scriptName : List Char :=
  ['s', 'c', 'r', 'i', 'p', 't']

/-- What the text of a script looks like. -/
inductive ScriptMode where
  | plain
  /-- A comment. -/
  | comment
  /-- A comment with a script in it: a closing tag ends that one. -/
  | nested
  deriving DecidableEq

/-- White space in markup. -/
def isSpace (c : Char) : Bool :=
  c == ' ' || c == '\n' || c == '\t' || c == '\x0c' || c == '\r'

/-- Whether a character ends the name of a tag. -/
def endsName (c : Char) : Bool :=
  isSpace c || c == '/' || c == '>'

/-- Whether a text, the last character first, ends with a mark. -/
def endsWith (mark recent : List Char) : Bool :=
  mark.reverse.isPrefixOf recent

/-- Whether a text, the last character first, ends with a tag of a script up to the end of its
name. -/
def endsWithTag (opening : List Char) : List Char → Bool
  | [] => false
  | c :: recent =>
    endsName c && (recent.take 6).reverse.map Char.toLower == scriptName &&
      endsWith opening (recent.drop 6)

namespace ScriptMode

/-- Whether a script ends with its text so far, the last character first. -/
def ends (mode : ScriptMode) (recent : List Char) : Bool :=
  mode != nested && endsWithTag ['<', '/'] recent

/-- What a script looks like with its text so far, the last character first. -/
def next (mode : ScriptMode) (recent : List Char) : ScriptMode :=
  match mode with
  | plain => if endsWith ['<', '!', '-', '-'] recent then comment else plain
  | comment =>
    if endsWith ['-', '-', '>'] recent then plain
    else if endsWithTag ['<'] recent then nested else comment
  | nested =>
    if endsWith ['-', '-', '>'] recent then plain
    else if endsWithTag ['<', '/'] recent then comment else nested

/-- What a script looks like after more of its text. -/
def after (mode : ScriptMode) (recent : List Char) : List Char → ScriptMode
  | [] => mode
  | c :: s => (mode.next (c :: recent)).after (c :: recent) s

end ScriptMode

/-! ### The reader -/

/-- Where a reader stands. -/
inductive Position where
  /-- Between tags. -/
  | text
  /-- After an opening bracket. -/
  | bracket
  /-- In a tag that is no tag of an element. -/
  | declaration
  | tagName (t : Tag)
  /-- Between the attributes of a tag. -/
  | between (t : Tag)
  | attributeName (t : Tag) (name : List Char)
  /-- After the name of an attribute and white space. -/
  | named (t : Tag) (name : List Char)
  /-- After the equals sign of an attribute. -/
  | equals (t : Tag) (name : List Char)
  /-- In the value of an attribute, between quotes or up to white space. -/
  | value (t : Tag) (name : List Char) (quote : Option Char) (value : List Char)
  /-- In a script, with its text so far, the last character first. -/
  | script (mode : ScriptMode) (recent : List Char)
  deriving DecidableEq

namespace Position

/-- The tag that a closing bracket ends. -/
def tag? : Position → Option Tag
  | tagName t => some t
  | between t => some t
  | attributeName t name => some (t.add name [])
  | named t name => some (t.add name [])
  | equals t name => some (t.add name [])
  | value t name none v => some (t.add name v)
  | _ => none

/-- Where a tag leads: a script follows the tag that opens one. -/
def behind (t : Tag) : Position :=
  if !t.closing && t.name == scriptName then script .plain [] else text

/-- Where a character leads that does not end a tag. -/
def next : Position → Char → Position
  | text, c => if c = '<' then bracket else text
  | bracket, c =>
    if c = '/' then tagName ⟨true, [], []⟩
    else if c = '!' || c = '?' then declaration
    else if c.isAlpha then tagName ⟨false, [c.toLower], []⟩
    else if c = '<' then bracket else text
  | declaration, c => if c = '>' then text else declaration
  | tagName t, c =>
    if isSpace c || c = '/' then between t else tagName { t with name := t.name ++ [c.toLower] }
  | between t, c => if isSpace c || c = '/' then between t else attributeName t [c.toLower]
  | attributeName t name, c =>
    if isSpace c then named t name
    else if c = '/' then between (t.add name [])
    else if c = '=' then equals t name
    else attributeName t (name ++ [c.toLower])
  | named t name, c =>
    if isSpace c then named t name
    else if c = '/' then between (t.add name [])
    else if c = '=' then equals t name
    else attributeName (t.add name []) [c.toLower]
  | equals t name, c =>
    if isSpace c then equals t name
    else if c = '"' || c = '\'' then value t name (some c) []
    else value t name none [c]
  | value t name none v, c =>
    if isSpace c then between (t.add name v) else value t name none (v ++ [c])
  | value t name (some quote) v, c =>
    if c = quote then between (t.add name v) else value t name (some quote) (v ++ [c])
  | script mode recent, c =>
    if mode.ends (c :: recent) then
      if c = '>' then text else between ⟨true, scriptName, []⟩
    else script (mode.next (c :: recent)) (c :: recent)

end Position

/-- A reader and the tags that it has read. -/
structure Reader where
  position : Position
  tags : List Tag
  deriving DecidableEq

namespace Reader

/-- Reads a character. -/
def step (r : Reader) (c : Char) : Reader :=
  match if c = '>' then r.position.tag? else none with
  | some t => ⟨.behind t, r.tags ++ [t]⟩
  | none => ⟨r.position.next c, r.tags⟩

/-- Reads a text. -/
def read (r : Reader) (s : List Char) : Reader :=
  s.foldl step r

end Reader

/-- The tags of a page. -/
def tagsOf (page : String) : List Tag :=
  (Reader.read ⟨.text, []⟩ page.toList).tags

/-! ### Reading piece by piece -/

/-- A text leads from one position to another and has these tags in it. -/
def Reads (p : Position) (s : List Char) (tags : List Tag) (q : Position) : Prop :=
  ∀ before, Reader.read ⟨p, before⟩ s = ⟨q, before ++ tags⟩

namespace Reads

variable {p q r : Position} {s t : List Char} {tags tags' : List Tag}

theorem nil (p : Position) : Reads p [] [] p :=
  fun before ↦ by rw [Reader.read, List.foldl_nil, List.append_nil]

theorem append (hs : Reads p s tags q) (ht : Reads q t tags' r) :
    Reads p (s ++ t) (tags ++ tags') r := by
  intro before
  rw [Reader.read, List.foldl_append]
  exact (congrArg (Reader.read · t) (hs before)).trans
    ((ht _).trans (by rw [List.append_assoc]))

theorem step (p : Position) (c : Char) :
    Reads p [c] (Reader.step ⟨p, []⟩ c).tags (Reader.step ⟨p, []⟩ c).position := by
  intro before
  rw [Reader.read, List.foldl_cons, List.foldl_nil, Reader.step, Reader.step]
  cases if c = '>' then p.tag? else none <;> simp

/-- What a reader does does not depend on the tags that it has read. -/
theorem read (p : Position) (s : List Char) :
    Reads p s (Reader.read ⟨p, []⟩ s).tags (Reader.read ⟨p, []⟩ s).position := by
  induction s generalizing p with
  | nil => exact nil p
  | cons c s ih =>
    have hread : Reader.read ⟨p, []⟩ (c :: s) = Reader.read (Reader.step ⟨p, []⟩ c) s := rfl
    have hrest := ih (Reader.step ⟨p, []⟩ c).position (Reader.step ⟨p, []⟩ c).tags
    rw [hread, hrest]
    exact (step p c).append (ih _)

theorem of_read (h : Reader.read ⟨p, []⟩ s = ⟨q, tags⟩) : Reads p s tags q := by
  have hp := read p s
  rwa [h] at hp

end Reads

end AppletBundle.Entry
