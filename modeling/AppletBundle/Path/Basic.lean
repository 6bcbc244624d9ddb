/-!
# Paths

A path is a text that is read as a list of components: the root, the current directory when the
text opens with it, parents and names. Repeated separators and other dots between them carry no
meaning, so two texts can name the same path; `Path.same` compares components, while the text is
kept as it was written.

A text falls into its *head* (the root, an opening dot, or nothing) and its *body*, which is cut at
the separators into segments. A segment that is empty or a dot is *idle*.
-/

namespace AppletBundle

/-- A path as it was written. -/
structure Path where
  text : String
  deriving DecidableEq, Inhabited

namespace Path

/-- A part of a path. -/
inductive Component where
  | root
  | current
  | parent
  | normal (name : String)
  deriving DecidableEq

/-- The text of a component. -/
def Component.text : Component → String
  | root => "/"
  | current => "."
  | parent => ".."
  | normal name => name

/-- Cuts a text at its separators; there is always one segment more than separators. -/
def segments : List Char → List (List Char)
  | [] => [[]]
  | c :: rest =>
    if c = '/' then [] :: segments rest
    else match segments rest with
      | [] => [[c]]
      | s :: more => (c :: s) :: more

/-- Joins segments by a separator. -/
def joinSegments : List (List Char) → List Char
  | [] => []
  | [s] => s
  | s :: t :: more => s ++ '/' :: joinSegments (t :: more)

/-- A segment that is no component. -/
def isIdle (s : List Char) : Bool :=
  s == [] || s == ['.']

/-- Splits a text into its head, the component that the head is, and the segments of its body. -/
def headAndBody (s : List Char) : List Char × Option Component × List (List Char) :=
  match s with
  | '/' :: rest => (['/'], some .root, segments rest)
  | ['.'] => (['.'], some .current, [[]])
  | '.' :: '/' :: rest => (['.'], some .current, [] :: segments rest)
  | _ => ([], none, segments s)

/-- The component that a segment of the body is, if it is one. -/
def ofSegment? (s : List Char) : Option Component :=
  if isIdle s then none
  else if s = ['.', '.'] then some .parent
  else some (.normal (.ofList s))

/-- The components of a path. -/
def components (p : Path) : List Component :=
  let (_, head, body) := headAndBody p.text.toList
  head.toList ++ body.filterMap ofSegment?

/-- Whether two paths have the same components. -/
def same (p q : Path) : Bool :=
  p.components = q.components

/-- Whether the components of `q` open those of `p`. -/
def startsWith (p q : Path) : Bool :=
  q.components.isPrefixOf p.components

/-- A path that starts at the root. -/
def isAbsolute (p : Path) : Bool :=
  p.text.startsWith "/"

/-- Segments without the idle ones at the end. -/
def trimIdleEnd (body : List (List Char)) : List (List Char) :=
  (body.reverse.dropWhile isIdle).reverse

/-- `q` seen from `p`: `q` itself when it is absolute, otherwise `q` appended after a separator. -/
def join (p q : Path) : Path :=
  if q.isAbsolute then q
  else if p.text.isEmpty || p.text.endsWith "/" then ⟨p.text ++ q.text⟩
  else ⟨p.text ++ "/" ++ q.text⟩

/-- The path without its last component, unless there is none or it is the root. -/
def parent? (p : Path) : Option Path :=
  let (head, component, body) := headAndBody p.text.toList
  match body.reverse.dropWhile isIdle, component with
  | _ :: rest, _ =>
    some ⟨.ofList (head ++ joinSegments (rest.dropWhile isIdle).reverse)⟩
  | [], some .current => some ⟨""⟩
  | [], _ => none

/-- Drops `n` components and the idle segments around them from a body. -/
def dropComponents : Nat → List (List Char) → List (List Char)
  | 0, body => body.dropWhile isIdle
  | _ + 1, [] => []
  | n + 1, s :: rest => if isIdle s then dropComponents (n + 1) rest else dropComponents n rest

/-- The part of `p` after the components of `base`, if these open `p`. -/
def stripPrefix? (p base : Path) : Option Path :=
  if p.startsWith base then
    let (head, component, body) := headAndBody p.text.toList
    let n := base.components.length
    some ⟨.ofList <|
      if n = 0 then head ++ joinSegments (trimIdleEnd body)
      else joinSegments (trimIdleEnd (dropComponents (n - component.toList.length) body))⟩
  else none

/-- The name at the end of a path. -/
def fileName? (p : Path) : Option String :=
  match p.components.getLast? with
  | some (.normal name) => some name
  | _ => none

/-- Splits a file name at its last dot, unless that opens the name. -/
def splitAtLastDot (name : List Char) : List Char × Option (List Char) :=
  match name.reverse.span (· ≠ '.') with
  | (_, []) => (name, none)
  | (_, [_]) => (name, none)
  | (extension, _ :: stem) => (stem.reverse, some extension.reverse)

/-- The name at the end of a path without its extension. -/
def fileStem? (p : Path) : Option String :=
  p.fileName?.map fun name ↦ .ofList (splitAtLastDot name.toList).1

/-- The part of the name at the end of a path after its last dot. -/
def extension? (p : Path) : Option String :=
  p.fileName?.bind fun name ↦ (splitAtLastDot name.toList).2.map .ofList

/-- The path with a dot and an extension after its text. -/
def withExtension (base : Path) (extension : String) : Path :=
  ⟨base.text ++ "." ++ extension⟩

end Path

end AppletBundle
