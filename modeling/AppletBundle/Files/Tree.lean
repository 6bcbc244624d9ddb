import AppletBundle.Failure

/-!
# File trees

A tree of directories and files is kept as the list of everything in it, each by the names that lead
there from the root; the root itself is a directory. A path is followed segment by segment, from the
root or from a working directory: an idle segment or a parent needs a directory to stand in, just as
a name does, so a file cannot be followed by a separator. Paths that are too long are not followed.
-/

namespace AppletBundle

/-- The content of a file. -/
inductive FileContent where
  | text (s : String)
  /-- Bytes that are no text. -/
  | raw (bytes : List UInt8)
  deriving DecidableEq

/-- What stands in a directory under a name. -/
inductive FileEntry where
  | file (content : FileContent)
  | directory
  deriving DecidableEq

/-- The names that lead somewhere from the root. -/
abbrev Location := List String

/-- A tree of directories and files, seen from a working directory. -/
structure FileTree where
  entries : List (Location × FileEntry)
  workDir : Location
  deriving DecidableEq

namespace FileTree

/-! ### Locations -/

/-- What stands at a location. -/
def entry? (t : FileTree) (l : Location) : Option FileEntry :=
  if l = [] then some .directory else t.entries.lookup l

/-- Whether a directory stands at a location. -/
def hasDirectory (t : FileTree) (l : Location) : Bool :=
  t.entry? l == some .directory

/-- Puts an entry at a location: in the place of the one that stands there, or after all others. -/
def setEntry (l : Location) (e : FileEntry) :
    List (Location × FileEntry) → List (Location × FileEntry)
  | [] => [(l, e)]
  | x :: xs => if x.1 = l then (l, e) :: xs else x :: setEntry l e xs

/-- Puts an entry at a location. -/
def set (t : FileTree) (l : Location) (e : FileEntry) : FileTree :=
  { t with entries := setEntry l e t.entries }

/-- The names in the directory at a location, in ascending order. -/
def names (t : FileTree) (l : Location) : List String :=
  let below := t.entries.filterMap fun (at_, _) ↦
    match at_.getLast? with
    | some name => if at_.dropLast = l then some name else none
    | none => none
  below.mergeSort fun a b ↦ a ≤ b

/-! ### Following paths -/

/-- Where a path leads. -/
inductive Place where
  | found (at_ : Location) (entry : FileEntry)
  /-- Nothing is there, but it could be put there; the flag tells whether the path asks for a
  directory. -/
  | missing (at_ : Location) (asDirectory : Bool)

/-- Follows segments from a location. -/
def follow (t : FileTree) (at_ : Location) : List (List Char) → Except FileFault Place
  | [] =>
    match t.entry? at_ with
    | some e => .ok (.found at_ e)
    | none => .error .notFound
  | s :: rest =>
    if !t.hasDirectory at_ then .error .notADirectory
    else if Path.isIdle s then t.follow at_ rest
    else if s = ['.', '.'] then t.follow at_.dropLast rest
    else
      let next := at_ ++ [String.ofList s]
      match t.entry? next with
      | some _ => t.follow next rest
      | none =>
        if rest.all (·.isEmpty) then .ok (.missing next (!rest.isEmpty)) else .error .notFound

/-- The number of bytes of the longest path that is followed. -/
def longestPath : Nat :=
  4095

/-- Follows a path. -/
def locate (t : FileTree) (p : Path) : Except FileFault Place :=
  if longestPath < p.text.utf8ByteSize then .error .notFound
  else
    match p.text.toList with
    | [] => .error .notFound
    | '/' :: rest => t.follow [] (Path.segments rest)
    | s => t.follow t.workDir (Path.segments s)

/-! ### Reading -/

/-- What a path leads to. -/
def get (t : FileTree) (p : Path) : Except FileFault FileEntry :=
  match t.locate p with
  | .ok (.found _ e) => .ok e
  | .ok (.missing ..) => .error .notFound
  | .error f => .error f

/-- Whether a path leads anywhere. -/
def contains (t : FileTree) (p : Path) : Bool :=
  (t.get p).isOk

/-- Whether a path leads to a file. -/
def isFile (t : FileTree) (p : Path) : Bool :=
  match t.get p with
  | .ok (.file _) => true
  | _ => false

/-- Whether a path leads to a directory. -/
def isDirectory (t : FileTree) (p : Path) : Bool :=
  match t.get p with
  | .ok .directory => true
  | _ => false

/-- The content of a file. -/
def readContent (t : FileTree) (p : Path) : Except FileFault FileContent :=
  match t.get p with
  | .ok (.file content) => .ok content
  | .ok .directory => .error .isADirectory
  | .error f => .error f

/-- The text of a file. -/
def readText (t : FileTree) (p : Path) : Except FileFault String :=
  match t.readContent p with
  | .ok (.text s) => .ok s
  | .ok (.raw _) => .error .invalidData
  | .error f => .error f

/-- What a walk over files finds at a path. -/
inductive Listing where
  | file
  /-- A directory with names in it, in ascending order. -/
  | directory (names : List String)

/-- Looks at what a path leads to. -/
def list (t : FileTree) (p : Path) : Except FileFault Listing :=
  match t.locate p with
  | .ok (.found _ (.file _)) => .ok .file
  | .ok (.found at_ .directory) => .ok (.directory (t.names at_))
  | .ok (.missing ..) => .error .notFound
  | .error f => .error f

/-! ### Writing -/

/-- Puts an entry where a path leads, or leaves the tree as it is. -/
def putWhen (t : FileTree) (place : Except FileFault Location) (e : FileEntry) :
    Except FileFault Unit × FileTree :=
  match place with
  | .ok at_ => (.ok (), t.set at_ e)
  | .error f => (.error f, t)

/-- Makes a directory in a directory that is there. -/
def makeDirectory (t : FileTree) (p : Path) : Except FileFault Unit × FileTree :=
  let place := t.locate p >>= fun
    | .found .. => .error .alreadyExists
    | .missing at_ _ => .ok at_
  t.putWhen place .directory

/-- Makes a directory, and those above it down from a number of levels, as far as they are
missing. -/
def makeDirectoriesWithin : Nat → FileTree → Path → Except FileFault Unit × FileTree
  | 0, t, _ => (.error .notFound, t)
  | depth + 1, t, p =>
    if p.text.isEmpty then (.ok (), t)
    else
      match t.makeDirectory p with
      | (.error .notFound, _) =>
        match makeDirectoriesWithin depth t (p.parent?.getD ⟨""⟩) with
        | (.error f, t) => (.error f, t)
        | (.ok (), t) =>
          match t.makeDirectory p with
          | (.error f, _) => (if t.isDirectory p then .ok () else .error f, t)
          | made => made
      | (.error f, _) => (if t.isDirectory p then .ok () else .error f, t)
      | made => made

/-- Makes a directory and those above it, as far as they are missing. -/
def makeDirectories (t : FileTree) (p : Path) : Except FileFault Unit × FileTree :=
  makeDirectoriesWithin (p.components.length + 1) t p

/-- Writes a file in a directory that is there. -/
def writeFile (t : FileTree) (p : Path) (content : FileContent) :
    Except FileFault Unit × FileTree :=
  let place := t.locate p >>= fun
    | .found _ .directory => .error .isADirectory
    | .found at_ (.file _) => .ok at_
    | .missing _ true => .error .isADirectory
    | .missing at_ false => .ok at_
  t.putWhen place (.file content)

end FileTree

end AppletBundle
