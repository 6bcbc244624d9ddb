import AppletBundle.Files.Tree

/-!
# Actions on file trees

An action reads and changes a file tree and may fail on the way; what it has changed before stays
changed. A fault of the tree becomes a failure that names the path at fault.
-/

namespace AppletBundle

/-- A computation on a file tree that may fail. -/
abbrev FileAction (α : Type) := ExceptT Failure (StateM FileTree) α

namespace FileAction

/-- The result of an action and the tree that it leaves. -/
def runOn {α : Type} (action : FileAction α) (t : FileTree) : Outcome α × FileTree :=
  action t

/-- An action whose result does not change the tree. -/
def reading {α : Type} (f : FileTree → Outcome α) : FileAction α :=
  fun t ↦ (f t, t)

/-- An action of the tree, with `p` at fault. -/
def blaming {α : Type} (p : Path) (f : FileTree → Except FileFault α × FileTree) : FileAction α :=
  fun t ↦
    let (result, t) := f t
    (result.mapError fun fault ↦ .ofCause (.file p fault), t)

/-- Reads the text of a file. -/
def readText (p : Path) : FileAction String :=
  blaming p fun t ↦ (t.readText p, t)

/-- Makes a directory and those above it, as far as they are missing. -/
def makeDirectories (p : Path) : FileAction Unit :=
  blaming p (·.makeDirectories p)

/-- Makes the directory that a path lies in. -/
def makeParent (p : Path) : FileAction Unit :=
  match p.parent? with
  | none => pure ()
  | some directory => makeDirectories directory

/-- Writes a file in a directory that is there. -/
def writeText (p : Path) (text : String) : FileAction Unit :=
  blaming p (·.writeFile p (.text text))

/-- Copies a file. The target is emptied before the source is read, so a file that is copied onto
itself becomes empty. -/
def copy (source target : Path) : FileAction Unit :=
  blaming target fun t ↦
    match t.readContent source with
    | .error fault => (.error fault, t)
    | .ok _ =>
      match t.writeFile target (.text "") with
      | (.error fault, t) => (.error fault, t)
      | (.ok (), t) =>
        match t.readContent source with
        | .error fault => (.error fault, t)
        | .ok content => t.writeFile target content

/-- Visits the file at a path, or the files below the directory there down to a depth: the entries of
a directory in ascending order, as they are when the directory is entered. A path that leads nowhere
is handed to `lost`. -/
def walk {α : Type} (lost : FileFault → Failure) (visit : Path → FileAction (List α)) :
    Nat → Path → FileAction (List α)
  | 0, _ => pure []
  | depth + 1, p => do
    match ← reading fun t ↦ (t.list p).mapError lost with
    | .file => visit p
    | .directory names =>
      let found ← names.mapM fun name ↦ walk lost visit depth (p.join ⟨name⟩)
      return found.flatten

end FileAction

/-- A bound on the depth of a tree, with room for what is built below a path in the meantime. -/
def FileTree.depthBound (t : FileTree) (p : Path) : Nat :=
  2 * (t.entries.length + p.components.length) + 4

end AppletBundle
