import AppletBundle.Files.Tree
import AppletBundle.Json.Printer
import AppletBundle.Text.Hexadecimal

/-!
# Collections of files

Files are handed over as a collection: contents by paths below the working directory. A collection is
written in JSON as an object, where a text stands for itself, bytes that are no text are an object
with their hexadecimal digits, and an object with a switch stands for an empty directory.
-/

namespace AppletBundle

namespace FileTree

/-- The tree with a directory at a location and at every location above it. -/
def withDirectory (t : FileTree) (l : Location) : FileTree :=
  ((List.range (l.length + 1)).map l.take).foldl (fun t above ↦
    if (t.entry? above).isNone then t.set above .directory else t) t

/-- The tree with an entry at a location and directories above it. -/
def withEntry (t : FileTree) (l : Location) (e : FileEntry) : FileTree :=
  match e with
  | .directory => t.withDirectory l
  | .file _ => (t.withDirectory l.dropLast).set l e

/-- The tree with nothing but a working directory. -/
def bare (workDir : Location) : FileTree :=
  withDirectory ⟨[], workDir⟩ workDir

/-- The names of a path that are left when its idle segments are dropped. -/
def namesOf (path : String) : Location :=
  ((Path.segments path.toList).filter (!Path.isIdle ·)).map String.ofList

/-- The tree of a collection. -/
def ofCollection (workDir : Location) (files : List (String × FileEntry)) : FileTree :=
  files.foldl (fun t (path, e) ↦ t.withEntry (workDir ++ namesOf path) e) (bare workDir)

/-- The files of a tree that are new or changed since an earlier one, by their paths below the
working directory. -/
def changedFiles (before after : FileTree) : List (String × FileContent) :=
  after.entries.filterMap fun (l, e) ↦
    match e with
    | .directory => none
    | .file content =>
      if before.entry? l = some e then none
      else some ("/".intercalate (l.drop after.workDir.length), content)

end FileTree

/-! ### Collections in JSON -/

/-- The two hexadecimal digits of a byte. -/
def byteDigits (b : UInt8) : List Char :=
  [Nat.digitChar (b.toNat / 16), Nat.digitChar (b.toNat % 16)]

/-- The bytes that pairs of hexadecimal digits write. -/
def bytesOf? : List Char → Option (List UInt8)
  | [] => some []
  | [_] => none
  | a :: b :: rest => do
    let n ← Text.hexNumber? [a, b]
    return n.toUInt8 :: (← bytesOf? rest)

namespace FileContent

/-- The content with given bytes. -/
def ofBytes (bytes : List UInt8) : FileContent :=
  match String.fromUTF8? (ByteArray.mk bytes.toArray) with
  | some decoded => .text decoded
  | none => .raw bytes

/-- A content as a data value. -/
def toJson : FileContent → Json
  | .text s => .string s
  | .raw bytes => .object [("hex", .string (.ofList (bytes.flatMap byteDigits)))]

end FileContent

/-- The entry that a data value stands for. -/
def FileEntry.ofJson? : Json → Option FileEntry
  | .string text => some (.file (.text text))
  | .object [("hex", .string digits)] =>
    (bytesOf? digits.toList).map fun bytes ↦ .file (.ofBytes bytes)
  | .object [("dir", .bool true)] => some .directory
  | _ => none

/-- The collection that a data value is. -/
def collectionOf? : Json → Option (List (String × FileEntry))
  | .object members => members.mapM fun (path, v) ↦ (FileEntry.ofJson? v).map fun e ↦ (path, e)
  | _ => none

/-- Files as a data value. -/
def collectionToJson (files : List (String × FileContent)) : Json :=
  .object (files.map fun (path, content) ↦ (path, content.toJson))

end AppletBundle
