import AppletBundle.Config.Basic
import AppletBundle.Files.Tree
import AppletBundle.Toml.Parser

/-!
# Configuration files

A configuration file is a table in which only the known names may occur. The extensions are a table of
their own, or a list that names them in order.
-/

namespace AppletBundle.Config.Layer

/-! ### Settings in tables -/

/-- The text of a setting. -/
def textOf? : Toml → Option String
  | .string text => some text
  | _ => none

/-- The path of a setting. -/
def pathOf? (v : Toml) : Option Path :=
  (textOf? v).map Path.mk

/-- The switch of a setting. -/
def switchOf? : Toml → Option Bool
  | .bool value => some value
  | _ => none

/-- The names of a setting. -/
def namesOf? : Toml → Option (OrderedSet String)
  | .array items => (items.mapM textOf?).map OrderedSet.ofList
  | _ => none

/-- The layer with one extension set. -/
def setExtension? (l : Layer) (name : String) (v : Toml) : Option Layer := do
  let extension ← textOf? v
  match name with
  | "script" => return { l with scriptExtension := some extension }
  | "markup" => return { l with markupExtension := some extension }
  | "style" => return { l with styleExtension := some extension }
  | _ => none

/-- The layer with the extensions of a table or list set. -/
def setExtensions? (l : Layer) : Toml → Option Layer
  | .table members => members.foldlM (fun l (name, v) ↦ l.setExtension? name v) l
  | .array items =>
    (["script", "markup", "style"].zip items).foldlM (fun l (name, v) ↦ l.setExtension? name v) l
  | _ => none

/-- The layer with one setting of a file set. -/
def set? (l : Layer) (name : String) (v : Toml) : Option Layer :=
  match name with
  | "project" => (pathOf? v).map fun p ↦ { l with project := some p }
  | "out-dir" => (pathOf? v).map fun p ↦ { l with outDir := some p }
  | "minify" => (switchOf? v).map fun b ↦ { l with minify := some b }
  | "tree-shaking" => (switchOf? v).map fun b ↦ { l with treeShaking := some b }
  | "known-globals" => (namesOf? v).map fun names ↦ { l with knownGlobals := some names }
  | "runtime-dir" => (pathOf? v).map fun p ↦ { l with runtimeDir := some p }
  | "extensions" => l.setExtensions? v
  | _ => none

/-- The layer that a table is. -/
def ofToml? : Toml → Option Layer
  | .table members => members.foldlM (fun l (name, v) ↦ l.set? name v) .empty
  | _ => none

/-! ### Files -/

/-- The layer that a text is. -/
def parse? (text : String) : Option Layer :=
  (Toml.parse? text.toList).bind ofToml?

/-- The layer of a file. -/
def ofFile (files : FileTree) (path : Path) : Outcome Layer :=
  match files.readText path with
  | .error fault =>
    .error <| (Failure.ofCause (.unreadable fault)).inStep
      ("Failed to read config file: " ++ path.quoted)
  | .ok text =>
    match parse? text with
    | some l => .ok l
    | none =>
      .error <| (Failure.ofCause (.format .toml "the settings are malformed")).inStep
        ("Failed to parse config file: " ++ path.quoted)

end AppletBundle.Config.Layer
