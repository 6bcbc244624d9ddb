import AppletBundle.Asset.Basic
import AppletBundle.Config.Extensions
import AppletBundle.Files.Tree
import AppletBundle.Path.Normal
import AppletBundle.Project.Manifest
import AppletBundle.Script.Annotation
import AppletBundle.Text.LineEnding
import AppletBundle.Text.Split

/-!
# Projects

A project is a directory of files. Every app, page or component has a base, a path below that
directory: its modules and its manifest lie there under the name of the base with one extension or
another.
-/

namespace AppletBundle

open AppletBundle.Script

/-- The files of a project. -/
structure Project where
  /-- The directory of the project. -/
  root : Path
  extensions : Extensions
  files : FileTree

namespace Project

/-- The base of the app. -/
def appBase : Path :=
  ⟨"app"⟩

/-- The manifest of the app. -/
def appManifestName : Path :=
  ⟨"app.json"⟩

/-- The text of a file, with line feeds as its line endings. -/
def readSource (p : Project) (path : Path) : Outcome String :=
  match p.files.readText path with
  | .ok text => .ok (Text.normalizeLineEndings text)
  | .error fault => .error (.ofCause (.file path fault))

/-- The text of the file at a path below the project's directory, if there is one. -/
def readOptional (p : Project) (relative : Path) : Outcome (Option String) :=
  let path := p.root.join relative
  if p.files.isFile path then (p.readSource path).map some else .ok none

/-- What a text is in a format, in the step of reading its file. -/
def parsed {α : Type} (path : Path) (result : Option α) : Outcome α :=
  match result with
  | some a => .ok a
  | none =>
    .error <| (Failure.ofCause (.format .json "the manifest is malformed")).inStep
      ("Failed to parse " ++ path.quoted)

/-- The manifest of the app. -/
def appManifest (p : Project) : Outcome AppManifest := do
  let path := p.root.join appManifestName
  let source ← p.readSource path
  parsed path (AppManifest.parse? source)

/-- The manifest of the page or component at a base. -/
def unitManifest (p : Project) (base : Path) : Outcome UnitManifest :=
  let path := p.root.join (base.withExtension Extensions.settings)
  if p.files.isFile path then do
    let source ← p.readSource path
    parsed path (UnitManifest.parse? source)
  else .ok .empty

/-- The module of a kind at a base, as a text. -/
def sourceModule (p : Project) (base : Path) (kind : ModuleKind) :
    Outcome (Option SourceModule) := do
  let path := base.withExtension (p.extensions.ofKind kind)
  let source ← p.readOptional path
  return source.map (SourceModule.mk path)

/-- The script of a module. -/
def annotated (m : SourceModule) : Outcome ScriptModule :=
  Outcome.inStep ("Failed to analyze " ++ m.path.quoted)
    (ScriptModule.annotate m.path m.source)

/-- The modules at a base. -/
def siblings (p : Project) (base : Path) : Outcome SiblingModules := do
  let source ← p.sourceModule base .script
  let script ← source.mapM annotated
  let markup ← p.sourceModule base .markup
  let style ← p.sourceModule base .style
  return ⟨script, markup, style⟩

/-- The base that a declared place leads to from the base of the page or component that declares it.
Places of other programs and places above the project's directory lead nowhere. -/
def resolveComponent? (declaring : Path) (place : String) : Option Path :=
  if Text.occursIn "://".toList place.toList then none
  else
    let target : Path := match place.toList with
      | '/' :: rest => ⟨.ofList rest⟩
      | _ => (declaring.parent?.getD ⟨""⟩).join ⟨place⟩
    let base := target.normalize
    if base.startsWith ⟨".."⟩ then none else some base

end Project

end AppletBundle
