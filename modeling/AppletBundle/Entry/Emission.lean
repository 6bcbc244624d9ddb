import AppletBundle.Bundle.Context
import AppletBundle.Bundle.Rendering
import AppletBundle.Entry.Page
import AppletBundle.Files.Action

/-!
# Emitting the entry page

Beside the bundles a build can place runtime files: all files below a directory are copied, and the
scripts and styles among them are loaded by the entry page before the app's bundle, in the order of
the walk over the directory.
-/

namespace AppletBundle.Entry

/-- The directory for the runtime files in that of the bundles. -/
def runtimeDirectory : Path :=
  ⟨"runtime"⟩

/-- The name of the entry page in the directory of the bundles. -/
def pageName : Path :=
  ⟨"index.html"⟩

/-- Where the entry page goes and how the scripts and styles beside it are treated. -/
structure Emitter where
  outDir : Path
  transform : CodeTransform
  minify : Bool

namespace Emitter

/-- The place of a runtime file, seen from the directory of the bundles. -/
def placeOf (root source : Path) : Path :=
  runtimeDirectory.join ((source.stripPrefix? root).getD source)

/-- Copies a runtime file, minified if that is asked for and possible. Gives the file's place if it
is a module. -/
def copyRuntimeFile (e : Emitter) (root source : Path) : FileAction (List Path) := do
  let target := e.outDir.join (placeOf root source)
  FileAction.makeParent target
  match moduleKind? source with
  | none =>
    FileAction.copy source target
    return []
  | some kind =>
    if e.minify then
      let code ← FileAction.readText source
      let minified ← render e.transform true source kind code
      FileAction.writeText target minified
    else
      FileAction.copy source target
    return [placeOf root source]

/-- Copies all runtime files and gives the places of the modules. -/
def copyRuntime (e : Emitter) (root : Path) : FileAction (List Path) := do
  let lost := fun (fault : FileFault) ↦
    (Failure.ofCause (.format .listing fault.message)).inStep
      ("Failed to read runtime directory " ++ root.quoted)
  let depth ← FileAction.reading fun t ↦ .ok (t.depthBound e.outDir)
  FileAction.walk lost (e.copyRuntimeFile root) depth root

/-- Copies the runtime files and writes the entry page, which loads them and then the modules of a
build. Gives the path of the page. -/
def emit (e : Emitter) (runtimeDir : Option Path) (c : BuildContext) : FileAction Path := do
  let loaded ← match runtimeDir with
    | some root => e.copyRuntime root
    | none => pure []
  let page := e.outDir.join pageName
  FileAction.makeDirectories e.outDir
  FileAction.writeText page (pageText (loaded ++ c.runtimeModules) c.manifestText)
  return page

end Emitter

end AppletBundle.Entry
