import AppletBundle.Json.Printer
import AppletBundle.Ordered.Map
import AppletBundle.Path.Basic

/-!
# Build contexts

While bundles are written, a build keeps a record of them: the files of the app's bundle, which every
page loads before its own, and for every page an entry in the manifest.
-/

namespace AppletBundle

/-- A page in the manifest. Paths start at the directory of the bundles. -/
structure ManifestEntry where
  route : String
  identity : String
  script : Option Path
  style : Option Path
  markup : Option Path
  deriving DecidableEq

/-- What is recorded when a bundle has been written. -/
inductive BundleRecord where
  /-- A file of the app's bundle. -/
  | runtime (path : Path)
  | page (entry : ManifestEntry)

/-- The record of a build. -/
structure BuildContext where
  /-- The files of the app's bundle in the order of loading. -/
  runtimeModules : List Path
  /-- The entries of the pages by their routes. -/
  manifest : OrderedMap String ManifestEntry

namespace BuildContext

/-- The record of a build that has not begun. -/
def empty : BuildContext :=
  ⟨[], .empty⟩

/-- Takes down a written bundle. A file that is there already is kept as it was written first; the
entry of a route that is there already is replaced. -/
def record (c : BuildContext) : BundleRecord → BuildContext
  | .runtime path =>
    if c.runtimeModules.any path.same then c
    else { c with runtimeModules := c.runtimeModules ++ [path] }
  | .page entry => { c with manifest := c.manifest.insert entry.route entry }

/-- Takes down written bundles in order. -/
def recordAll (c : BuildContext) (records : List BundleRecord) : BuildContext :=
  records.foldl record c

end BuildContext

/-- An entry as a data value. -/
def ManifestEntry.toJson (e : ManifestEntry) : Json :=
  .object
    [("route", .string e.route), ("identity", .string e.identity),
     ("script", .ofOption (e.script.map Path.text)), ("style", .ofOption (e.style.map Path.text)),
     ("markup", .ofOption (e.markup.map Path.text))]

/-- The manifest as a data value: the entries by their routes. -/
def BuildContext.manifestValue (c : BuildContext) : Json :=
  .object (c.manifest.entries.map fun (route, e) ↦ (route, e.toJson))

/-- The manifest as a text. -/
def BuildContext.manifestText (c : BuildContext) : String :=
  c.manifestValue.pretty

end AppletBundle
