import AppletBundle.Config.Basic
import AppletBundle.Path.Quoted

/-!
# Descriptions

The parts of a build describe themselves to a person as records: a name, and fields with their values.
Two dots at the end of a record stand for fields that are not shown.
-/

namespace AppletBundle.Description

/-! ### Values -/

/-- Parts with commas between them, in braces. -/
def braced (parts : List String) : String :=
  "\x7b " ++ ", ".intercalate parts ++ " \x7d"

/-- A field. -/
def field (name value : String) : String :=
  name ++ ": " ++ value

/-- A record with all its fields. -/
def closedRecord (name : String) (fields : List (String × String)) : String :=
  name ++ " " ++ braced (fields.map fun (n, v) ↦ field n v)

/-- A record with some of its fields. -/
def openRecord (name : String) (fields : List (String × String)) : String :=
  name ++ " " ++ braced ((fields.map fun (n, v) ↦ field n v) ++ [".."])

/-- A switch. -/
def ofBool (b : Bool) : String :=
  if b then "true" else "false"

/-- A value that may be missing. -/
def ofOption : Option String → String
  | some value => "Some(" ++ value ++ ")"
  | none => "None"

/-- A set of texts. -/
def ofSet (s : OrderedSet String) : String :=
  "\x7b" ++ ", ".intercalate (s.toList.map Text.quoted) ++ "\x7d"

/-! ### Parts of a build -/

/-- The extensions of modules. -/
def ofExtensions (e : Extensions) : String :=
  closedRecord "Extensions"
    [("script", Text.quoted e.script), ("markup", Text.quoted e.markup),
     ("style", Text.quoted e.style)]

/-- A configuration. -/
def ofConfig (c : Config) : String :=
  closedRecord "Config"
    [("project", c.project.quoted), ("out_dir", c.outDir.quoted), ("minify", ofBool c.minify),
     ("tree_shaking", ofBool c.treeShaking), ("known_globals", ofSet c.knownGlobals),
     ("runtime_dir", ofOption (c.runtimeDir.map Path.quoted)),
     ("extensions", ofExtensions c.extensions)]

/-- A writer of bundle files. -/
def ofWriter (minify : Bool) : String :=
  openRecord "FsWriter" [("minify", ofBool minify)]

/-- An emitter of the entry page. -/
def ofEmitter (outDir : Path) (minify : Bool) : String :=
  openRecord "EntryEmitter" [("out_dir", outDir.quoted), ("minify", ofBool minify)]

/-- The packagers. -/
def ofPackagers : String :=
  openRecord "Packagers" []

/-- The packaging of a graph. -/
def ofPackaging (outDir : Path) : String :=
  openRecord "PackagingOrchestrator" [("out_dir", outDir.quoted)]

/-- The loading of a project. -/
def ofLoader (root : Path) (e : Extensions) : String :=
  openRecord "ProjectLoader" [("root", root.quoted), ("extensions", ofExtensions e)]

/-- A whole build. -/
def ofBuild (c : Config) : String :=
  openRecord "Bundler" [("config", ofConfig c)]

end AppletBundle.Description
