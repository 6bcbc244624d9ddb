import AppletBundle.Config.Extensions
import AppletBundle.Config.Overlay
import AppletBundle.Path.Basic

/-!
# Configuration

A configuration says what to build and how. It is put together from layers: a layer is a source of
settings, such as a file or the environment, that sets some of them and leaves the others as they
are.
-/

namespace AppletBundle

/-- What to build and how. -/
structure Config where
  /-- The directory of the project. -/
  project : Path
  /-- The directory that bundles are written to. -/
  outDir : Path
  /-- Whether scripts and styles are written without optional space. -/
  minify : Bool
  /-- Whether statements that nothing needs are dropped. -/
  treeShaking : Bool
  /-- The global names that scripts may use besides the built-in ones. -/
  knownGlobals : OrderedSet String
  /-- A directory of files that every page loads first. -/
  runtimeDir : Option Path
  extensions : Extensions
  deriving DecidableEq

namespace Config

/-- The configuration when nothing is set. -/
def standard : Config where
  project := ⟨"."⟩
  outDir := ⟨"dist"⟩
  minify := false
  treeShaking := true
  knownGlobals := .empty
  runtimeDir := none
  extensions := .standard

/-- The configuration with usable extensions and a directory to write to. -/
def validate (c : Config) : Outcome Config := do
  let extensions ← c.extensions.normalized
  if c.outDir.text.isEmpty then .error (.ofCause (.other "out-dir cannot be empty"))
  else return { c with extensions := extensions }

/-- The settings of one source. -/
structure Layer where
  project : Option Path
  outDir : Option Path
  minify : Option Bool
  treeShaking : Option Bool
  knownGlobals : Option (OrderedSet String)
  runtimeDir : Option Path
  scriptExtension : Option String
  markupExtension : Option String
  styleExtension : Option String

namespace Layer

/-- A layer that sets nothing. -/
def empty : Layer :=
  ⟨none, none, none, none, none, none, none, none, none⟩

/-- The configuration with the settings of a layer over it. -/
def applyTo (l : Layer) (c : Config) : Config where
  project := l.project.getD c.project
  outDir := l.outDir.getD c.outDir
  minify := l.minify.getD c.minify
  treeShaking := l.treeShaking.getD c.treeShaking
  knownGlobals := (overlaySet l.knownGlobals (some c.knownGlobals)).getD c.knownGlobals
  runtimeDir := overlay l.runtimeDir c.runtimeDir
  extensions :=
    ⟨l.scriptExtension.getD c.extensions.script, l.markupExtension.getD c.extensions.markup,
     l.styleExtension.getD c.extensions.style⟩

end Layer

end Config

end AppletBundle
