import AppletBundle.Asset.Basic
import AppletBundle.Config.Basic
import AppletBundle.Json.Printer
import AppletBundle.Script.Assembly
import AppletBundle.Script.Selection
import AppletBundle.Style.Stylesheet

/-!
# Packagers

A packager turns the module of an asset into what the asset adds to a bundle. There is one for every
kind of module, and all three can be replaced.
-/

namespace AppletBundle

open AppletBundle.Script

/-- What is made of a script module: its code, and the imports that the code uses. -/
structure PackagedScript where
  code : String
  dependencies : OrderedSet ExternalImport

/-- The packagers of a build. -/
structure Packagers where
  /-- Packages a script module. A selection may be recorded on the module, whatever comes of it. -/
  script : Asset → ScriptModule → Outcome PackagedScript × ScriptModule
  /-- Compiles markup to an expression that gives its renderer. -/
  markup : Asset → SourceModule → Outcome String
  style : Asset → SourceModule → Outcome String

namespace Packagers

/-- Selects the statements of a script and puts them together. -/
def packageScript (options : SelectOptions) (a : Asset) (m : ScriptModule) :
    Outcome PackagedScript × ScriptModule :=
  match m.selectRecorded options with
  | .error f => (.error (f.inStep ("Failed to select statements of " ++ a.describe)), m)
  | .ok (selection, m) =>
    match m.assemble? selection.statements with
    | none => (.error (.ofCause .badOffset), m)
    | some code => (.ok ⟨code, selection.external⟩, m)

/-- A renderer that gives the text of the markup. -/
def compileMarkup (_ : Asset) (m : SourceModule) : Outcome String :=
  .ok ("() => " ++ Json.quoted m.source)

/-- Scopes a style to its asset. -/
def packageStyle (a : Asset) (m : SourceModule) : Outcome String :=
  match Style.scopeStylesheet? m.source a.identity with
  | none => .error (.ofCause .badOffset)
  | some css => .ok css

/-- The packagers that a configuration asks for. -/
def ofConfig (c : Config) : Packagers where
  script := packageScript
    ⟨if c.treeShaking then .reachability else .unconditional, ⟨c.knownGlobals.toList⟩⟩
  markup := compileMarkup
  style := packageStyle

end Packagers

/-- The statement that makes compiled markup known in a bundle: pages get a constant, components an
entry in the table of the renderers. -/
def registration (a : Asset) (compiled : String) : String :=
  match a.kind with
  | .page _ => "const $" ++ a.identity ++ " = " ++ compiled ++ "\n\n"
  | .component _ => "remotes['" ++ a.identity ++ "'] = " ++ compiled ++ "\n\n"
  | .app => compiled ++ "\n\n"

end AppletBundle
