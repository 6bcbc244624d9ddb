import AppletBundle.ModuleKind
import AppletBundle.Script.Module

/-!
# Assets

An asset is an app, a page or a component, with the modules that lie next to each other at its path.
Packaging gives it an output of the three kinds and the imports that its script keeps.
-/

namespace AppletBundle

open AppletBundle.Script

/-- The number of an asset in its graph. -/
abbrev AssetId := Nat

/-- A module of which only the text matters. -/
structure SourceModule where
  path : Path
  source : String
  deriving DecidableEq

/-- The modules at one path. -/
structure SiblingModules where
  script : Option ScriptModule
  markup : Option SourceModule
  style : Option SourceModule

namespace SiblingModules

/-- No modules. -/
def empty : SiblingModules :=
  ⟨none, none, none⟩

/-- Whether there is a module of a kind. -/
def has (s : SiblingModules) : ModuleKind → Bool
  | .script => s.script.isSome
  | .style => s.style.isSome
  | .markup => s.markup.isSome

/-- Whether there is any module. -/
def hasAny (s : SiblingModules) : Bool :=
  ModuleKind.all.any s.has

/-- The modules without the one of a kind. -/
def clear (s : SiblingModules) : ModuleKind → SiblingModules
  | .script => { s with script := none }
  | .style => { s with style := none }
  | .markup => { s with markup := none }

end SiblingModules

/-- What an asset is. -/
inductive AssetKind where
  | app
  /-- A page with the route by which the app declares it. -/
  | page (route : String)
  /-- A component with the name that its parent gives it in markup. -/
  | component (tag : String)
  deriving DecidableEq

namespace AssetKind

/-- The word for a kind in messages. -/
def label : AssetKind → String
  | app => "app"
  | page _ => "page"
  | component _ => "component"

/-- Whether assets of a kind have a bundle of their own. -/
def isBundle : AssetKind → Bool
  | app => true
  | page _ => true
  | component _ => false

end AssetKind

/-- Text of each kind. -/
structure Output where
  script : String
  style : String
  markup : String
  deriving DecidableEq

namespace Output

/-- No text. -/
def empty : Output :=
  ⟨"", "", ""⟩

/-- The text of a kind. -/
def get (o : Output) : ModuleKind → String
  | .script => o.script
  | .style => o.style
  | .markup => o.markup

/-- One output after another, kind by kind. -/
def append (o p : Output) : Output :=
  ⟨o.script ++ p.script, o.style ++ p.style, o.markup ++ p.markup⟩

/-- Whether there is no text of any kind. -/
def isEmpty (o : Output) : Bool :=
  ModuleKind.all.all fun kind ↦ (o.get kind).isEmpty

end Output

/-- A node of an asset graph. -/
structure Asset where
  id : AssetId
  kind : AssetKind
  identity : String
  /-- Where the asset lies in the project. -/
  path : Path
  siblings : SiblingModules
  /-- The children by their identities, in the order of declaration. -/
  children : OrderedMap String AssetId
  parent : Option AssetId
  output : Output
  /-- The imports that the selected statements of the script use. -/
  dependencies : OrderedSet ExternalImport

/-- The asset in messages. -/
def Asset.describe (a : Asset) : String :=
  a.kind.label ++ " " ++ a.identity ++ " (" ++ a.path.text ++ ")"

end AppletBundle
