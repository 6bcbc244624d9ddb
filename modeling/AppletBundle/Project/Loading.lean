import AppletBundle.Asset.Graph
import AppletBundle.Identity
import AppletBundle.Project.Basic

/-!
# Loading projects

The graph of a project is made by following the manifests: from the app to its pages, and from every
page down through the components that are declared on the way, each below the one that declares it.
A component that would come to lie below itself ends the loading. That bounds the depth: all
components on a chain have modules, and the paths to these are not too long to be followed.
-/

namespace AppletBundle.Project

/-- A failure of the structure at the asset with a key. -/
def invalidAt {α : Type} (key reason : String) : Outcome α :=
  AssetGraph.invalid (contentIdentity key) reason

/-- The key of a base. -/
def keyOf (base : Path) : String :=
  Path.projectKey ⟨""⟩ base

/-- Adds a component that the asset at a base declares, with the modules that `find` finds at its own
base, and with `descend` what lies below it. The chain holds the keys from the page down to the
declaring asset. -/
def loadComponent (find : Path → Outcome SiblingModules)
    (descend : AssetId → Path → List String → AssetGraph → Outcome AssetGraph)
    (parent : AssetId) (base : Path) (chain : List String) (g : AssetGraph)
    (declared : String × String) : Outcome AssetGraph :=
  let (tag, place) := declared
  match resolveComponent? base place with
  | none => .ok g
  | some target => do
    let key := keyOf target
    if chain.contains key then
      invalidAt key ("component cycle: " ++ " -> ".intercalate (chain ++ [key]))
    else
      let siblings ← find target
      if !siblings.hasAny then
        invalidAt key
          ("component \u0060" ++ tag ++ "\u0060 declared by " ++ base.text ++
            " has no modules at " ++ target.text)
      else
        let (id, g) ← g.addChild parent (.component tag) (contentIdentity key) target siblings
        descend id target (chain ++ [key]) g

/-- Adds everything below the asset at a base. Beyond a depth no modules are found any more. -/
def loadComponents (p : Project) :
    Nat → AssetId → Path → List String → AssetGraph → Outcome AssetGraph
  | 0, id, base, chain, g => do
    let manifest ← p.unitManifest base
    manifest.usingComponents.entries.foldlM
      (loadComponent (fun _ ↦ .ok .empty) (fun _ _ _ g ↦ .ok g) id base chain) g
  | depth + 1, id, base, chain, g => do
    let manifest ← p.unitManifest base
    manifest.usingComponents.entries.foldlM
      (loadComponent p.siblings (p.loadComponents depth) id base chain) g

/-- A bound on the number of components on a chain. Their bases are different texts, none of them
longer than a path that is followed: at each place of it, such a text has a character or has ended. -/
def depthBound : Nat :=
  Nat.pow (Char.numCodePoints + 1) FileTree.longestPath + 1

/-- The base of a page by its route. -/
def pageBase (route : String) : Path :=
  Path.normalize ⟨.ofList (route.toList.dropWhile (· == '/'))⟩

/-- Adds a page and everything below it. -/
def loadPage (p : Project) (app : AssetId) (g : AssetGraph) (route : String) :
    Outcome AssetGraph := do
  let base := pageBase route
  let siblings ← p.siblings base
  let (page, g) ←
    g.addChild app (.page route) (contentIdentity (keyOf base)) base siblings
  p.loadComponents depthBound page base [keyOf base] g

/-- The graph of a project. -/
def load (p : Project) : Outcome AssetGraph := do
  let manifest ← p.appManifest
  let siblings ← p.siblings appBase
  let (app, g) ← AssetGraph.empty.addApp (contentIdentity appBase.text) appBase siblings
  manifest.pages.foldlM (p.loadPage app) g

end AppletBundle.Project
