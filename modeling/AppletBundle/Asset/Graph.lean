import AppletBundle.Asset.Basic
import AppletBundle.Failure

/-!
# Asset graphs

The assets of a project are numbered in the order in which they are added: first the app, then pages
and components, each under an asset that is there already. So the numbers of children are greater
than that of their parent, and the graph is a tree.
-/

namespace AppletBundle

open AppletBundle.Script

/-- The assets of a project. -/
structure AssetGraph where
  nodes : List Asset
  /-- The app. -/
  root : Option AssetId

namespace AssetGraph

/-- The graph without assets. -/
def empty : AssetGraph :=
  ⟨[], none⟩

/-- The asset with a number. -/
def get? (g : AssetGraph) (id : AssetId) : Option Asset :=
  g.nodes[id]?

/-- The number of assets. -/
def size (g : AssetGraph) : Nat :=
  g.nodes.length

/-- The children of the asset with a number, in the order of declaration. -/
def children? (g : AssetGraph) (id : AssetId) : Option (List AssetId) :=
  (g.get? id).map fun a ↦ a.children.values

/-- Changes the asset with a number. -/
def modify (g : AssetGraph) (id : AssetId) (f : Asset → Asset) : AssetGraph :=
  { g with nodes := g.nodes.modify id f }

/-- Appends an asset without children. -/
def push (g : AssetGraph) (kind : AssetKind) (identity : String) (path : Path)
    (siblings : SiblingModules) (parent : Option AssetId) : AssetGraph :=
  { g with
    nodes := g.nodes ++
      [⟨g.size, kind, identity, path, siblings, .empty, parent, .empty, .empty⟩] }

/-- A failure of the structure at an asset. -/
def invalid {α : Type} (identity reason : String) : Outcome α :=
  .error (.ofCause (.invalidTree identity reason))

/-- Adds the app. -/
def addApp (g : AssetGraph) (identity : String) (path : Path) (siblings : SiblingModules) :
    Outcome (AssetId × AssetGraph) :=
  if g.root.isSome then invalid identity "a tree has exactly one app"
  else .ok (g.size, { g.push .app identity path siblings none with root := some g.size })

/-- Adds a page or component under an asset. A component that is there already under the same asset
is not added again; a page must not be. -/
def addChild (g : AssetGraph) (parent : AssetId) (kind : AssetKind) (identity : String)
    (path : Path) (siblings : SiblingModules) : Outcome (AssetId × AssetGraph) :=
  if kind = .app then invalid identity "an app cannot have a parent"
  else match g.get? parent with
    | none => invalid identity ("unknown parent AssetId(" ++ toString parent ++ ")")
    | some parentAsset =>
      match parentAsset.children.get? identity with
      | some existing =>
        if kind.isBundle then
          invalid identity ("duplicate " ++ kind.label ++ " under " ++ parentAsset.identity)
        else .ok (existing, g)
      | none =>
        let g' := g.push kind identity path siblings (some parent)
        .ok (g.size, g'.modify parent fun a ↦
          { a with children := a.children.insert identity g.size })

end AssetGraph

end AppletBundle
