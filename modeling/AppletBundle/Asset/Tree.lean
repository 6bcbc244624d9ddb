import AppletBundle.Asset.Graph

/-!
# Asset trees

A graph of assets seen from one of them downwards. Since children have greater numbers than their
parent, no way down is longer than the graph is large.
-/

namespace AppletBundle

/-- An asset with everything below it. -/
inductive AssetTree where
  | node (asset : Asset) (children : List AssetTree)

namespace AssetTree

/-- The asset on top. -/
def asset : AssetTree → Asset
  | node a _ => a

/-- The trees below the top. -/
def children : AssetTree → List AssetTree
  | node _ ts => ts

end AssetTree

namespace AssetGraph

/-- The tree below an asset down to a depth. -/
def treeWithin (g : AssetGraph) : Nat → AssetId → Option AssetTree
  | 0, _ => none
  | depth + 1, id =>
    (g.get? id).map fun a ↦ .node a (a.children.values.filterMap (g.treeWithin depth))

/-- The tree below an asset. -/
def tree? (g : AssetGraph) (id : AssetId) : Option AssetTree :=
  g.treeWithin g.size id

end AssetGraph

end AppletBundle
