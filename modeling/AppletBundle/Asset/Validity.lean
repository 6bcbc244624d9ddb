import AppletBundle.Asset.Graph

/-!
# Valid asset graphs

A graph can be packaged when it has an app, all pages are under the app and have markup, all
components are under pages or components, and no two bundles share an identity.
-/

namespace AppletBundle.AssetGraph

/-- The kind of the asset above another. -/
def parentKind? (g : AssetGraph) (a : Asset) : Option AssetKind :=
  a.parent.bind fun id ↦ (g.get? id).map Asset.kind

/-- Checks the place of an asset, and that a page has markup. -/
def checkPlace (g : AssetGraph) (root : AssetId) (a : Asset) : Outcome Unit :=
  let misplaced := invalid a.identity <|
    a.kind.label ++ " cannot be placed under " ++
      ((g.parentKind? a).map AssetKind.label).getD "nothing"
  match a.kind, g.parentKind? a with
  | .app, none => if a.id = root then .ok () else misplaced
  | .page _, some .app =>
    if a.siblings.markup.isNone then
      invalid a.identity ("page " ++ a.path.text ++ " has no markup module")
    else .ok ()
  | .component _, some (.page _) => .ok ()
  | .component _, some (.component _) => .ok ()
  | _, _ => misplaced

/-- Checks that no bundle before an asset has its identity. -/
def checkIdentity (before : List Asset) (a : Asset) : Outcome Unit :=
  if a.kind.isBundle then
    match before.find? fun b ↦ b.kind.isBundle && b.identity == a.identity with
    | some b =>
      invalid a.identity <|
        "duplicate bundle identity shared by " ++ b.path.text ++ " and " ++ a.path.text
    | none => .ok ()
  else .ok ()

/-- Checks assets one after the other; those in `before` have been checked. -/
def checkAll (g : AssetGraph) (root : AssetId) : List Asset → List Asset → Outcome Unit
  | _, [] => .ok ()
  | before, a :: rest => do
    g.checkPlace root a
    checkIdentity before a
    g.checkAll root (before ++ [a]) rest

/-- Checks that the graph can be packaged. -/
def validate (g : AssetGraph) : Outcome Unit :=
  match g.root with
  | none => invalid "<root>" "the tree has no app"
  | some root => g.checkAll root [] g.nodes

end AppletBundle.AssetGraph
