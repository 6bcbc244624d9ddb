import AppletBundle.ModuleKind
import AppletBundle.Path.Basic

/-!
# Bundle files

A bundle is written as up to three files, one for each kind, that are named after its identity.
-/

namespace AppletBundle

/-- A file of a bundle. -/
structure BundleFile where
  path : Path
  kind : ModuleKind
  content : String
  deriving DecidableEq

namespace BundleFile

/-- The file of a kind of the bundle with an identity, in a directory. -/
def ofBundle (outDir : Path) (identity : String) (kind : ModuleKind) (content : String) :
    BundleFile :=
  ⟨outDir.join ⟨identity ++ "." ++ kind.extension⟩, kind, content⟩

end BundleFile

end AppletBundle
