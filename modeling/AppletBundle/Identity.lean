import AppletBundle.Digest.Sha256

/-!
# Identities

An asset, and everything named after it in a bundle, is identified by a short name derived from its
key in the project.
-/

namespace AppletBundle

/-- The first 16 hexadecimal digits of the key's digest. -/
def contentIdentity (key : String) : String :=
  .ofList (((Digest.sha256 key.toUTF8.toList).flatMap Digest.hexByte).take 16)

end AppletBundle
