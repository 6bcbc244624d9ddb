import AppletBundle.Bundle.Packaging
import AppletBundle.Bundle.Rendering
import AppletBundle.Files.Action

/-!
# Bundles in a file tree

A bundle file is rendered before anything is touched, so that a rejected content leaves the tree as it
is; then the directories above the file are made as needed and the file is written.
-/

namespace AppletBundle

/-- Renders and writes a bundle file. Nothing is written for a file without content. -/
def writeBundleFile (t : CodeTransform) (minify : Bool) (file : BundleFile) : FileAction Unit :=
  if file.content.isEmpty then pure ()
  else do
    let rendered ← render t minify file.path file.kind file.content
    FileAction.makeParent file.path
    FileAction.writeText file.path rendered

/-- The writer of bundle files into a file tree. -/
def diskWriter (t : CodeTransform) (minify : Bool) : Writer FileTree where
  write tree file := (writeBundleFile t minify file).runOn tree

end AppletBundle
