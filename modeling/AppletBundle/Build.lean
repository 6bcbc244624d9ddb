import AppletBundle.Bundle.Disk
import AppletBundle.Entry.Emission
import AppletBundle.Project.Loading

/-!
# Builds

A build loads a project, packages its assets and writes their bundles, and emits the entry page. A
step that fails ends the build; what was written before stays.
-/

namespace AppletBundle

/-- What a finished build has made. -/
structure BuildReport where
  /-- The assets with their outputs. -/
  graph : AssetGraph
  context : BuildContext
  /-- The entry page. -/
  entry : Path

namespace Config

/-- Loads the project of a configuration. -/
def loadProject (c : Config) : FileAction AssetGraph :=
  FileAction.reading fun files ↦
    Outcome.inStep ("Failed to load project " ++ c.project.quoted)
      (Project.load ⟨c.project, c.extensions, files⟩)

/-- Packages a graph and writes its bundles. -/
def packageGraph (c : Config) (p : Packagers) (g : AssetGraph) :
    FileAction (AssetGraph × BuildContext) :=
  fun files ↦
    let packaging := g.package p (diskWriter .standard c.minify) c.outDir .empty files
    (packaging.result.map fun () ↦ (packaging.graph, packaging.context), packaging.state)

/-- Runs a whole build with given packagers. -/
def buildWith (c : Config) (p : Packagers) : FileAction BuildReport := do
  let loaded ← c.loadProject
  let (graph, context) ← c.packageGraph p loaded
  let entry ← (Entry.Emitter.mk c.outDir .standard c.minify).emit c.runtimeDir context
  return ⟨graph, context, entry⟩

/-- Runs a whole build. -/
def build (c : Config) : FileAction BuildReport :=
  c.buildWith (.ofConfig c)

end Config

end AppletBundle
