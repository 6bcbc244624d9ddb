import AppletBundle.Config.File
import AppletBundle.Config.Location

/-!
# Loading a configuration

The layers of a configuration, from the lowest to the highest: the file of the system, that of the
user, that of the project, the environment, and a file that is named on the command line. The result
of every file has to be valid, and so has the end result.
-/

namespace AppletBundle.Config

/-- The configuration with a file over it, if there is one at the path. -/
def overlayFile (files : FileTree) (label : String) (path : Path) (c : Config) : Outcome Config :=
  if files.contains path then do
    let layer ← Outcome.inStep
      ("Failed to load " ++ label ++ " from " ++ path.quoted)
      (Layer.ofFile files path)
    Outcome.inStep ("Invalid configuration in " ++ path.quoted) (layer.applyTo c).validate
  else .ok c

/-- The configuration with a file over it, if a path is known for it. -/
def overlayFile? (files : FileTree) (label : String) (path : Option Path) (c : Config) :
    Outcome Config :=
  match path with
  | some path => overlayFile files label path c
  | none => .ok c

/-- The configuration with the file that is named on the command line over it. That file has to be
there. -/
def overlayNamed (files : FileTree) (named : Option Path) (c : Config) : Outcome Config :=
  match named with
  | none => .ok c
  | some path =>
    if files.contains path then overlayFile files "CLI config" path c
    else .error (.ofCause (.other ("Config file not found: " ++ path.quoted)))

/-- The configuration for a project. -/
def load (env : Environment) (files : FileTree) (named : Option Path) (project : Path) :
    Outcome Config := do
  let c ← overlayFile? files "system config" (systemFile? env files) .standard
  let c ← overlayFile? files "user config" (userFile? env) c
  let c ← overlayFile? files "project config" (projectFile? files project) c
  let c ← overlayNamed files named (env.layer.applyTo c)
  Outcome.inStep "Invalid final configuration" c.validate

end AppletBundle.Config
