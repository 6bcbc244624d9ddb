import AppletBundle.Config.Environment
import AppletBundle.Files.Tree

/-!
# Places of configuration files

Besides a file that is named on the command line there are three places for one: that of the system,
that of the user and that of the project.
-/

namespace AppletBundle.Config

/-- The directory for the files of this program in a directory for configuration files. -/
def directoryName : Path :=
  ⟨"pagoda"⟩

/-- The name of a configuration file. -/
def fileName : Path :=
  ⟨"pagoda.toml"⟩

/-- The configuration file in a directory for the configuration files of all programs. -/
def fileIn (directory : Path) : Path :=
  (directory.join directoryName).join fileName

/-- The directories for configuration files of the system, up to the first that is empty. -/
def systemDirectories (env : Environment) : List Path :=
  let value := match env "XDG_CONFIG_DIRS" with
    | none => "/etc/xdg"
    | some value => if value.isEmpty then "/etc/xdg" else value
  ((Text.splitAt (· == ':') value.toList).takeWhile (!·.isEmpty)).map fun d ↦ ⟨.ofList d⟩

/-- The configuration file of the system. -/
def systemFile? (env : Environment) (files : FileTree) : Option Path :=
  match ((systemDirectories env).map fileIn).find? files.isFile with
  | some path => some path
  | none =>
    let path := fileIn ⟨"/etc"⟩
    if files.contains path then some path else none

/-- The configuration file of the user, which need not be there. -/
def userFile? (env : Environment) : Option Path :=
  match (env "HOME").map Path.mk, (env "XDG_CONFIG_HOME").map Path.mk with
  | none, _ => none
  | some home, none => some (fileIn (home.join ⟨".config"⟩))
  | some home, some chosen =>
    some (fileIn (if chosen.isAbsolute then chosen else home.join ⟨".config"⟩))

/-- The configuration file of a project: the one in it, or the one in the working directory. -/
def projectFile? (files : FileTree) (project : Path) : Option Path :=
  [project.join fileName, fileName].find? files.isFile

end AppletBundle.Config
