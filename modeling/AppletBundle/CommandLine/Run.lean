import AppletBundle.Build
import AppletBundle.CommandLine.Options
import AppletBundle.Config.Loading

/-!
# Running a command line

A command line is run on the files and in the environment that it finds: the configuration is loaded,
the options are laid over it, and the build is run.
-/

namespace AppletBundle.CommandLine

/-- The configuration with what the options ask for over it. -/
def Options.applyTo (o : Options) (c : Config) : Config :=
  { c with
    project := o.project.getD c.project
    outDir := o.outDir.getD c.outDir
    runtimeDir := Config.overlay o.runtimeDir c.runtimeDir
    minify := o.minify || c.minify
    treeShaking := !o.noTreeShaking && c.treeShaking }

/-- Loads the configuration and runs the build that the options ask for. -/
def Options.build (o : Options) (env : Environment) : FileAction BuildReport := do
  let c ← FileAction.reading fun files ↦
    Config.load env files o.config (o.project.getD Config.standard.project)
  (o.applyTo c).build

/-- How a run ends. -/
inductive Ending where
  | built (report : BuildReport)
  | failed (failure : Failure)
  | stopped (stop : Stop)

namespace Ending

/-- The exit code of a run. -/
def exitCode : Ending → Nat
  | built _ => 0
  | failed _ => 1
  | stopped (.misuse _) => 2
  | stopped .help => 0
  | stopped .version => 0

end Ending

/-- Runs a command line. Gives its ending and the files that it leaves. -/
def run (arguments : List String) (env : Environment) (files : FileTree) : Ending × FileTree :=
  match Options.ofArguments arguments with
  | .error stop => (.stopped stop, files)
  | .ok o =>
    match (o.build env).runOn files with
    | (.ok report, files) => (.built report, files)
    | (.error f, files) => (.failed f, files)

end AppletBundle.CommandLine
