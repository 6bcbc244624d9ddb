import AppletBundle.CommandLine.Help
import AppletBundle.CommandLine.Run
import AppletBundle.Files.Collection
import AppletBundle.Json.Parser

/-!
# The command

The command works on files as a whole: it reads the collection of all files below the working
directory from standard input and writes the collection of new and changed files to standard output.
Everything in between is `CommandLine.run`.
-/

namespace AppletBundle.CommandLine

/-- Reads lines up to the end of the input. -/
partial def readAll (input : IO.FS.Stream) (text : String) : IO String := do
  let line ← input.getLine
  if line.isEmpty then return text
  readAll input (text ++ line)

/-- The variables of the environment that a run looks at. -/
def readEnvironment : IO Environment := do
  let given ← Environment.variableNames.filterMapM fun name ↦ do
    return (← IO.getEnv name).map fun value ↦ (name, value)
  return .ofList given

/-- The names that lead to the working directory. -/
def readWorkDir : IO Location := do
  return FileTree.namesOf ((← IO.getEnv "PWD").getD "")

/-- Says how a run has ended, and gives the files that it has made. -/
def tell (ending : Ending) (before after : FileTree) : IO Unit := do
  match ending with
  | .stopped .help => IO.print helpText
  | .stopped .version => IO.print versionText
  | .stopped (.misuse reason) => IO.eprintln ("error: " ++ reason)
  | .failed f =>
    IO.println (collectionToJson (before.changedFiles after)).pretty
    IO.eprintln f.report
  | .built _ => IO.println (collectionToJson (before.changedFiles after)).pretty

end AppletBundle.CommandLine

open AppletBundle AppletBundle.CommandLine

/-- Runs the command line on the collection in standard input. -/
def main (arguments : List String) : IO UInt32 := do
  let text ← readAll (← IO.getStdin) ""
  match (Json.parse? text.toList).bind collectionOf? with
  | none =>
    IO.eprintln "error: standard input holds no collection of files"
    return 2
  | some files =>
    let before := FileTree.ofCollection (← readWorkDir) files
    let (ending, after) := run arguments (← readEnvironment) before
    tell ending before after
    return ending.exitCode.toUInt32
