import AppletBundle.Config.Basic
import AppletBundle.Text.Split

/-!
# The environment

Variables of the environment set some of the settings. A variable that is blank, or that is no switch
where one is expected, sets nothing. The environment also says where configuration files are looked
for.
-/

namespace AppletBundle

/-- The values of variables by their names. -/
abbrev Environment := String → Option String

namespace Environment

/-- The variables that a run looks at. -/
def variableNames : List String :=
  ["HOME", "XDG_CONFIG_DIRS", "XDG_CONFIG_HOME", "PAGODA_PROJECT", "PAGODA_OUT_DIR",
   "PAGODA_RUNTIME_DIR", "PAGODA_MINIFY", "PAGODA_TREE_SHAKING", "PAGODA_KNOWN_GLOBALS"]

/-- The environment with given variables. -/
def ofList (given : List (String × String)) : Environment :=
  fun name ↦ given.lookup name

/-- The path in a variable. -/
def path? (env : Environment) (name : String) : Option Path :=
  (env name).bind fun value ↦
    if (Text.trim value.toList).isEmpty then none else some ⟨value⟩

/-- The switch that a word is, in any case and with white space around it. -/
def switchOf? (value : String) : Option Bool :=
  let word := String.ofList ((Text.trim value.toList).map Char.toLower)
  if ["true", "1", "yes", "on"].contains word then some true
  else if ["false", "0", "no", "off"].contains word then some false
  else none

/-- The switch in a variable. -/
def switch? (env : Environment) (name : String) : Option Bool :=
  (env name).bind switchOf?

/-- The names in a variable, with commas between them. -/
def names? (env : Environment) (name : String) : Option (OrderedSet String) :=
  (env name).bind fun value ↦
    let names := ((Text.splitAt (· == ',') value.toList).map Text.trim).filter (!·.isEmpty)
    if names.isEmpty then none else some (.ofList (names.map String.ofList))

/-- The settings in the environment. -/
def layer (env : Environment) : Config.Layer :=
  { Config.Layer.empty with
    project := env.path? "PAGODA_PROJECT"
    outDir := env.path? "PAGODA_OUT_DIR"
    runtimeDir := env.path? "PAGODA_RUNTIME_DIR"
    minify := env.switch? "PAGODA_MINIFY"
    treeShaking := env.switch? "PAGODA_TREE_SHAKING"
    knownGlobals := env.names? "PAGODA_KNOWN_GLOBALS" }

end Environment

end AppletBundle
