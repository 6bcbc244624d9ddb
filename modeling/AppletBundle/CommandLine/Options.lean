import AppletBundle.Path.Basic

/-!
# Options

The arguments of the command are read in two steps: they become items, where a cluster of letters
after one dash comes apart; then the items are taken from left to right. An option that needs a value
takes it from its own argument or from the next one, which must not look like an option. Asking for
help or for the version ends the reading at once, and so does a misuse.
-/

namespace AppletBundle.CommandLine

/-! ### Names -/

/-- The options that take a value. -/
inductive Setting where
  | project
  | outDir
  | runtimeDir
  | config
  deriving DecidableEq

/-- The options that stand alone. -/
inductive Switch where
  | minify
  | noTreeShaking
  | verbose
  | help
  | version
  deriving DecidableEq

/-- The options. -/
inductive OptionName where
  | setting (s : Setting)
  | switch (s : Switch)
  deriving DecidableEq

/-- The option with a long name. -/
def longName? : String → Option OptionName
  | "project" => some (.setting .project)
  | "out-dir" => some (.setting .outDir)
  | "runtime-dir" => some (.setting .runtimeDir)
  | "config" => some (.setting .config)
  | "minify" => some (.switch .minify)
  | "no-tree-shaking" => some (.switch .noTreeShaking)
  | "verbose" => some (.switch .verbose)
  | "help" => some (.switch .help)
  | "version" => some (.switch .version)
  | _ => none

/-- The option with a letter. -/
def letter? : Char → Option OptionName
  | 'p' => some (.setting .project)
  | 'o' => some (.setting .outDir)
  | 'c' => some (.setting .config)
  | 'm' => some (.switch .minify)
  | 'v' => some (.switch .verbose)
  | 'h' => some (.switch .help)
  | 'V' => some (.switch .version)
  | _ => none

/-! ### Items -/

/-- A part of an argument, or a whole one. -/
inductive Item where
  /-- An option with the value that is attached to it. -/
  | option (name : OptionName) (value : Option String)
  /-- Something that looks like an option and is none. -/
  | unknown (text : String)
  /-- An argument that does not look like an option. -/
  | plain (text : String)
  /-- The mark after which nothing is an option. -/
  | endOfOptions
  deriving DecidableEq

/-- The value attached to a letter; an equals sign may stand before it. -/
def attachedValue? : List Char → Option String
  | [] => none
  | '=' :: rest => some (.ofList rest)
  | rest => some (.ofList rest)

/-- The items of a cluster of letters. The letter of a setting takes the rest for its value. -/
def clusterItems : List Char → List Item
  | [] => []
  | c :: rest =>
    match letter? c with
    | none => [.unknown (.ofList ['-', c])]
    | some (.setting s) => [.option (.setting s) (attachedValue? rest)]
    | some (.switch s) => .option (.switch s) none :: clusterItems rest

/-- The item of an argument after its two dashes. -/
def longItem (s : List Char) : Item :=
  let (name, rest) := s.span (· ≠ '=')
  match longName? (.ofList name) with
  | none => .unknown ("--" ++ .ofList name)
  | some option => .option option (rest.tail?.map String.ofList)

/-- The items of an argument. -/
def argumentItems (argument : String) : List Item :=
  match argument.toList with
  | ['-', '-'] => [.endOfOptions]
  | '-' :: '-' :: rest => [longItem rest]
  | ['-'] => [.plain argument]
  | '-' :: rest => clusterItems rest
  | _ => [.plain argument]

/-- The items of all arguments. After the mark that ends the options every argument is plain. -/
def items : List String → List Item
  | [] => []
  | argument :: rest =>
    if argument = "--" then .endOfOptions :: rest.map .plain
    else argumentItems argument ++ items rest

/-! ### Reading -/

/-- What the options ask for. -/
structure Options where
  project : Option Path
  outDir : Option Path
  runtimeDir : Option Path
  config : Option Path
  minify : Bool
  noTreeShaking : Bool
  /-- How much a run tells about itself. -/
  verbosity : Nat
  deriving DecidableEq

/-- Options that ask for nothing. -/
def Options.none : Options :=
  ⟨.none, .none, .none, .none, false, false, 0⟩

/-- Why there is nothing to run. -/
inductive Stop where
  | help
  | version
  | misuse (reason : String)
  deriving DecidableEq

/-- The value of a setting. -/
def Options.get (o : Options) : Setting → Option Path
  | .project => o.project
  | .outDir => o.outDir
  | .runtimeDir => o.runtimeDir
  | .config => o.config

/-- The name of a setting in messages. -/
def Setting.label : Setting → String
  | project => "--project"
  | outDir => "--out-dir"
  | runtimeDir => "--runtime-dir"
  | config => "--config"

/-- Gives a setting its value, which is not empty and comes once. -/
def Options.assign (o : Options) (s : Setting) (value : String) : Except Stop Options :=
  if value.isEmpty then .error (.misuse ("a value is required for '" ++ s.label ++ "'"))
  else if (o.get s).isSome then
    .error (.misuse ("the argument '" ++ s.label ++ "' cannot be used multiple times"))
  else .ok <|
    match s with
    | .project => { o with project := some ⟨value⟩ }
    | .outDir => { o with outDir := some ⟨value⟩ }
    | .runtimeDir => { o with runtimeDir := some ⟨value⟩ }
    | .config => { o with config := some ⟨value⟩ }

/-- Turns a switch on. Only telling more can be asked for again and again. -/
def Options.turnOn (o : Options) : Switch → Except Stop Options
  | .help => .error .help
  | .version => .error .version
  | .verbose => .ok { o with verbosity := o.verbosity + 1 }
  | .minify =>
    if o.minify then .error (.misuse "the argument '--minify' cannot be used multiple times")
    else .ok { o with minify := true }
  | .noTreeShaking =>
    if o.noTreeShaking then
      .error (.misuse "the argument '--no-tree-shaking' cannot be used multiple times")
    else .ok { o with noTreeShaking := true }

/-- Takes items from left to right; `open?` is a setting that waits for its value. -/
def takeItems (o : Options) : Option Setting → List Item → Except Stop Options
  | none, [] => .ok o
  | some s, .plain value :: rest => do takeItems (← o.assign s value) .none rest
  | some s, _ => .error (.misuse ("a value is required for '" ++ s.label ++ "'"))
  | none, .option (.setting s) (some value) :: rest => do
    takeItems (← o.assign s value) .none rest
  | none, .option (.setting s) none :: rest => takeItems o (some s) rest
  | none, .option (.switch s) none :: rest => do takeItems (← o.turnOn s) .none rest
  | none, .option (.switch _) (some value) :: _ =>
    .error (.misuse ("unexpected value '" ++ value ++ "'"))
  | none, .unknown text :: _ => .error (.misuse ("unexpected argument '" ++ text ++ "'"))
  | none, .plain text :: _ => .error (.misuse ("unexpected argument '" ++ text ++ "'"))
  | none, .endOfOptions :: rest => takeItems o .none rest

/-- The options of a command line. -/
def Options.ofArguments (arguments : List String) : Except Stop Options :=
  takeItems .none .none (items arguments)

end AppletBundle.CommandLine
