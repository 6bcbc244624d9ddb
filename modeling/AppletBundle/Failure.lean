import AppletBundle.ModuleKind
import AppletBundle.Path.Quoted

/-!
# Failures

Everything that ends a build is a cause together with the steps of the build that it ended, the
outermost first. The wording of every cause is in `Cause.message`.
-/

namespace AppletBundle

/-- The steps on which a module's content can fail. -/
inductive Tool where
  | syntaxParser
  | scopeAnalysis
  | minifier
  | formatter
  | named (name : String)
  deriving DecidableEq

/-- The name of a tool in messages. -/
def Tool.label : Tool → String
  | syntaxParser => "parser"
  | scopeAnalysis => "scope analysis"
  | minifier => "minifier"
  | formatter => "formatter"
  | named name => name

/-- Why a file or directory cannot be read or written. -/
inductive FileFault where
  | notFound
  | isADirectory
  | notADirectory
  | alreadyExists
  /-- The content is no text. -/
  | invalidData
  deriving DecidableEq

/-- The wording of a file fault. -/
def FileFault.message : FileFault → String
  | notFound => "No such file or directory"
  | isADirectory => "Is a directory"
  | notADirectory => "Not a directory"
  | alreadyExists => "File exists"
  | invalidData => "stream did not contain valid UTF-8"

/-- The formats of configuration and manifests. -/
inductive DataFormat where
  | json
  | toml
  /-- The listing of a directory. -/
  | listing
  deriving DecidableEq

/-- What went wrong. -/
inductive Cause where
  /-- A live statement uses a name that nothing provides. -/
  | unresolvedName (module : String) (statement : Nat) (name : String)
  /-- The assets do not form a tree that can be packaged. -/
  | invalidTree (identity reason : String)
  /-- A tool rejected the content of a module or an output. -/
  | tool (tool : Tool) (kind : ModuleKind) (identity message : String)
  /-- A file could not be read or written. -/
  | file (path : Path) (fault : FileFault)
  /-- The file that a step names could not be read. -/
  | unreadable (fault : FileFault)
  /-- A text is not of its format. -/
  | format (format : DataFormat) (message : String)
  /-- Anything else, in words. -/
  | other (message : String)
  /-- An offset of a hand-made module lies outside its source or inside a character. -/
  | badOffset
  /-- An asset was asked for that is not in the graph. -/
  | unknownAsset
  deriving DecidableEq

/-- The wording of a cause. -/
def Cause.message : Cause → String
  | unresolvedName module statement name =>
    "unresolved name \u0060" ++ name ++ "\u0060 in " ++ module ++ " (statement #" ++
      toString statement ++ ")"
  | invalidTree identity reason => "invalid asset tree at " ++ identity ++ ": " ++ reason
  | tool t kind identity message =>
    t.label ++ " failed on " ++ kind.label ++ " output of " ++ identity ++ ": " ++ message
  | file path _ => "I/O error on " ++ path.quoted
  | unreadable fault => fault.message
  | format _ message => message
  | other message => message
  | badOffset => "an offset is not between two characters of the source"
  | unknownAsset => "no asset has this number"

/-- What lies behind a cause. -/
def Cause.reason? : Cause → Option String
  | file _ fault => some fault.message
  | _ => none

/-- A cause and the steps that it ended, the outermost first. -/
structure Failure where
  context : List String
  cause : Cause
  deriving DecidableEq

namespace Failure

/-- A failure outside any step. -/
def ofCause (cause : Cause) : Failure :=
  ⟨[], cause⟩

/-- The failure seen from the step around it. -/
def inStep (step : String) (f : Failure) : Failure :=
  { f with context := step :: f.context }

/-- The steps, the cause and what lies behind it. -/
def chain (f : Failure) : List String :=
  f.context ++ f.cause.message :: f.cause.reason?.toList

/-- All steps and the cause in one line. -/
def message (f : Failure) : String :=
  ": ".intercalate f.chain

/-- The first line of what is told about a failure. -/
def headline (f : Failure) : String :=
  "Error: " ++ .ofList ((f.chain.headD "").toList.takeWhile (· != '\n'))

/-- Everything that is told about a failure. -/
def report (f : Failure) : String :=
  match f.chain with
  | [] => "Error: "
  | [only] => "Error: " ++ only
  | outer :: inner => "Error: " ++ outer ++ "\n\nCaused by:\n    " ++ "\n    ".intercalate inner

end Failure

/-- A result that may be a failure. -/
abbrev Outcome := Except Failure

/-- Names the step in which a computation may fail. -/
def Outcome.inStep {α : Type} (step : String) (x : Outcome α) : Outcome α :=
  x.mapError (Failure.inStep step)

/-- Naming the step does not change a result. -/
theorem Outcome.inStep_eq_ok {α : Type} {step : String} {x : Outcome α} {a : α} :
    x.inStep step = .ok a ↔ x = .ok a := by
  cases x with
  | error f => exact ⟨fun h ↦ (by cases h), fun h ↦ (by cases h)⟩
  | ok b => exact Iff.rfl

/-- Two steps succeed together exactly if the first does and the second does with its result. -/
theorem Outcome.bind_eq_ok {α β : Type} {x : Outcome α} {f : α → Outcome β} {b : β} :
    (x >>= f) = .ok b ↔ ∃ a, x = .ok a ∧ f a = .ok b := by
  cases x with
  | error e =>
    constructor
    · intro h
      cases h
    · rintro ⟨a, ha, -⟩
      cases ha
  | ok a =>
    constructor
    · exact fun h ↦ ⟨a, rfl, h⟩
    · rintro ⟨a', ha, h⟩
      cases ha
      exact h

/-- What is made of a result is there exactly if the result is. -/
theorem Outcome.map_eq_ok {α β : Type} {x : Outcome α} {f : α → β} {b : β} :
    x.map f = .ok b ↔ ∃ a, x = .ok a ∧ f a = b := by
  rcases x with e | a
  · exact ⟨fun h ↦ (by cases h), fun ⟨_, h, _⟩ ↦ (by cases h)⟩
  · exact ⟨fun h ↦ ⟨a, rfl, Except.ok.inj h⟩, fun ⟨_, h, hb⟩ ↦ Except.ok.inj h ▸ congrArg _ hb⟩

/-- What holds before any element of a loop, and grows by one element with every step that succeeds,
holds of the whole list once the loop has succeeded. -/
theorem Outcome.foldlM_induction {α β : Type} {f : β → α → Outcome β} {P : List α → β → Prop}
    {l : List α} {a b : β} (hnil : P [] a)
    (hstep : ∀ done x c c', x ∈ l → P done c → f c x = .ok c' → P (done ++ [x]) c')
    (h : l.foldlM f a = .ok b) : P l b := by
  suffices ∀ rest done c, rest ⊆ l → P done c → rest.foldlM f c = .ok b → P (done ++ rest) b from
    this l [] a (List.Subset.refl l) hnil h
  intro rest
  induction rest with
  | nil =>
    rintro done c - hc ⟨⟩
    rwa [List.append_nil]
  | cons x rest ih =>
    intro done c hsub hc hrest
    obtain ⟨hx, hsub⟩ := List.cons_subset.1 hsub
    rw [List.foldlM_cons] at hrest
    obtain ⟨c', hfirst, hrest⟩ := Outcome.bind_eq_ok.1 hrest
    rw [← List.singleton_append, ← List.append_assoc]
    exact ih (done ++ [x]) c' hsub (hstep done x c c' hx hc hfirst) hrest

end AppletBundle
