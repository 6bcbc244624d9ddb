import AppletBundle.Failure
import AppletBundle.Script.Globals
import AppletBundle.Script.Module

/-!
# Selection of live statements

A statement is live if the module needs it. What a module needs to begin with are its exported
statements and those that declare nothing but use something; from there liveness spreads from a
statement to every statement that declares a name it uses. Selection keeps the live statements that
can be part of the output, in source order, and finds for each name they use where it comes from.
-/

namespace AppletBundle.Script

/-- Which statements are kept. -/
inductive SelectionMode where
  /-- Those that exports and effects need. -/
  | reachability
  /-- All that can be part of the output. -/
  | unconditional
  deriving DecidableEq

/-- How to select: which statements to keep, and which names are global. -/
structure SelectOptions where
  mode : SelectionMode
  globals : KnownGlobals

/-- Whether a statement declares a name as a part of the module. -/
def Statement.isDefinerOf (s : Statement) (name : String) : Bool :=
  s.kind != .importLink && s.defines.contains name

namespace ScriptModule

/-! ### Liveness -/

/-- Whether the statement at a position is needed from the start. -/
def isRoot (m : ScriptModule) (s : Statement) (i : Nat) : Bool :=
  s.kind != .importLink &&
    (m.exports.values.contains i || (s.defines.isEmpty && !s.depends.isEmpty))

/-- Which statements are needed from the start. -/
def roots (m : ScriptModule) : List Bool :=
  m.statements.zipIdx.map fun (s, i) ↦ m.isRoot s i

/-- The names that the marked statements use. -/
def namesUsed (m : ScriptModule) (live : List Bool) : List String :=
  (m.statements.zip live).flatMap fun (s, l) ↦ if l then s.depends.toList else []

/-- Marks the statements that declare a name used by a marked one. -/
def spread (m : ScriptModule) (live : List Bool) : List Bool :=
  let names := m.namesUsed live
  (m.statements.zip live).map fun (s, l) ↦ l || names.any s.isDefinerOf

/-- Spreads marks a number of times, or until nothing changes. -/
def spreadAll (m : ScriptModule) : Nat → List Bool → List Bool
  | 0, live => live
  | n + 1, live =>
    let next := m.spread live
    if next = live then live else m.spreadAll n next

/-- Which statements are live. Every step but the last marks a statement, so there are no more steps
than statements. -/
def reachable (m : ScriptModule) : List Bool :=
  m.spreadAll m.statements.length m.roots

/-- Which statements a mode takes as live. -/
def live (m : ScriptModule) : SelectionMode → List Bool
  | .reachability => m.reachable
  | .unconditional => m.statements.map fun s ↦ s.kind.isEmittable

/-! ### Names -/

/-- Where a name that a statement uses comes from. -/
inductive NameOrigin where
  | defined
  | imported (binding : ImportBinding)
  | global
  | unresolved
  deriving DecidableEq

/-- Finds where a name comes from: the module itself, then its imports, then the globals. -/
def origin (m : ScriptModule) (globals : KnownGlobals) (name : String) : NameOrigin :=
  if m.statements.any (·.isDefinerOf name) then .defined
  else match m.imports.get? name with
    | some binding => .imported binding
    | none => if globals.contains name then .global else .unresolved

/-- Adds the imports among the names of the statement at a position. -/
def resolveNames (m : ScriptModule) (globals : KnownGlobals) (i : Nat) :
    List String → OrderedSet ExternalImport → Outcome (OrderedSet ExternalImport)
  | [], external => .ok external
  | name :: names, external =>
    match m.origin globals name with
    | .imported binding => m.resolveNames globals i names (external.insert ⟨name, binding⟩)
    | .unresolved => .error (.ofCause (.unresolvedName m.label i name))
    | _ => m.resolveNames globals i names external

/-- Adds the imports of the marked statements, which start at a position. -/
def resolveStatements (m : ScriptModule) (globals : KnownGlobals) :
    Nat → List (Statement × Bool) → OrderedSet ExternalImport → Outcome (OrderedSet ExternalImport)
  | _, [], external => .ok external
  | i, (s, isLive) :: rest, external =>
    if isLive then
      match m.resolveNames globals i s.depends.toList external with
      | .error f => .error f
      | .ok external => m.resolveStatements globals (i + 1) rest external
    else m.resolveStatements globals (i + 1) rest external

/-! ### Selection -/

/-- The positions of the marked statements that can be part of the output. -/
def emitted (m : ScriptModule) (live : List Bool) : List Nat :=
  ((m.statements.zip live).zipIdx.filter fun ((s, l), _) ↦ l && s.kind.isEmittable).map Prod.snd

/-- Selects the statements of a module that go into the output. -/
def select (m : ScriptModule) (options : SelectOptions) : Outcome Selection :=
  let live := m.live options.mode
  match m.resolveStatements options.globals 0 (m.statements.zip live) .empty with
  | .error f => .error f
  | .ok external => .ok ⟨m.emitted live, external⟩

/-- Selects once: the first selection is recorded and given again from then on. -/
def selectRecorded (m : ScriptModule) (options : SelectOptions) :
    Outcome (Selection × ScriptModule) :=
  match m.selected with
  | some s => .ok (s, m)
  | none => (m.select options).map fun s ↦ (s, m.recordSelection s)

/-- The statements that can be part of the output but are not live. -/
def divergingStatements (m : ScriptModule) : List Nat :=
  m.emitted (m.reachable.map (!·))

end ScriptModule

/-! ### Looking into a selection -/

/-- Halves a range of ascending numbers until one is left that is the greatest not above `x`. -/
def bisect (xs : Array Nat) (x : Nat) (base size : Nat) : Nat :=
  if 1 < size then
    let half := size / 2
    if xs.getD (base + half) 0 ≤ x then bisect xs x (base + half) (size - half)
    else bisect xs x base (size - half)
  else base
termination_by size

/-- Whether a statement is selected, found by bisection. -/
def Selection.contains (s : Selection) (i : Nat) : Bool :=
  let xs := s.statements.toArray
  xs[bisect xs i 0 xs.size]? == some i

end AppletBundle.Script
