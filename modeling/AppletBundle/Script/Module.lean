import AppletBundle.Identity
import AppletBundle.Ordered.Map
import AppletBundle.Ordered.Set
import AppletBundle.Path.Normal
import AppletBundle.Text.Slice

/-!
# Script modules

A script module is its source together with its top-level statements, each with the names it
declares for the module and the names it uses freely. All later work is on these annotations and on
offsets into the source, which is never parsed again. A statement is known by its position.
-/

namespace AppletBundle.Script

/-- What a statement is to selection and assembly. -/
inductive StatementKind where
  /-- A link to another module: an import, or an export from elsewhere. -/
  | importLink
  /-- An exported declaration, which begins at `declarationStart`. -/
  | exportWrapper (declarationStart : Nat)
  /-- A default export of a value without a name, which begins at `expressionStart`. -/
  | defaultExpression (expressionStart : Nat)
  /-- A list of names that are exported. -/
  | exportList
  /-- Any other statement. -/
  | plain
  deriving DecidableEq

/-- Whether statements of a kind can be part of the output. -/
def StatementKind.isEmittable : StatementKind → Bool
  | importLink => false
  | exportWrapper _ => true
  | defaultExpression _ => true
  | exportList => false
  | plain => true

/-- A range of offsets into a source, the end excluded. -/
structure Span where
  start : Nat
  stop : Nat
  deriving DecidableEq

/-- Whether an offset lies in a range. -/
def Span.contains (s : Span) (offset : Nat) : Bool :=
  s.start ≤ offset && offset < s.stop

/-- A top-level statement. -/
structure Statement where
  kind : StatementKind
  span : Span
  /-- The names of the module that the statement declares. -/
  defines : OrderedSet String
  /-- The names it uses that are declared by the module or not at all. -/
  depends : OrderedSet String

/-- What an imported name stands for: a name that another module exports, `default` and `*`
included, and that module as it was written. -/
structure ImportBinding where
  imported : String
  source : String
  deriving DecidableEq

/-- An imported name that a selected statement uses. -/
structure ExternalImport where
  localName : String
  binding : ImportBinding
  deriving DecidableEq

/-- The statements of a module that go into the output, and the imports that they use. -/
structure Selection where
  statements : List Nat
  external : OrderedSet ExternalImport
  deriving DecidableEq

/-- An annotated module. -/
structure ScriptModule where
  path : Path
  source : String
  statements : List Statement
  /-- The imported names. -/
  imports : OrderedMap String ImportBinding
  /-- The exported names, each with the position of the statement that declares it. -/
  exports : OrderedMap String Nat
  /-- The selection, once one has been recorded. -/
  selected : Option Selection

namespace ScriptModule

/-- A module without statements. -/
def empty (path : Path) (source : String) : ScriptModule where
  path := path
  source := source
  statements := []
  imports := .empty
  exports := .empty
  selected := none

/-- Appends a statement. -/
def pushStatement (m : ScriptModule) (s : Statement) : ScriptModule :=
  { m with statements := m.statements ++ [s] }

/-- Adds an imported name. -/
def addImport (m : ScriptModule) (localName : String) (b : ImportBinding) : ScriptModule :=
  { m with imports := m.imports.insert localName b }

/-- Adds an exported name. -/
def addExport (m : ScriptModule) (exported : String) (statement : Nat) : ScriptModule :=
  { m with exports := m.exports.insert exported statement }

/-- The text of a statement, unless its range cuts a character. -/
def text? (m : ScriptModule) (s : Statement) : Option String :=
  (Text.slice? m.source.toList s.span.start s.span.stop).map .ofList

/-- The name that holds the value of a default export without a name. It is derived from the path,
so modules in one bundle do not share it. -/
def defaultBinding (m : ScriptModule) : String :=
  "__default_" ++ contentIdentity (Path.projectKey ⟨""⟩ m.path)

/-- The module's name in messages. -/
def label (m : ScriptModule) : String :=
  m.path.text

/-- Records a selection, unless one has been recorded before. -/
def recordSelection (m : ScriptModule) (s : Selection) : ScriptModule :=
  { m with selected := some (m.selected.getD s) }

end ScriptModule

end AppletBundle.Script
