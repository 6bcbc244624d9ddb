import AppletBundle.Failure
import AppletBundle.Script.Module
import AppletBundle.Script.Parser.Module
import AppletBundle.Script.Scope

/-!
# Annotation of scripts

A source becomes a script module: it is parsed, its scopes are analysed, and every top-level
statement gets the names it declares for the module and the names it uses freely.

A name of the module belongs to the statement in which its first declaration stands. The statement
that exports a name is the one that declares it; a name that no statement declares is not exported.
-/

namespace AppletBundle.Script

/-- How a statement exports. -/
inductive ExportShape where
  | none
  /-- All names that the statement declares. -/
  | named
  /-- The default export. -/
  | default
  /-- Names of the module, each with the name it is exported under. -/
  | list (pairs : List (String × String))

/-- The position of the statement whose range holds an offset, for ranges in source order: the only
candidate is the last one that does not start after the offset. -/
def containingStatement? (spans : List Span) (offset : Nat) : Option Nat :=
  let count := (spans.takeWhile fun s ↦ s.start ≤ offset).length
  match count with
  | 0 => none
  | i + 1 => if spans[i]?.any (·.contains offset) then some i else none

namespace Node

/-- Whether a default export is a function or class with a name. -/
def isNamedDefinition : Node → Bool
  | function .declaration name .. => name.isSome
  | classNode .declaration _ name .. => name.isSome
  | _ => false

/-- The kind of an item and how it exports, given where what it exports begins. -/
def classify (innerStart : Nat) : Node → StatementKind × ExportShape
  | commented _ statement => statement.classify innerStart
  | importFrom .. => (.importLink, .none)
  | exportAll .. => (.importLink, .none)
  | exportFrom .. => (.importLink, .none)
  | exportDeclaration _ => (.exportWrapper innerStart, .named)
  | exportList specifiers =>
    (.exportList, .list (specifiers.map fun s ↦ (s.localName.text, s.exported.text)))
  | exportDefault value =>
    if value.isNamedDefinition then (.exportWrapper innerStart, .default)
    else (.defaultExpression innerStart, .default)
  | _ => (.plain, .none)

/-- The names that an item imports. -/
def importBindings : Node → List (String × ImportBinding)
  | commented _ statement => statement.importBindings
  | importFrom (some specifiers) source _ =>
    specifiers.map fun s ↦
      let imported := match s with
        | .default _ => "default"
        | .namespaceOf _ => "*"
        | .named imported _ => imported.text
      (s.binding.name, ⟨imported, StringValue.toText source⟩)
  | _ => []

end Node

namespace ScriptModule

/-- Adds an item as a statement that declares nothing yet, with the names it imports. -/
def addItem (m : ScriptModule) (item : Item) (freeNames : List String) : ScriptModule :=
  let m := item.node.importBindings.foldl (fun m b ↦ m.addImport b.1 b.2) m
  m.pushStatement ⟨(item.node.classify item.innerStart).1, ⟨item.start, item.stop⟩, .empty,
    .ofList freeNames⟩

/-- Lets the statement at a position declare a name, unless it is an import. -/
def define (m : ScriptModule) (i : Nat) (name : String) : ScriptModule :=
  { m with statements := m.statements.modify i fun s ↦
      if s.kind = .importLink then s else { s with defines := s.defines.insert name } }

/-- Gives a name of the module to the statement in which it is declared. -/
def assignBinding (m : ScriptModule) (b : Binding) : ScriptModule :=
  match containingStatement? (m.statements.map Statement.span) b.offset with
  | some i => m.define i b.name
  | none => m

/-- The first statement that declares a name. -/
def definer? (m : ScriptModule) (name : String) : Option Nat :=
  m.statements.findIdx? fun s ↦ s.defines.contains name

/-- Exports a name of the module under another. -/
def exportLocal (m : ScriptModule) (pair : String × String) : ScriptModule :=
  match m.definer? pair.1 with
  | some i => m.addExport pair.2 i
  | none => m

/-- Records what the statement at a position exports. -/
def recordExport (m : ScriptModule) (i : Nat) : ExportShape → ScriptModule
  | .none => m
  | .named =>
    match m.statements[i]? with
    | some s => s.defines.toList.foldl (fun m name ↦ m.addExport name i) m
    | none => m
  | .default =>
    match m.statements[i]?.map Statement.kind with
    | some (.defaultExpression _) => (m.define i m.defaultBinding).addExport "default" i
    | _ => m.addExport "default" i
  | .list pairs => pairs.foldl exportLocal m

/-- The module of a program whose scopes are known. -/
def ofProgram (path : Path) (source : String) (p : Program) (scoping : Scoping) : ScriptModule :=
  let m := p.items.zipIdx.foldl (fun m (item, i) ↦ m.addItem item (scoping.freeNames i))
    (empty path source)
  let m := scoping.rootBindings.foldl assignBinding m
  let shapes := p.items.map fun item ↦ (item.node.classify item.innerStart).2
  shapes.zipIdx.foldl (fun m (shape, i) ↦ m.recordExport i shape) m

/-- Reads a source as an annotated module. -/
def annotate (path : Path) (source : String) : Outcome ScriptModule :=
  match parseScript source with
  | .error e =>
    .error (.ofCause (.tool .syntaxParser .script path.text ("expected " ++ e.expected)))
  | .ok p =>
    let scoping := Scoping.ofEvents p.events
    if scoping.clash then
      .error (.ofCause (.tool .scopeAnalysis .script path.text "a name is declared twice"))
    else .ok (ofProgram path source p scoping)

end ScriptModule

end AppletBundle.Script
