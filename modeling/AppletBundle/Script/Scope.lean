import AppletBundle.Script.Pattern

/-!
# Scopes of a script

Which names a statement declares for the whole module, and which of its references leave the
statement's own scopes, is found in two steps. `Node.events` lists what happens to names in the
order of the source: scopes open and close, names are declared and referred to. `Scoping.ofEvents`
runs through the list with a stack of open scopes.

A reference is settled when the scope that holds it closes, because a name may be declared after its
use; the references in the parameters of a function are settled before its body is looked at. A
`var` belongs to the function around it and clashes with a lexical declaration in any scope on the
way. Every name has one symbol in a scope, whose place is that of its first declaration.
-/

namespace AppletBundle.Script

/-! ### What happens to names -/

/-- The kinds of scopes. -/
inductive ScopeKind where
  | root
  | function
  | staticBlock
  | block
  deriving DecidableEq

/-- The scopes that hold the `var` declarations inside them. -/
def ScopeKind.holdsVars : ScopeKind → Bool
  | block => false
  | _ => true

/-- How a name is declared. -/
inductive DeclarationKind where
  | var
  | lexical
  | function
  | classKind
  | parameter
  /-- The name of a caught exception, which a `var` may repeat. -/
  | caught
  | imported
  /-- The name that a function or class expression knows itself by. -/
  | ownName
  deriving DecidableEq

/-- What happens to names at one place of a script. -/
inductive ScopeEvent where
  /-- The next item of the module starts. -/
  | item
  | enter (kind : ScopeKind)
  /-- A scope opens and takes over the names of the one around it. -/
  | adopt
  | leave
  /-- The references so far see only what is declared so far. -/
  | settle
  | declare (kind : DeclarationKind) (binding : Binding)
  | refer (name : String)

/-- Declares names in order. -/
def declareAll (kind : DeclarationKind) (bs : List Binding) : List ScopeEvent :=
  bs.map (.declare kind)

/-- How a variable declaration declares its names. -/
def VariableKind.declarationKind : VariableKind → DeclarationKind
  | .var => .var
  | _ => .lexical

/-- Declares the names of a handler's parameter. -/
def declareCaught : Option Node → List ScopeEvent
  | none => []
  | some (.binding b) => [.declare .caught b]
  | some n => declareAll .lexical n.bindings

/-- The name that an import brings in. -/
def ImportSpecifier.binding : ImportSpecifier → Binding
  | .default b => b
  | .namespaceOf b => b
  | .named _ b => b

namespace Node

/-- What happens to names in a part of the tree, in the order of the source. -/
def events : Node → List ScopeEvent
  | reference b => [.refer b.name]
  | template _ values => ofList values
  | taggedTemplate tag _ values => tag.events ++ ofList values
  | array elements => ofList elements
  | spread argument => argument.events
  | object properties => ofList properties
  | property key computed value => (if computed then key.events else []) ++ value.events
  | shorthand b => [.refer b.name]
  | shorthandDefault b value => .refer b.name :: value.events
  | function form name _ _ params _ body =>
    (if form = .declaration then declareAll .function name.toList else []) ++
      .enter .function ::
      (if form = .expression then declareAll .ownName name.toList else []) ++
      declareAll .parameter (bindings.ofList params) ++ ofList params ++
      .settle :: ofList body ++ [.leave]
  | arrow _ params _ body =>
    .enter .function :: declareAll .parameter (bindings.ofList params) ++ ofList params ++
      .settle :: ofList body ++ [.leave]
  | arrowValue _ params value =>
    .enter .function :: declareAll .parameter (bindings.ofList params) ++ ofList params ++
      .settle :: value.events ++ [.leave]
  | classNode form decorators name superclass members =>
    ofList decorators ++
      (if form = .declaration then declareAll .classKind name.toList else []) ++
      .enter .block ::
      (if form = .expression then declareAll .ownName name.toList else []) ++
      ofOption superclass ++ ofList members ++ [.leave]
  | method _ decorators _ key computed f => ofList decorators ++ (if computed then key.events else []) ++ f.events
  | field decorators _ _ key computed value =>
    ofList decorators ++ (if computed then key.events else []) ++ ofOption value
  | staticBlock body => .enter .staticBlock :: ofList body ++ [.leave]
  | unary _ argument => argument.events
  | update _ _ argument => argument.events
  | binary _ left right => left.events ++ right.events
  | privateIn _ right => right.events
  | assign _ target value => target.events ++ value.events
  | conditional test consequent alternate =>
    test.events ++ consequent.events ++ alternate.events
  | sequence items => ofList items
  | paren inner => inner.events
  | yield _ argument => ofOption argument
  | await argument => argument.events
  | member target _ _ => target.events
  | privateMember target _ _ => target.events
  | index target key _ => target.events ++ key.events
  | call callee arguments _ => callee.events ++ ofList arguments
  | new callee arguments => callee.events ++ ofList arguments
  | importCall arguments => ofList arguments
  | chain inner => inner.events
  | arrayPattern elements => ofList elements
  | objectPattern properties => ofList properties
  | patternProperty key computed value => (if computed then key.events else []) ++ value.events
  | patternShorthand target fallback => target.events ++ ofOption fallback
  | withDefault target value => target.events ++ value.events
  | rest target => target.events
  | element name attributes _ children => name.events ++ ofList attributes ++ ofList children
  | fragment children => ofList children
  | tagMember target _ => target.events
  | tagAttribute _ value => ofOption value
  | attributeSpread argument => argument.events
  | markupValue value => ofOption value
  | markupSpread argument => argument.events
  | commented _ statement => statement.events
  | variableList kind declarators =>
    declareAll kind.declarationKind (bindings.ofList declarators) ++ ofList declarators
  | declarator target value => target.events ++ ofOption value
  | expression value => value.events
  | block body => .enter .block :: ofList body ++ [.leave]
  | ifElse test consequent alternate => test.events ++ consequent.events ++ ofOption alternate
  | forLoop init test step body =>
    .enter .block :: ofOption init ++ ofOption test ++ ofOption step ++ body.events ++ [.leave]
  | forIn left right body => .enter .block :: left.events ++ right.events ++ body.events ++ [.leave]
  | forOf _ left right body =>
    .enter .block :: left.events ++ right.events ++ body.events ++ [.leave]
  | .while test body => test.events ++ body.events
  | doWhile body test => body.events ++ test.events
  | .return value => ofOption value
  | throw value => value.events
  | tryCatch body handler finalizer => body.events ++ ofOption handler ++ ofOption finalizer
  | catchClause param body =>
    .enter .block :: declareCaught param ++ ofOption param ++ .adopt :: ofList body ++ [.leave, .leave]
  | switch discriminant cases => discriminant.events ++ .enter .block :: ofList cases ++ [.leave]
  | switchCase test body => ofOption test ++ ofList body
  | labeled _ body => body.events
  | withScope target body => target.events ++ body.events
  | importFrom specifiers _ _ =>
    declareAll .imported ((specifiers.getD []).map ImportSpecifier.binding)
  | exportList specifiers => specifiers.map fun s ↦ .refer s.localName.text
  | exportDeclaration declaration => declaration.events
  | exportDefault value => value.events
  | _ => []
where
  /-- Parts one after the other. -/
  ofList : List Node → List ScopeEvent
    | [] => []
    | n :: ns => n.events ++ ofList ns
  /-- A part that may be missing. -/
  ofOption : Option Node → List ScopeEvent
    | none => []
    | some n => n.events

end Node

/-- What happens to names in a program, item by item. -/
def Program.events (p : Program) : List ScopeEvent :=
  p.items.flatMap fun i ↦ .item :: i.node.events

/-! ### Symbols and scopes -/

/-- The ways in which a symbol has been declared. -/
structure SymbolFlags where
  functionScoped : Bool
  blockScoped : Bool
  isFunction : Bool
  isClass : Bool
  isImport : Bool

/-- Joins the flags of two declarations of one symbol. -/
def SymbolFlags.union (a b : SymbolFlags) : SymbolFlags where
  functionScoped := a.functionScoped || b.functionScoped
  blockScoped := a.blockScoped || b.blockScoped
  isFunction := a.isFunction || b.isFunction
  isClass := a.isClass || b.isClass
  isImport := a.isImport || b.isImport

/-- The flags of a symbol that is declared once. -/
def DeclarationKind.flags : DeclarationKind → SymbolFlags
  | .var => ⟨true, false, false, false, false⟩
  | .lexical => ⟨false, true, false, false, false⟩
  | .function => ⟨false, false, true, false, false⟩
  | .classKind => ⟨false, false, false, true, false⟩
  | .parameter => ⟨true, false, false, false, false⟩
  | .caught => ⟨true, false, false, false, false⟩
  | .imported => ⟨false, false, false, false, true⟩
  | .ownName => ⟨false, false, false, false, false⟩

/-- Whether a declaration clashes with what is known of a symbol of the same name: a lexical one with
every other, a class with all but functions, a `var` or a function with those two, and an import
with imports. -/
def DeclarationKind.clashes (kind : DeclarationKind) (old : SymbolFlags) : Bool :=
  match kind with
  | .var => old.blockScoped || old.isClass
  | .function => old.blockScoped || old.isClass
  | .classKind => old.blockScoped || old.isClass || old.functionScoped
  | .lexical => old.blockScoped || old.isClass || old.functionScoped || old.isFunction
  | .parameter => old.blockScoped || old.isClass || old.functionScoped || old.isFunction
  | .imported => old.isImport
  | .caught => false
  | .ownName => false

/-- A symbol: a name, the place of its first declaration, how it has been declared, and whether it
belongs to the module as a whole. -/
structure Symbol where
  name : String
  offset : Nat
  flags : SymbolFlags
  atRoot : Bool

/-- A reference: the item of the module that holds it, its name, and the symbol it stands for once
that is known. -/
structure Reference where
  item : Nat
  name : String
  symbol : Option Nat

/-- An open scope. Names are looked up among its own and among those that a `var` inside it sends
through; `waiting` lists the references that are not settled, the newest first. -/
structure OpenScope where
  kind : ScopeKind
  names : List (String × Nat)
  passing : List (String × Nat)
  waiting : List Nat

/-- The symbol that a scope knows a name by. -/
def OpenScope.find? (s : OpenScope) (name : String) : Option Nat :=
  (s.names.lookup name).or (s.passing.lookup name)

/-- The state of the run through the events. -/
structure Scoping where
  scopes : List OpenScope
  symbols : Array Symbol
  references : Array Reference
  items : Nat
  /-- Whether a name has been declared twice where that is not allowed. -/
  clash : Bool

namespace Scoping

/-- Before the first event only the root is open. -/
def initial : Scoping where
  scopes := [⟨.root, [], [], []⟩]
  symbols := #[]
  references := #[]
  items := 0
  clash := false

/-- Notes whether declaring a name again is a clash. -/
def check (st : Scoping) (kind : DeclarationKind) (symbol : Nat) : Scoping :=
  { st with clash := st.clash || (st.symbols[symbol]?.any fun s ↦ kind.clashes s.flags) }

/-- Declares a name in a scope of the stack; the scope, changed, and the symbol. -/
def declareIn (st : Scoping) (s : OpenScope) (kind : DeclarationKind) (b : Binding) :
    Scoping × OpenScope × Nat :=
  match s.find? b.name with
  | some symbol =>
    let st := st.check kind symbol
    ({ st with symbols := st.symbols.modify symbol fun y ↦
        { y with flags := y.flags.union kind.flags } }, s, symbol)
  | none =>
    let symbol := st.symbols.size
    let y : Symbol := ⟨b.name, b.offset, kind.flags, s.kind = .root⟩
    ({ st with symbols := st.symbols.push y }, { s with names := (b.name, symbol) :: s.names },
      symbol)

/-- Moves the name of a caught exception, which a `var` inside its handler repeats, to the scope
that holds the `var`, unless that has the name already. -/
def hoistInto (st : Scoping) (holder : OpenScope) (name : String) (symbol : Nat) :
    Scoping × OpenScope :=
  if (holder.names.lookup name).isSome then (st, holder)
  else
    ({ st with symbols := st.symbols.modify symbol fun y ↦
        { y with atRoot := holder.kind = .root } },
      { holder with names := (name, symbol) :: holder.names })

/-- Declares a `var`, from the innermost scope outwards: the scopes that do not hold it are passed
through. `found` is the symbol that a scope inside knows the name by. The result holds the scopes
outside, changed, and the symbol. -/
def declareVar (b : Binding) (found : Option Nat) :
    Scoping → List OpenScope → Scoping × List OpenScope × Nat
  | st, [] => (st, [], 0)
  | st, s :: outer =>
    if s.kind.holdsVars then
      match found with
      | some symbol =>
        let (st, s) := st.hoistInto s b.name symbol
        (st, s :: outer, symbol)
      | none =>
        let (st, s, symbol) := st.declareIn s .var b
        (st, s :: outer, symbol)
    else
      let here := if found.isSome then none else s.find? b.name
      let st := match here with
        | some symbol => st.check .var symbol
        | none => st
      let (st, outer, symbol) := declareVar b (found.or here) st outer
      (st, { s with passing := (b.name, symbol) :: s.passing } :: outer, symbol)

/-- Declares a name where its kind says. -/
def declare (st : Scoping) (kind : DeclarationKind) (b : Binding) : Scoping :=
  if kind = .var then
    let (st', scopes, _) := declareVar b none st st.scopes
    { st' with scopes := scopes }
  else match st.scopes with
    | [] => st
    | s :: outer =>
      let (st', s, _) := st.declareIn s kind b
      { st' with scopes := s :: outer }

/-- Settles the references that wait in the innermost scope: one that the scope declares gets its
symbol, any other waits in the scope around it. -/
def settle (st : Scoping) : Scoping :=
  match st.scopes with
  | [] => st
  | s :: outer =>
    let settleOne := fun (acc : Array Reference × List Nat) (i : Nat) ↦
      match (acc.1[i]?).bind fun r ↦ s.names.lookup r.name with
      | some symbol => (acc.1.modify i fun r ↦ { r with symbol := some symbol }, acc.2)
      | none => (acc.1, i :: acc.2)
    let (references, left) := s.waiting.foldl settleOne (st.references, [])
    let outer := match outer with
      | [] => []
      | o :: more => { o with waiting := left ++ o.waiting } :: more
    { st with scopes := { s with waiting := [] } :: outer, references := references }

/-- One event. -/
def step (st : Scoping) : ScopeEvent → Scoping
  | .item => { st with items := st.items + 1 }
  | .enter kind => { st with scopes := ⟨kind, [], [], []⟩ :: st.scopes }
  | .adopt =>
    match st.scopes with
    | [] => st
    | s :: outer => { st with scopes := ⟨.block, s.names, [], []⟩ :: { s with names := [] } :: outer }
  | .leave =>
    let st := st.settle
    { st with scopes := st.scopes.drop 1 }
  | .settle => st.settle
  | .declare kind b => st.declare kind b
  | .refer name =>
    match st.scopes with
    | [] => st
    | s :: outer =>
      { st with
        references := st.references.push ⟨st.items - 1, name, none⟩
        scopes := { s with waiting := st.references.size :: s.waiting } :: outer }

/-- The scopes of a script, from what happens to its names. -/
def ofEvents (events : List ScopeEvent) : Scoping :=
  (events.foldl step initial).settle

/-- The symbols of the module as a whole, in the order of their first declarations. -/
def rootBindings (st : Scoping) : List Binding :=
  (st.symbols.toList.filter Symbol.atRoot).map fun s ↦ ⟨s.name, s.offset⟩

/-- Whether a reference stands for a symbol of the module or for nothing declared in it. -/
def isFree (st : Scoping) (r : Reference) : Bool :=
  match r.symbol with
  | none => true
  | some i => st.symbols[i]?.all Symbol.atRoot

/-- The free names of each item, in the order of the source. -/
def freeNames (st : Scoping) (item : Nat) : List String :=
  (st.references.toList.filter fun r ↦ r.item == item && st.isFree r).map Reference.name

end Scoping

end AppletBundle.Script
