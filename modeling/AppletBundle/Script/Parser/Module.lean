import AppletBundle.Script.Parser.Statement

/-!
# Modules

The items of a module: imports, exports and statements. `parseScript` ties the grammar together. A
goal that is nested deeper than the source is long is never reached, since of a few goals in a row
at least one takes a token; so a bound on the depth that is a multiple of the length cuts nothing
off.
-/

namespace AppletBundle.Script.Parser

/-! ### Imports -/

/-- The name of a module, after `from`. -/
def moduleSource : Parser StringValue := do
  match ← token with
  | .string value _ =>
    advance
    return value
  | _ => fail "the name of a module"

/-- A name in an import or export clause. -/
def moduleName : Parser ModuleName := do
  match ← token with
  | .string value _ =>
    advance
    return ⟨value.toText, true⟩
  | _ => return ⟨← word, false⟩

/-- An attribute of an import. -/
def importAttribute : Parser ImportAttribute := do
  let key ← moduleName
  expect ":"
  return ⟨key, ← moduleSource⟩

/-- The attributes after the name of a module. -/
def importAttributes (g : Grammar) : Parser (Option ImportAttributes) := do
  let c ← get
  match c.token with
  | .name "with" false =>
    advance
    expect "\x7b"
    return some ⟨"with", ← commaList g.bound "\x7d" importAttribute⟩
  | .name "assert" false =>
    if c.newline then return none
    else
      advance
      expect "\x7b"
      return some ⟨"assert", ← commaList g.bound "\x7d" importAttribute⟩
  | _ => return none

/-- One name of an import list. -/
def importSpecifier (ctx : Context) : Parser ImportSpecifier := do
  let c ← get
  let imported ← moduleName
  if ← eatWord "as" then return .named imported (← identifier ctx)
  else if !imported.isString && isIdentifier ctx imported.text then
    return .named imported ⟨imported.text, c.start⟩
  else fail "as"

/-- A namespace or a list of names. -/
def importClause (g : Grammar) (ctx : Context) : Parser (List ImportSpecifier) := do
  if ← eat "*" then
    expectWord "as"
    return [.namespaceOf (← identifier ctx)]
  else
    expect "\x7b"
    commaList g.bound "\x7d" (importSpecifier ctx)

/-- An import declaration, after its keyword. -/
def importDeclaration (g : Grammar) (ctx : Context) : Parser Node := do
  let specifiers ← do
    match ← token with
    | .string .. => pure none
    | .name .. =>
      let b ← identifier ctx
      let more ← if ← eat "," then importClause g ctx else pure []
      expectWord "from"
      pure (some (.default b :: more))
    | _ =>
      let specifiers ← importClause g ctx
      expectWord "from"
      pure (some specifiers)
  let source ← moduleSource
  let attributes ← importAttributes g
  semicolon
  return .importFrom specifiers source attributes

/-! ### Exports -/

/-- One name of an export list. -/
def exportSpecifier : Parser ExportSpecifier := do
  let localName ← moduleName
  if ← eatWord "as" then return ⟨localName, ← moduleName⟩
  else return ⟨localName, localName⟩

/-- An item and the offset of what it exports. -/
structure ExportedNode where
  innerStart : Nat
  node : Node

/-- An export of everything, after its asterisk. -/
def exportAll (g : Grammar) : Parser Node := do
  let exported ← if ← eatWord "as" then some <$> moduleName else pure none
  expectWord "from"
  let source ← moduleSource
  let attributes ← importAttributes g
  semicolon
  return .exportAll exported source attributes

/-- An export list, after its opening brace. Without a source its names are those of the module. -/
def exportList (g : Grammar) (ctx : Context) : Parser Node := do
  let specifiers ← commaList g.bound "\x7d" exportSpecifier
  if ← eatWord "from" then
    let source ← moduleSource
    let attributes ← importAttributes g
    semicolon
    return .exportFrom specifiers source attributes
  else if specifiers.all fun s ↦ !s.localName.isString && isIdentifier ctx s.localName.text then
    semicolon
    return .exportList specifiers
  else fail "from"

/-- The value of a default export, after its keyword. -/
def exportDefault (g : Grammar) (ctx : Context) : Parser Node := do
  let c ← get
  match c.token with
  | .name "function" false => functionDefinition g ctx .declaration false false
  | .name "class" false => classDefinition g ctx .declaration false []
  | .punctuator "@" =>
    let ds ← decoratorList g ctx
    classDefinition g ctx .declaration false ds
  | .name "async" false =>
    if c.next.token = .name "function" false && !c.next.newline then
      advance
      functionDefinition g ctx .declaration false true
    else
      let value ← g.parse (.assignment ctx)
      semicolon
      return value
  | _ =>
    let value ← g.parse (.assignment ctx)
    semicolon
    return value

/-- An export declaration, after its keyword. -/
def exportDeclaration (g : Grammar) (ctx : Context) : Parser ExportedNode := do
  let c ← get
  if ← eat "*" then return ⟨c.start, ← exportAll g⟩
  else if ← eat "\x7b" then return ⟨c.start, ← exportList g ctx⟩
  else if ← eatWord "default" then
    let inner := (← get).start
    return ⟨inner, .exportDefault (← exportDefault g ctx)⟩
  else
    let declaration ← do
      match ← variableKind? (followsLet ctx .list) with
      | some (kind, count) =>
        if kind = .var || kind = .letKind || kind = .const then
          skipKeywords count
          variableStatement g ctx kind
        else fail "a declaration"
      | none =>
        match c.token with
        | .name "function" false => functionDeclaration g ctx .list false
        | .name "class" false => classDefinition g ctx .declaration true []
        | .punctuator "@" =>
          let ds ← decoratorList g ctx
          classDefinition g ctx .declaration true ds
        | .name "async" false =>
          if c.next.token = .name "function" false && !c.next.newline then
            advance
            functionDeclaration g ctx .list true
          else fail "a declaration"
        | _ => fail "a declaration"
    return ⟨c.start, .exportDeclaration declaration⟩

/-! ### Items -/

/-- An item of a module, without its span. -/
def moduleItem (g : Grammar) : Parser ExportedNode := do
  let ctx := Context.module
  let c ← get
  match c.token with
  | .name "import" false =>
    if c.next.token = .punctuator "(" || c.next.token = .punctuator "." then
      return ⟨c.start, ← g.parse (.statement ctx .list)⟩
    else
      advance
      return ⟨c.start, withComments c.comments (← importDeclaration g ctx)⟩
  | .name "export" false =>
    advance
    let e ← exportDeclaration g ctx
    return ⟨e.innerStart, withComments c.comments e.node⟩
  | _ => return ⟨c.start, ← g.parse (.statement ctx .list)⟩

/-- The items of a module up to the end of the source. -/
def moduleItems (g : Grammar) : Parser (List Item) :=
  collect g.bound do
    let c ← get
    if c.token = .eof then return none
    else
      let e ← moduleItem g
      return some ⟨c.start, (← get).before, e.innerStart, e.node⟩

/-- The item of a statement that was read while looking for directives. -/
def directiveItems (g : Grammar) : Nat → Parser (List String × List Item)
  | 0 => fail "an end"
  | n + 1 => do
    let c ← get
    match c.token with
    | .string _ raw =>
      let s ← g.parse (.statement Context.module .list)
      if isDirective s then
        let (directives, items) ← directiveItems g n
        return (raw :: directives, items)
      else return ([], [⟨c.start, (← get).before, c.start, s⟩])
    | _ => return ([], [])

/-! ### The grammar as a whole -/

/-- What to read for a goal, given the grammar for the goals inside it. -/
def production (g : Grammar) : Goal → Parser Node
  | .assignment ctx => assignment g ctx
  | .binary ctx level arrow => binary g ctx level arrow
  | .unary ctx arrow => unary g ctx arrow
  | .leftHandSide ctx calls => leftHandSide g ctx calls false
  | .bindingTarget ctx => bindingTarget g ctx
  | .statement ctx place => statement g ctx place
  | .element ctx => element g ctx

/-- The grammar up to a depth of nested goals. -/
def grammar : Nat → Grammar
  | 0 => ⟨0, fun _ ↦ fail "less depth"⟩
  | n + 1 => ⟨n + 1, fun goal c ↦ production (grammar n) goal c⟩

/-- The names under which an item exports. -/
def exportedNames : Node → List String
  | .commented _ n => exportedNames n
  | .exportDeclaration d => d.bindings.map Binding.name
  | .exportDefault _ => ["default"]
  | .exportList specifiers => specifiers.map fun s ↦ s.exported.text
  | .exportFrom specifiers _ _ => specifiers.map fun s ↦ s.exported.text
  | .exportAll (some exported) _ _ => [exported.text]
  | _ => []

/-- The first of a list of names that was there before. -/
def repeatedName? : List String → List String → Option String
  | _, [] => none
  | seen, name :: names =>
    if seen.contains name then some name else repeatedName? (name :: seen) names

/-- Reads the program from its first token on. -/
def program (g : Grammar) (hashbang : Option String) : Parser Program := do
  let (directives, first) ← directiveItems g g.bound
  let items ← moduleItems g
  let c ← get
  let items := first ++ items
  match c.defaults, repeatedName? [] (items.flatMap fun i ↦ exportedNames i.node) with
  | [], none => return ⟨hashbang, directives, items, c.comments⟩
  | d :: _, _ => throw ⟨d, ":"⟩
  | [], some _ => fail "another name"

/-- The first line of a source when it names an interpreter, and the rest with its offset. -/
def splitHashbang (s : List Char) : Option String × Nat × List Char :=
  match s with
  | '#' :: '!' :: rest =>
    let line := rest.takeWhile fun c ↦ !isLineTerminator c
    (some (.ofList line), Text.byteLength line + 2, rest.dropWhile fun c ↦ !isLineTerminator c)
  | _ => (none, 0, s)

end Parser

open AppletBundle.Script.Parser in
/-- Reads a source as a module. -/
def parseScript (source : String) : Except SyntaxError Program :=
  let s := source.toList
  let (hashbang, offset, rest) := splitHashbang s
  (program (grammar (8 * s.length + 64)) hashbang (Cursor.ofText offset rest)).map Prod.fst

end AppletBundle.Script
