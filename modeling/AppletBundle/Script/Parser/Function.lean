import AppletBundle.Script.Parser.Binding

/-!
# Functions, objects and classes

Everything that holds functions: function definitions, the properties of an object and the members
of a class. A word such as `get` or `async` in front of a name is a modifier only if the token after
it can start a name.
-/

namespace AppletBundle.Script.Parser

/-! ### Bodies -/

/-- A node with the comments in front of it. -/
def withComments (comments : List Comment) (n : Node) : Node :=
  if comments.isEmpty then n else .commented comments n

/-- A statement at the start of a body that is nothing but a string. -/
def isDirective : Node → Bool
  | .expression (.string _) => true
  | .commented _ statement => isDirective statement
  | _ => false

/-- The directives at the start of a body, and the first statement after them if one was read while
looking for a further directive. -/
def directivePrologue (g : Grammar) (ctx : Context) : Nat → Parser (List String × List Node)
  | 0 => fail "an end"
  | n + 1 => do
    match ← token with
    | .string _ raw =>
      let statement ← g.parse (.statement ctx .list)
      if isDirective statement then
        let (directives, statements) ← directivePrologue g ctx n
        return (raw :: directives, statements)
      else return ([], [statement])
    | _ => return ([], [])

/-- The statements up to a closing brace, which is read too. -/
def statementsToBrace (g : Grammar) (ctx : Context) : Parser (List Node) :=
  collect g.bound do
    if ← eat "\x7d" then return none
    else return some (← g.parse (.statement ctx .list))

/-- The directives and statements of a function in braces. -/
def functionBody (g : Grammar) (ctx : Context) : Parser (List String × List Node) := do
  expect "\x7b"
  let (directives, first) ← directivePrologue g ctx g.bound
  let body ← collect g.bound do
    let c ← get
    if c.token = .punctuator "\x7d" then
      if c.comments.isEmpty then return none
      else
        set { c with comments := [] }
        return some (.closingComments c.comments)
    else return some (← g.parse (.statement ctx .list))
  expect "\x7d"
  return (directives, first ++ body)

/-- Parameters and body of a function. -/
def functionRest (g : Grammar) (form : DefinitionForm) (name : Option Binding)
    (isAsync isGenerator : Bool) : Parser Node := do
  let ctx := Context.function isAsync isGenerator
  expect "("
  let params ← parameters g ctx
  let (directives, body) ← functionBody g ctx
  return .function form name isAsync isGenerator params directives body

/-- A function after its keyword. A declaration's name belongs to the context around it, a value's
name to the function. -/
def functionDefinition (g : Grammar) (ctx : Context) (form : DefinitionForm) (nameRequired : Bool)
    (isAsync : Bool) : Parser Node := do
  expectWord "function"
  let isGenerator ← eat "*"
  let nameCtx := match form with
    | .declaration => ctx
    | _ => Context.function isAsync isGenerator
  let name ←
    if nameRequired || isIdentifierToken nameCtx (← token) then
      some <$> identifier nameCtx
    else pure none
  functionRest g form name isAsync isGenerator

/-- Whether the body of an arrow function is a value, and what it is. -/
def arrowFunction (g : Grammar) (ctx : Context) (isAsync : Bool) (params : List Node) :
    Parser Node := do
  expect "=>"
  if ← atPunctuator "\x7b" then
    let (directives, body) ← functionBody g (.function isAsync false)
    return .arrow isAsync params directives body
  else
    let value ← g.parse (.assignment { Context.function isAsync false with allowIn := ctx.allowIn })
    return .arrowValue isAsync params value

/-! ### Members -/

/-- The words in front of a member's name. -/
structure Modifiers where
  kind : MethodKind
  isAsync : Bool
  isGenerator : Bool
  isAccessor : Bool

/-- Whether a token can follow a modifier, that is, start a name. -/
def startsName : Token → Bool
  | .name .. => true
  | .privateName _ => true
  | .string .. => true
  | .number _ => true
  | .bigint _ => true
  | .punctuator p => p == "["
  | _ => false

/-- Reads the modifiers in front of a member's name. -/
def modifiers (inClass : Bool) : Parser Modifiers := do
  let (after, newline) ← peek
  match ← token with
  | .name "get" false =>
    if startsName after then
      advance
      return ⟨.getter, false, false, false⟩
    else return ⟨.method, false, false, false⟩
  | .name "set" false =>
    if startsName after then
      advance
      return ⟨.setter, false, false, false⟩
    else return ⟨.method, false, false, false⟩
  | .name "async" false =>
    if !newline && (startsName after || after = .punctuator "*") then
      advance
      return ⟨.method, true, ← eat "*", false⟩
    else return ⟨.method, false, false, false⟩
  | .name "accessor" false =>
    if inClass && !newline && startsName after then
      advance
      return ⟨.method, false, false, true⟩
    else return ⟨.method, false, false, false⟩
  | .punctuator "*" =>
    advance
    return ⟨.method, false, true, false⟩
  | _ => return ⟨.method, false, false, false⟩

/-- Whether the parameters fit what a method defines. -/
def fitsKind (kind : MethodKind) (params : List Node) : Bool :=
  match kind, params with
  | .method, _ => true
  | .getter, [] => true
  | .setter, [.rest _] => false
  | .setter, [_] => true
  | _, _ => false

/-- The function of a method, from its parameters on. -/
def methodFunction (g : Grammar) (m : Modifiers) : Parser Node := do
  let c ← get
  let f ← functionRest g .method none m.isAsync m.isGenerator
  match f with
  | .function _ _ _ _ params _ _ =>
    if fitsKind m.kind params then return f
    else throw ⟨c.start, "other parameters"⟩
  | _ => return f

/-- A property of an object. -/
def objectProperty (g : Grammar) (ctx : Context) : Parser Node := do
  if ← eat "..." then return .spread (← g.parse (.assignment ctx.withIn))
  else
    let m ← modifiers false
    let c ← get
    let (key, computed) ← propertyKey g ctx
    if m.kind ≠ .method || m.isAsync || m.isGenerator || (← atPunctuator "(") then
      return .method m.kind [] false key computed (← methodFunction g m)
    else if ← eat ":" then
      return .property key computed (← g.parse (.assignment ctx.withIn))
    else match key with
      | .propertyName name =>
        if isIdentifier ctx name then
          if ← eat "=" then
            let value ← g.parse (.assignment ctx.withIn)
            modify fun c' ↦ { c' with defaults := c.start :: c'.defaults }
            return .shorthandDefault ⟨name, c.start⟩ value
          else return .shorthand ⟨name, c.start⟩
        else fail ":"
      | _ => fail ":"

/-- An object, after its opening brace. -/
def objectLiteral (g : Grammar) (ctx : Context) : Parser Node :=
  return .object (← commaList g.bound "\x7d" (objectProperty g ctx))

/-! ### Classes -/

/-- The decorators in front of a class or a member. -/
def decoratorList (g : Grammar) (ctx : Context) : Parser (List Node) :=
  collect g.bound do
    if ← eat "@" then return some (← g.parse (.leftHandSide ctx true))
    else return none

/-- The name of a member, which may be private. -/
def memberKey (g : Grammar) (ctx : Context) : Parser (Node × Bool) := do
  match ← token with
  | .privateName name =>
    if name = "constructor" then fail "another name"
    else
      advance
      return (.privateName name, false)
  | _ => propertyKey g ctx

/-- The name that a key spells, unless it is computed or private. -/
def spelledName (key : Node) (computed : Bool) : Option String :=
  if computed then none
  else match key with
    | .propertyName name => some name
    | .string value => some (StringValue.toText value)
    | _ => none

/-- The context of the value of a field. -/
def Context.field : Context where
  allowIn := true
  inYield := false
  inAwait := false
  inReturn := false

/-- A member of a class after its decorators and `static`. -/
def classMember (g : Grammar) (ctx : Context) (decorators : List Node) (isStatic : Bool) :
    Parser Node := do
  let m ← modifiers true
  let (key, computed) ← memberKey g ctx
  let name := spelledName key computed
  if isStatic && name = some "prototype" then fail "another name"
  else if m.kind ≠ .method || m.isAsync || m.isGenerator || (← atPunctuator "(") then
    if !isStatic && name = some "constructor" &&
        (m.kind ≠ .method || m.isAsync || m.isGenerator) then fail "another name"
    else return .method m.kind decorators isStatic key computed (← methodFunction g m)
  else if name = some "constructor" then fail "("
  else
    let value ←
      if ← eat "=" then some <$> g.parse (.assignment Context.field) else pure none
    semicolon
    return .field decorators isStatic m.isAccessor key computed value

/-- A member of a class, with what stands in front of it. -/
def classElement (g : Grammar) (ctx : Context) : Parser Node := do
  let ds ← decoratorList g ctx
  if ← atWord "static" then
    let (after, _) ← peek
    if after = .punctuator "\x7b" then
      advance
      advance
      return .staticBlock (← statementsToBrace g { Context.field with inAwait := true })
    else if startsName after || after = .punctuator "*" then
      advance
      classMember g ctx ds true
    else classMember g ctx ds false
  else classMember g ctx ds false

/-- The members of a class in braces. -/
def classBody (g : Grammar) (ctx : Context) : Parser (List Node) := do
  expect "\x7b"
  let members ← collect g.bound do
    if ← eat "\x7d" then return none
    else if ← eat ";" then return some none
    else
      let comments := (← get).comments
      return some (some (withComments comments (← classElement g ctx)))
  return members.filterMap id

/-- A class from its keyword on. -/
def classDefinition (g : Grammar) (ctx : Context) (form : DefinitionForm) (nameRequired : Bool)
    (decorators : List Node) : Parser Node := do
  expectWord "class"
  let named := isIdentifierToken ctx (← token)
  let name ← if nameRequired || named then some <$> identifier ctx else pure none
  let superclass ←
    if ← eatWord "extends" then some <$> g.parse (.leftHandSide ctx true) else pure none
  return .classNode form decorators name superclass (← classBody g ctx)

end AppletBundle.Script.Parser
