import AppletBundle.Script.Parser.Expression

/-!
# Statements

One production for each statement. The comments in front of a statement are kept with it. Whether a
semicolon may be left out is decided where a statement ends.
-/

namespace AppletBundle.Script.Parser

/-! ### Declarations -/

/-- The declarators of a variable declaration. -/
def declarators (g : Grammar) (ctx : Context) : Parser (List Node) := do
  let one : Parser Node := do
    let t ← g.parse (.bindingTarget ctx)
    if ← eat "=" then return .declarator t (some (← g.parse (.assignment ctx)))
    else return .declarator t none
  let first ← one
  let others ← collect g.bound do
    if ← eat "," then return some (← one) else return none
  return first :: others

/-- Whether a declarator has the value that its kind and its target ask for. -/
def isInitialized (kind : VariableKind) : Node → Bool
  | .declarator _ (some _) => true
  | .declarator (.binding _) none => kind == .var || kind == .letKind
  | _ => false

/-- A variable declaration after its keyword. -/
def variableStatement (g : Grammar) (ctx : Context) (kind : VariableKind) : Parser Node := do
  let ds ← declarators g ctx
  if ds.all (isInitialized kind) then
    semicolon
    return .variableList kind ds
  else fail "="

/-- Whether `let` opens a declaration in the head of a loop when this token follows it. -/
def followsLetInHead : Token → Bool
  | .name text _ => text != "in"
  | .punctuator p => p == "[" || p == "\x7b"
  | _ => false

/-- Whether `let` opens a declaration in front of this token: it does unless the token continues an
expression, or it is the only statement of a branch or a loop and no bracket follows. -/
def followsLet (ctx : Context) (place : StatementPlace) (t : Token) : Bool :=
  let continues := match t with
    | .punctuator p => p ∈ [".", "(", ";"] || assignmentOperators.contains p
    | _ => false
  !continues && (binaryLevel ctx t).isNone && (place = .list || t = .punctuator "[")

/-- Whether `using` opens a declaration when this token follows it. -/
def followsUsing : Token × Bool → Bool
  | (.name text _, newline) => !newline && !reservedWords.contains text && text != "of"
  | _ => false

/-- The kind of the variable declaration that starts here, and the number of its keywords. The test
tells which tokens may follow `let`. -/
def variableKind? (afterLet : Token → Bool) : Parser (Option (VariableKind × Nat)) := do
  let c ← get
  match c.token with
  | .name "var" false => return some (.var, 1)
  | .name "const" false => return some (.const, 1)
  | .name "let" false => return if afterLet c.next.token then some (.letKind, 1) else none
  | .name "using" false =>
    return if followsUsing (c.next.token, c.next.newline) then some (.usingKind, 1) else none
  | .name "await" false =>
    return if c.next.token = .name "using" false && !c.next.newline &&
        followsUsing (c.next.next.token, c.next.next.newline) then some (.awaitUsing, 2) else none
  | _ => return none

/-- Moves behind the keywords of a variable declaration. -/
def skipKeywords (count : Nat) : Parser Unit := do
  advance
  if count = 2 then advance

/-! ### Loops -/

/-- The head of a loop over values, after the target of the values. -/
def loopOver (g : Grammar) (ctx : Context) (isAwait : Bool) (left : Node) :
    Parser (Node → Node) := do
  if ← eatWord "of" then
    let right ← g.parse (.assignment ctx.withIn)
    expect ")"
    return .forOf isAwait left right
  else if isAwait then fail "of"
  else
    expectWord "in"
    let right ← expression g ctx.withIn
    expect ")"
    return .forIn left right

/-- The head of a counting loop, after its first part. -/
def loopWhile (g : Grammar) (ctx : Context) (init : Option Node) : Parser (Node → Node) := do
  expect ";"
  let test ← if ← atPunctuator ";" then pure none else some <$> expression g ctx.withIn
  expect ";"
  let step ← if ← atPunctuator ")" then pure none else some <$> expression g ctx.withIn
  expect ")"
  return .forLoop init test step

/-- Whether a word that leads the values of a loop stands here. -/
def atLoopWord : Parser Bool := do
  return (← atWord "of") || (← atWord "in")

/-- The head of a loop with `for`. -/
def forHead (g : Grammar) (ctx : Context) (isAwait : Bool) : Parser (Node → Node) := do
  let noIn := { ctx with allowIn := false }
  match ← variableKind? followsLetInHead with
  | some (kind, count) =>
    skipKeywords count
    let ds ← declarators g noIn
    match ds with
    | [.declarator t none] =>
      if ← atLoopWord then loopOver g ctx isAwait (.variableList kind [.declarator t none])
      else if isAwait || !isInitialized kind (.declarator t none) then fail "="
      else loopWhile g ctx (some (.variableList kind ds))
    | _ =>
      if isAwait || !ds.all (isInitialized kind) then fail "="
      else loopWhile g ctx (some (.variableList kind ds))
  | none =>
    if ← atPunctuator ";" then
      if isAwait then fail "of" else loopWhile g ctx none
    else
      let plainAsync ← atWord "async"
      let left ← expression g noIn
      if ← atLoopWord then
        match left with
        | .reference _ =>
          if plainAsync && !isAwait && (← atWord "of") then fail "another name"
          else loopOver g ctx isAwait (← target left)
        | _ => loopOver g ctx isAwait (← target left)
      else if isAwait then fail "of"
      else loopWhile g ctx (some left)

/-- A loop with `for`. -/
def forStatement (g : Grammar) (ctx : Context) : Parser Node := do
  advance
  let isAwait ← if ctx.inAwait then eatWord "await" else pure false
  expect "("
  let head ← forHead g ctx isAwait
  return head (← g.parse (.statement ctx .single))

/-! ### Branches -/

/-- An expression in parentheses that a keyword asks for. -/
def condition (g : Grammar) (ctx : Context) : Parser Node := do
  expect "("
  let value ← expression g ctx.withIn
  expect ")"
  return value

/-- A branch with `if`. -/
def ifStatement (g : Grammar) (ctx : Context) : Parser Node := do
  advance
  let test ← condition g ctx
  let consequent ← g.parse (.statement ctx .single)
  let alternate ←
    if ← eatWord "else" then some <$> g.parse (.statement ctx .single) else pure none
  return .ifElse test consequent alternate

/-- The statements of a case, up to the next one. -/
def caseBody (g : Grammar) (ctx : Context) : Parser (List Node) :=
  collect g.bound do
    if (← atPunctuator "\x7d") || (← atWord "case") || (← atWord "default") then return none
    else return some (← g.parse (.statement ctx .list))

/-- Whether a case is the one for all other values. -/
def isDefaultCase : Node → Bool
  | .switchCase none _ => true
  | _ => false

/-- A branch with `switch`. -/
def switchStatement (g : Grammar) (ctx : Context) : Parser Node := do
  advance
  let discriminant ← condition g ctx
  expect "\x7b"
  let cases ← collect g.bound do
    if ← eat "\x7d" then return none
    else if ← eatWord "default" then
      expect ":"
      return some (.switchCase none (← caseBody g ctx))
    else
      expectWord "case"
      let test ← expression g ctx.withIn
      expect ":"
      return some (.switchCase (some test) (← caseBody g ctx))
  if (cases.filter isDefaultCase).length ≤ 1 then return .switch discriminant cases
  else fail "one default"

/-- A block. -/
def block (g : Grammar) (ctx : Context) : Parser Node := do
  expect "\x7b"
  return .block (← statementsToBrace g ctx)

/-- A handler of exceptions, after its keyword. -/
def catchClause (g : Grammar) (ctx : Context) : Parser Node := do
  let param ←
    if ← eat "(" then
      let t ← g.parse (.bindingTarget ctx)
      expect ")"
      pure (some t)
    else pure none
  expect "\x7b"
  return .catchClause param (← statementsToBrace g ctx)

/-- A statement that handles exceptions. -/
def tryStatement (g : Grammar) (ctx : Context) : Parser Node := do
  advance
  let body ← block g ctx
  let handler ← if ← eatWord "catch" then some <$> catchClause g ctx else pure none
  let finalizer ← if ← eatWord "finally" then some <$> block g ctx else pure none
  if handler.isNone && finalizer.isNone then fail "catch"
  else return .tryCatch body handler finalizer

/-! ### Jumps -/

/-- The label of a jump, which stands on the line of its keyword. -/
def jumpLabel (ctx : Context) : Parser (Option String) := do
  advance
  let c ← get
  let label ←
    if !c.newline && isIdentifierToken ctx c.token then
      (fun b ↦ some b.name) <$> identifier ctx
    else pure none
  semicolon
  return label

/-- Whether a statement could end here without a semicolon. -/
def atEnd : Parser Bool := do
  let c ← get
  return c.newline || c.token = .punctuator ";" || c.token = .punctuator "\x7d" || c.token = .eof

/-- A return statement. -/
def returnStatement (g : Grammar) (ctx : Context) : Parser Node := do
  if ctx.inReturn then
    advance
    let value ← if ← atEnd then pure none else some <$> expression g ctx.withIn
    semicolon
    return .return value
  else fail "a statement"

/-- A throw statement. -/
def throwStatement (g : Grammar) (ctx : Context) : Parser Node := do
  advance
  if (← get).newline then fail "a value"
  else
    let value ← expression g ctx.withIn
    semicolon
    return .throw value

/-! ### All statements -/

/-- An expression as a statement, or a labelled statement. -/
def expressionStatement (g : Grammar) (ctx : Context) : Parser Node := do
  let c ← get
  if isIdentifierToken ctx c.token && c.next.token = .punctuator ":" then
    let b ← identifier ctx
    advance
    return .labeled b.name (← g.parse (.statement ctx .single))
  else
    let value ← expression g ctx.withIn
    semicolon
    return .expression value

/-- A declaration, which may not be the only statement of a branch or a loop. -/
def onlyInLists (place : StatementPlace) (p : Parser Node) : Parser Node :=
  if place = .list then p else fail "a statement"

/-- A function declaration. -/
def functionDeclaration (g : Grammar) (ctx : Context) (place : StatementPlace) (isAsync : Bool) :
    Parser Node := do
  let f ← functionDefinition g ctx .declaration true isAsync
  match f with
  | .function _ _ isAsync isGenerator _ _ _ =>
    if place = .single && (isAsync || isGenerator) then fail "a statement" else return f
  | _ => return f

/-- The statements that a word other than a name opens. -/
def wordStatement (g : Grammar) (ctx : Context) (place : StatementPlace) (text : String) :
    Parser Node := do
  match text with
  | "if" => ifStatement g ctx
  | "for" => forStatement g ctx
  | "while" =>
    advance
    let test ← condition g ctx
    return .while test (← g.parse (.statement ctx .single))
  | "do" =>
    advance
    let body ← g.parse (.statement ctx .single)
    expectWord "while"
    let test ← condition g ctx
    let _ ← eat ";"
    return .doWhile body test
  | "switch" => switchStatement g ctx
  | "try" => tryStatement g ctx
  | "throw" => throwStatement g ctx
  | "return" => returnStatement g ctx
  | "break" => .break <$> jumpLabel ctx
  | "continue" => .continue <$> jumpLabel ctx
  | "debugger" =>
    advance
    semicolon
    return .debugger
  | "with" =>
    advance
    let object ← condition g ctx
    return .withScope object (← g.parse (.statement ctx .single))
  | "function" => functionDeclaration g ctx place false
  | "class" => onlyInLists place (classDefinition g ctx .declaration true [])
  | "async" =>
    let (after, newline) ← peek
    if after = .name "function" false && !newline then
      advance
      functionDeclaration g ctx place true
    else expressionStatement g ctx
  | _ => expressionStatement g ctx

/-- A statement without the comments in front of it. -/
def bareStatement (g : Grammar) (ctx : Context) (place : StatementPlace) : Parser Node := do
  match ← token with
  | .punctuator "\x7b" => block g ctx
  | .punctuator ";" =>
    advance
    return .empty
  | .punctuator "@" =>
    let ds ← decoratorList g ctx
    onlyInLists place (classDefinition g ctx .declaration true ds)
  | .name text false =>
    match ← variableKind? (followsLet ctx.withIn place) with
    | some (kind, count) =>
      if kind = .var then
        skipKeywords count
        variableStatement g ctx.withIn kind
      else onlyInLists place do
        skipKeywords count
        variableStatement g ctx.withIn kind
    | none => wordStatement g ctx place text
  | _ => expressionStatement g ctx

/-- A statement with the comments in front of it. -/
def statement (g : Grammar) (ctx : Context) (place : StatementPlace) : Parser Node := do
  let comments := (← get).comments
  return withComments comments (← bareStatement g ctx place)

end AppletBundle.Script.Parser
