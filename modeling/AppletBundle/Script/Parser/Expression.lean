import AppletBundle.Script.Parser.Function
import AppletBundle.Script.Parser.Markup
import AppletBundle.Script.Pattern

/-!
# Expressions

Parameters of an arrow function and targets of an assignment look like expressions until the token
after them is seen. They are read as expressions, which a later conversion turns into patterns. An
arrow function may stand only where a whole assignment expression may start, so the productions on
the way down pass on whether they stand there, and pass an arrow function up untouched.
-/

namespace AppletBundle.Script.Parser

open AppletBundle.Text

/-! ### Targets -/

/-- Turns an expression into the target of an assignment. -/
def target (n : Node) : Parser Node := do
  match n.toTarget with
  | none => fail "a target"
  | some (t, used) =>
    modify fun c ↦ { c with defaults := c.defaults.filter fun d ↦ !used.contains d }
    return t

/-- Turns the expressions between parentheses into the parameters of an arrow function. -/
def arrowParameters (items : List Node) : Parser (List Node) := do
  match Node.toTarget.ofElements items with
  | none => fail "parameters"
  | some (ts, used) =>
    modify fun c ↦ { c with defaults := c.defaults.filter fun d ↦ !used.contains d }
    match Node.toBinding.ofList ts with
    | none => fail "parameters"
    | some params => return params

/-- Whether an arrow stands on the line of the token before it. -/
def atArrow : Parser Bool := do
  let c ← get
  return c.token = .punctuator "=>" && !c.newline

/-- An arrow function that nothing encloses. -/
def isArrow : Node → Bool
  | .arrow .. => true
  | .arrowValue .. => true
  | _ => false

/-! ### Literals with values -/

/-- Reads the current token again as the rest of a template after a value. -/
def continueTemplate : Parser Unit := do
  let c ← get
  if c.token = .punctuator "\x7d" then
    match readTemplate false [] 1 (c.source.drop 1) with
    | none => fail "the end of the template"
    | some t =>
      set { c with stop := c.start + t.size, rest := t.rest, token := .template t.raw t.isTail }
  else fail "\x7d"

/-- The stretches of a template and the values between them. Escapes without a meaning are allowed
only after a tag. -/
def templateParts (g : Grammar) (ctx : Context) (tagged : Bool) :
    Nat → Parser (List String × List Node)
  | 0 => fail "an end"
  | n + 1 => do
    match ← token with
    | .template raw isTail =>
      if !tagged && !hasValidEscapes .text raw then fail "a valid escape"
      else
        advance
        if isTail then return ([templateRaw raw], [])
        else
          let value ← expression g ctx.withIn
          continueTemplate
          let (quasis, values) ← templateParts g ctx tagged n
          return (templateRaw raw :: quasis, value :: values)
    | _ => fail "a template"

/-- Reads the current token again as a regular expression. -/
def regex : Parser Node := do
  let c ← get
  match readRegex (c.source.drop 1) with
  | none => fail "a regular expression"
  | some (raw, rest) =>
    jump (byteLength raw) rest
    return .regex (.ofList raw)

/-- The elements of an array, after its opening bracket. -/
def arrayLiteral (g : Grammar) (ctx : Context) : Parser Node :=
  .array <$> collect g.bound do
    if ← eat "]" then return none
    else if ← eat "," then return some .hole
    else
      let element ←
        if ← eat "..." then Node.spread <$> g.parse (.assignment ctx.withIn)
        else g.parse (.assignment ctx.withIn)
      if ← atPunctuator "]" then return some element
      else
        expect ","
        return some element

/-- The arguments of a call, after the opening parenthesis. -/
def callArguments (g : Grammar) (ctx : Context) : Parser (List Node) :=
  commaList g.bound ")" do
    if ← eat "..." then Node.spread <$> g.parse (.assignment ctx.withIn)
    else g.parse (.assignment ctx.withIn)

/-! ### Parentheses and arrow functions -/

/-- What stands between parentheses, and whether only the parameters of a function may look so. -/
structure ParenItems where
  items : List Node
  onlyParameters : Bool

/-- The items between parentheses, after the opening one. -/
def parenItems (g : Grammar) (ctx : Context) : Nat → Parser ParenItems
  | 0 => fail "an end"
  | n + 1 => do
    if ← eat ")" then return ⟨[], true⟩
    else if ← eat "..." then
      let t ← g.parse (.bindingTarget ctx)
      expect ")"
      return ⟨[.rest t], true⟩
    else
      let item ← g.parse (.assignment ctx.withIn)
      if ← eat "," then
        let more ← parenItems g ctx n
        return ⟨item :: more.items, more.onlyParameters⟩
      else
        expect ")"
        return ⟨[item], false⟩

/-- Splits off what collects the rest of the parameters. -/
def splitRest : List Node → List Node × List Node
  | [] => ([], [])
  | [.rest t] => ([], [.rest t])
  | n :: ns => (n :: (splitRest ns).1, (splitRest ns).2)

/-- An expression in parentheses, or an arrow function that starts with them. -/
def parenthesized (g : Grammar) (ctx : Context) (arrow : Bool) : Parser Node := do
  let inside ← parenItems g ctx g.bound
  if arrow && (← atArrow) then
    let (items, rest) := splitRest inside.items
    let params ← arrowParameters items
    arrowFunction g ctx false (params ++ rest)
  else if inside.onlyParameters then fail "=>"
  else match inside.items with
    | [item] => return .paren item
    | items => return .paren (.sequence items)

/-- A name, or an arrow function with it as its only parameter. -/
def nameOrArrow (g : Grammar) (ctx : Context) (arrow : Bool) : Parser Node := do
  let b ← identifier ctx
  if arrow && (← atArrow) then arrowFunction g ctx false [.binding b]
  else return .reference b

/-- An expression that starts with the word `async`. -/
def asyncPrimary (g : Grammar) (ctx : Context) (arrow : Bool) : Parser Node := do
  let first := (← get).next
  let second := first.next
  if first.token = .name "function" false && !first.newline then
    advance
    functionDefinition g ctx .expression false true
  else if arrow && isIdentifierToken (.function true false) first.token && !first.newline &&
      second.token = .punctuator "=>" && !second.newline then
    advance
    let b ← identifier (.function true false)
    arrowFunction g ctx true [.binding b]
  else nameOrArrow g ctx arrow

/-! ### Values and their accesses -/

/-- An expression that starts with `new`. -/
def newExpression (g : Grammar) (ctx : Context) : Parser Node := do
  advance
  if ← eat "." then
    expectWord "target"
    return .metaProperty "new" "target"
  else
    let callee ← g.parse (.leftHandSide ctx false)
    if ← atPunctuator "?." then fail "("
    else if ← eat "(" then return .new callee (← callArguments g ctx)
    else return .new callee []

/-- An expression that starts with `import`. -/
def importExpression (g : Grammar) (ctx : Context) : Parser Node := do
  advance
  if ← eat "." then
    expectWord "meta"
    return .metaProperty "import" "meta"
  else
    expect "("
    let args ← callArguments g ctx
    match args with
    | [.spread _] => fail "a module"
    | [_] => return .importCall args
    | [_, _] => return .importCall args
    | _ => fail "a module"

/-- An expression that starts with `super`. -/
def superExpression : Parser Node := do
  advance
  match ← token with
  | .punctuator "(" => return .super
  | .punctuator "." => return .super
  | .punctuator "[" => return .super
  | _ => fail "an access"

/-- The expressions that a word other than a name opens. -/
def wordPrimary (g : Grammar) (ctx : Context) (arrow : Bool) (text : String) : Parser Node := do
  match text with
  | "this" =>
    advance
    return .this
  | "null" =>
    advance
    return .null
  | "true" =>
    advance
    return .bool true
  | "false" =>
    advance
    return .bool false
  | "function" => functionDefinition g ctx .expression false false
  | "class" => classDefinition g ctx .expression false []
  | "new" => newExpression g ctx
  | "import" => importExpression g ctx
  | "super" => superExpression
  | "async" => asyncPrimary g ctx arrow
  | _ => nameOrArrow g ctx arrow

/-- A value without accesses. -/
def primary (g : Grammar) (ctx : Context) (arrow : Bool) : Parser Node := do
  match ← token with
  | .name text escaped =>
    if escaped then nameOrArrow g ctx arrow else wordPrimary g ctx arrow text
  | .number raw =>
    advance
    return .number raw
  | .bigint raw =>
    advance
    return .bigint raw
  | .string value _ =>
    advance
    return .string value
  | .template .. =>
    let (quasis, values) ← templateParts g ctx false g.bound
    return .template quasis values
  | .punctuator p =>
    match p with
    | "(" =>
      advance
      parenthesized g ctx arrow
    | "[" =>
      advance
      arrayLiteral g ctx
    | "\x7b" =>
      advance
      objectLiteral g ctx
    | "/" => regex
    | "/=" => regex
    | "<" =>
      let n ← g.parse (.element ctx)
      jump 1 ((← get).source.drop 1)
      return n
    | "@" =>
      let ds ← decoratorList g ctx
      classDefinition g ctx .expression false ds
    | _ => fail "an expression"
  | _ => fail "an expression"

/-- The property after a point. -/
def propertyAccess (object : Node) (optional : Bool) : Parser Node := do
  match ← token with
  | .privateName name =>
    advance
    return .privateMember object name optional
  | _ => return .member object (← word) optional

/-- The accesses after a value. Once one of them may be skipped, the whole is a chain. -/
def accesses (g : Grammar) (ctx : Context) (calls : Bool) :
    Nat → Node → Bool → Parser Node
  | 0, _, _ => fail "an end"
  | n + 1, object, chained => do
    match ← token with
    | .punctuator "." =>
      advance
      accesses g ctx calls n (← propertyAccess object false) chained
    | .punctuator "[" =>
      advance
      let key ← expression g ctx.withIn
      expect "]"
      accesses g ctx calls n (.index object key false) chained
    | .punctuator "(" =>
      if calls then
        advance
        accesses g ctx calls n (.call object (← callArguments g ctx) false) chained
      else return if chained then .chain object else object
    | .punctuator "?." =>
      if calls then
        advance
        if ← eat "[" then
          let key ← expression g ctx.withIn
          expect "]"
          accesses g ctx calls n (.index object key true) true
        else if ← eat "(" then
          accesses g ctx calls n (.call object (← callArguments g ctx) true) true
        else accesses g ctx calls n (← propertyAccess object true) true
      else fail "("
    | .template .. =>
      if chained then fail "an access"
      else
        let (quasis, values) ← templateParts g ctx true g.bound
        accesses g ctx calls n (.taggedTemplate object quasis values) chained
    | _ => return if chained then .chain object else object

/-- A value with its accesses, or an arrow function. -/
def leftHandSide (g : Grammar) (ctx : Context) (calls arrow : Bool) : Parser Node := do
  let isAsync ← atWord "async"
  let object ← primary g ctx arrow
  if isArrow object then return object
  else match object with
    | .reference _ =>
      if isAsync && arrow && (← atPunctuator "(") && !(← get).newline then
        advance
        let args ← callArguments g ctx
        if ← atArrow then arrowFunction g ctx true (← arrowParameters args)
        else accesses g ctx calls g.bound (.call object args false) false
      else accesses g ctx calls g.bound object false
    | _ => accesses g ctx calls g.bound object false

/-! ### Operators -/

/-- The level of a binary operator; a higher one binds closer. -/
def binaryLevel (ctx : Context) : Token → Option (String × Nat)
  | .punctuator p =>
    match p with
    | "??" => some (p, 1)
    | "||" => some (p, 2)
    | "&&" => some (p, 3)
    | "|" => some (p, 4)
    | "^" => some (p, 5)
    | "&" => some (p, 6)
    | "==" => some (p, 7)
    | "!=" => some (p, 7)
    | "===" => some (p, 7)
    | "!==" => some (p, 7)
    | "<" => some (p, 8)
    | ">" => some (p, 8)
    | "<=" => some (p, 8)
    | ">=" => some (p, 8)
    | "<<" => some (p, 9)
    | ">>" => some (p, 9)
    | ">>>" => some (p, 9)
    | "+" => some (p, 10)
    | "-" => some (p, 10)
    | "*" => some (p, 11)
    | "/" => some (p, 11)
    | "%" => some (p, 11)
    | "**" => some (p, 12)
    | _ => none
  | .name "instanceof" false => some ("instanceof", 8)
  | .name "in" false => if ctx.allowIn then some ("in", 8) else none
  | _ => none

/-- The operators before their operand, other than increments. -/
def isUnaryOperator : Token → Option String
  | .punctuator p => if p ∈ ["+", "-", "~", "!"] then some p else none
  | .name w false => if w ∈ ["delete", "void", "typeof"] then some w else none
  | _ => none

/-- Refuses an operand that cannot be assigned. -/
def updateTarget (n : Node) : Parser Node := do
  if n.isSimpleTarget then return n else fail "a target"

/-- An operand with the operators before and after it. -/
def unary (g : Grammar) (ctx : Context) (arrow : Bool) : Parser Node := do
  let t ← token
  match isUnaryOperator t with
  | some op =>
    advance
    let argument ← g.parse (.unary ctx false)
    if ← atPunctuator "**" then fail "parentheses"
    else return .unary op argument
  | none =>
    if t = .punctuator "++" || t = .punctuator "--" then
      advance
      let argument ← updateTarget (← g.parse (.unary ctx false))
      return .update (if t = .punctuator "++" then "++" else "--") true argument
    else if ctx.inAwait && t = .name "await" false then
      advance
      return .await (← g.parse (.unary ctx false))
    else
      let value ← leftHandSide g ctx true arrow
      let c ← get
      if isArrow value || c.newline then return value
      else if c.token = .punctuator "++" then
        let argument ← updateTarget value
        advance
        return .update "++" false argument
      else if c.token = .punctuator "--" then
        let argument ← updateTarget value
        advance
        return .update "--" false argument
      else return value

/-- Whether an operand of `??` is one of the other logical operators without parentheses. -/
def isMixed : Node → Bool
  | .binary op _ _ => op == "&&" || op == "||"
  | _ => false

/-- The operators of at least a level after their first operand. -/
def binaryRest (g : Grammar) (ctx : Context) (level : Nat) : Nat → Node → Parser Node
  | 0, _ => fail "an end"
  | n + 1, left => do
    match binaryLevel ctx (← token) with
    | none => return left
    | some (op, l) =>
      if l < level then return left
      else
        advance
        let right ← g.parse (.binary ctx (if op = "**" then l else l + 1) false)
        if op = "??" && (isMixed left || isMixed right) then fail "parentheses"
        else binaryRest g ctx level n (.binary op left right)

/-- An expression of binary operators of at least a level. -/
def binary (g : Grammar) (ctx : Context) (level : Nat) (arrow : Bool) : Parser Node := do
  match ← token with
  | .privateName name =>
    advance
    if ctx.allowIn && level ≤ 8 then
      expectWord "in"
      let right ← g.parse (.binary ctx 9 false)
      binaryRest g ctx level g.bound (.privateIn name right)
    else fail "an expression"
  | _ =>
    let left ← g.parse (.unary ctx arrow)
    if isArrow left then return left
    else binaryRest g ctx level g.bound left

/-- The operators that assign. -/
def assignmentOperators : List String :=
  ["=", "+=", "-=", "*=", "/=", "%=", "**=", "<<=", ">>=", ">>>=", "&=", "|=", "^=", "&&=", "||=",
   "??="]

/-- A yield expression. -/
def yieldExpression (g : Grammar) (ctx : Context) : Parser Node := do
  advance
  let c ← get
  if c.newline then return .yield false none
  else match c.token with
    | .punctuator p =>
      if p = "*" then
        advance
        return .yield true (some (← g.parse (.assignment ctx)))
      else if p ∈ [")", "]", "\x7d", ",", ";", ":"] then return .yield false none
      else return .yield false (some (← g.parse (.assignment ctx)))
    | .eof => return .yield false none
    | .name "in" false => return .yield false none
    | .name "of" false => return .yield false none
    | _ => return .yield false (some (← g.parse (.assignment ctx)))

/-- An assignment expression, the parts of which a comma separates. -/
def assignment (g : Grammar) (ctx : Context) : Parser Node := do
  if ctx.inYield && (← atWord "yield") then yieldExpression g ctx
  else
    let left ← binary g ctx 0 true
    if isArrow left then return left
    else if ← eat "?" then
      let consequent ← g.parse (.assignment ctx.withIn)
      expect ":"
      let alternate ← g.parse (.assignment ctx)
      return .conditional left consequent alternate
    else match ← token with
      | .punctuator op =>
        if op = "=" then
          let t ← target left
          advance
          return .assign op t (← g.parse (.assignment ctx))
        else if assignmentOperators.contains op then
          let t ← updateTarget left
          advance
          return .assign op t (← g.parse (.assignment ctx))
        else return left
      | _ => return left

end AppletBundle.Script.Parser
