import AppletBundle.Script.Printer.Layout

/-!
# The pieces of scripts

`Node.pieces` gives the pieces of a syntax tree. What they are depends on where a part of the tree
stands: an operator gets parentheses when the operator around it binds closer, a function or an object
when it would be taken for a statement. Parentheses of the source are kept only around functions.
-/

namespace AppletBundle.Script

/-! ### Levels -/

namespace Level

/-- A whole expression. -/
def lowest : Nat := 0
/-- An item between commas. -/
def comma : Nat := 1
/-- An operand of `yield`, and what a condition chooses from. -/
def yield : Nat := 3
def assign : Nat := 4
def conditional : Nat := 5
def coalesce : Nat := 6
def compare : Nat := 13
def multiply : Nat := 16
def exponent : Nat := 17
/-- An operand of an operator before it. -/
def unaryBefore : Nat := 18
/-- An operand of an operator after it, or what a property is read from. -/
def unaryAfter : Nat := 19
/-- What is constructed. -/
def new : Nat := 20
def call : Nat := 21

/-- The level of a binary operator. -/
def ofBinary (op : String) : Nat :=
  match op with
  | "??" => 6
  | "||" => 7
  | "&&" => 8
  | "|" => 9
  | "^" => 10
  | "&" => 11
  | "==" => 12
  | "!=" => 12
  | "===" => 12
  | "!==" => 12
  | "<" => 13
  | ">" => 13
  | "<=" => 13
  | ">=" => 13
  | "in" => 13
  | "instanceof" => 13
  | "<<" => 14
  | ">>" => 14
  | ">>>" => 14
  | "+" => 15
  | "-" => 15
  | "**" => 17
  | _ => 16

end Level

/-! ### Places -/

/-- What a part of a tree is at the very start of. -/
inductive Opening where
  | nothing
  | statement
  | defaultExport
  | arrowBody
  deriving DecidableEq

/-- The line that a part of a tree stands on. -/
inductive LineRole where
  /-- Somewhere in a line. -/
  | inline
  /-- A statement or member on a line of its own. -/
  | statement
  /-- The statement that another one governs; the flag tells whether a word stands before it. -/
  | body (afterWord : Bool)
  /-- The name of a property. -/
  | key
  deriving DecidableEq

/-- Where a part of a tree stands. -/
structure Place where
  /-- The level of the operator around it. -/
  level : Nat
  /-- Whether the operator `in` would be misread. -/
  forbidsIn : Bool
  /-- Whether a call would be misread. -/
  forbidsCall : Bool
  opening : Opening
  /-- Whether the source has parentheses around it. -/
  inParens : Bool
  /-- Whether it is the target of an assignment. -/
  assigned : Bool
  role : LineRole

namespace Place

/-- A place of a level. -/
def at_ (level : Nat) : Place :=
  ⟨level, false, false, .nothing, false, false, .inline⟩

/-- A statement on a line of its own. -/
def statement : Place :=
  { at_ Level.lowest with role := .statement }

/-- The statement that another one governs. -/
def body (afterWord : Bool) : Place :=
  { at_ Level.lowest with role := .body afterWord }

/-- A place of a level where `in` is forbidden if it is forbidden here. -/
def inner (p : Place) (level : Nat) : Place :=
  { at_ level with forbidsIn := p.forbidsIn }

/-- The first part of what stands here, which has parentheses or not. -/
def first (p : Place) (wrapped : Bool) (level : Nat) : Place :=
  { at_ level with
    forbidsIn := p.forbidsIn && !wrapped
    opening := if wrapped then .nothing else p.opening }

/-- Whether a function or class here would be taken for a declaration. -/
def looksDeclared (p : Place) : Bool :=
  p.opening = .statement || p.opening = .defaultExport

/-- Whether an object here would be taken for a block. -/
def looksBlock (p : Place) : Bool :=
  p.opening = .statement || p.opening = .arrowBody

end Place

/-! ### Small lists of pieces -/

namespace Pieces

/-- A text that needs nothing around it. -/
def text (s : String) : List Piece :=
  [.text s.toList]

/-- A name or keyword. -/
def word (s : String) : List Piece :=
  [.word s.toList]

/-- Pieces in parentheses if need be. -/
def wrap (wrapped : Bool) (ps : List Piece) : List Piece :=
  if wrapped then text "(" ++ ps ++ text ")" else ps

/-- Statements or members in braces, each on its line. -/
def braces (closed : Bool) (inside : List Piece) : List Piece :=
  if closed then text "\x7b" ++ inside ++ text "\x7d"
  else text "\x7b" ++ [.softLine, .indent] ++ inside ++ [.dedent, .margin] ++ text "\x7d"

/-- The start of a statement. -/
def openStatement (spacing : Spacing) : LineRole → List Piece
  | .statement => [.margin]
  | .body afterWord =>
    (if afterWord && spacing = .compact then [.space] else []) ++ [.sameLine, .margin]
  | _ => []

/-- The start of a block. -/
def openBlock : LineRole → List Piece
  | .statement => [.margin]
  | .body _ => [.softSpace]
  | _ => []

/-- The end of a statement that ends in a block. -/
def closeBlock : LineRole → List Piece
  | .statement => [.softLine]
  | .body _ => [.softLine]
  | _ => []

/-- An equals sign between a target and a value. -/
def equals (value : List Piece) : List Piece :=
  .softSpace :: text "=" ++ .softSpace :: value

/-- A directive on its line, with the text between its quotes as it was written. -/
def directive (raw : String) : List Piece :=
  let quote := (directiveQuote false raw.toList).char
  .margin :: .text (quote :: raw.toList ++ [quote]) :: text ";" ++ [.softLine]

/-- Pieces between commas. -/
def commaSeparated : List (List Piece) → List Piece
  | [] => []
  | [p] => p
  | p :: q :: rest => p ++ text "," ++ .softSpace :: commaSeparated (q :: rest)

/-- A module's name, never in backticks. -/
def source (value : StringValue) : List Piece :=
  [.string value false]

/-- A name in a list of names of modules. -/
def moduleName (n : ModuleName) : List Piece :=
  if n.isString then source (n.text.toList.map Char.toNat) else word n.text

/-- A name and the one it gets, unless they are the same. -/
def renamed (old new : ModuleName) : List Piece :=
  if old.text = new.text then moduleName old else moduleName old ++ text " as " ++ moduleName new

/-- The attributes of an import. -/
def attributes : Option ImportAttributes → List Piece
  | none => []
  | some a =>
    let entries := a.entries.map fun e ↦
      moduleName e.key ++ text ":" ++ .softSpace :: source e.value
    .softSpace :: word a.keyword ++ .softSpace :: text "\x7b" ++
      (if entries.isEmpty then [] else .softSpace :: commaSeparated entries ++ [.softSpace]) ++
      text "\x7d"

/-- Names in braces. -/
def nameList (names : List (List Piece)) : List Piece :=
  if names.isEmpty then text "\x7b\x7d"
  else text "\x7b" ++ .softSpace :: commaSeparated names ++ .softSpace :: text "\x7d"

/-- What an import brings in; `open_` tells whether a list of names has begun. -/
def specifiers (isFirst open_ : Bool) : List ImportSpecifier → List Piece
  | [] => if open_ then .softSpace :: text "\x7d" ++ [.softSpace] else []
  | .default b :: rest =>
    .space :: word b.name ++ (if rest.isEmpty then [.space] else []) ++ specifiers false false rest
  | .namespaceOf b :: rest =>
    (if isFirst then [] else text ",") ++ .softSpace :: text "*" ++ .softSpace :: text "as " ++
      word b.name ++ .space :: specifiers false false rest
  | .named imported b :: rest =>
    (if open_ then text "," ++ [.softSpace]
      else (if isFirst then [] else text ",") ++ .softSpace :: text "\x7b" ++ [.softSpace]) ++
      renamed imported ⟨b.name, false⟩ ++ specifiers false true rest

/-- The flags of a regular expression in their usual order. -/
def orderedFlags (flags : List Char) : List Char :=
  "gimsuydv".toList.filter flags.contains

/-- A regular expression. -/
def regex (raw : String) : List Piece :=
  let flags := (raw.toList.reverse.takeWhile (· ≠ '/')).reverse
  [.regex (raw.toList.take (raw.length - flags.length) ++ orderedFlags flags)]

/-- The value of an attribute, in double quotes unless it has some. -/
def attributeText (raw : String) : List Piece :=
  let value := (raw.toList.drop 1).dropLast
  let quote := if value.contains '"' then '\'' else '"'
  [.text (quote :: value ++ [quote])]

/-- A number, of which those too great for any are infinite. -/
def number (spacing : Spacing) (level : Nat) (raw : String) : List Piece :=
  match literalValue? raw.toList with
  | some x => [.number (shortSpelling x)]
  | none =>
    match spacing with
    | .spacious => word "Infinity"
    | .compact => wrap (Level.multiply ≤ level) (word "1/0")

end Pieces

/-! ### Looking at nodes -/

namespace Node

/-- A statement without the comments in front of it. -/
def withoutComments : Node → Node
  | commented _ n => n.withoutComments
  | n => n

/-- An expression without its parentheses. -/
def withoutParens : Node → Node
  | paren n => n.withoutParens
  | n => n

/-- Whether a statement is a block. -/
def isBlock (n : Node) : Bool :=
  match n.withoutComments with
  | block _ => true
  | _ => false

/-- Whether a statement is an empty one. -/
def isEmptyStatement (n : Node) : Bool :=
  match n.withoutComments with
  | empty => true
  | _ => false

/-- Whether a statement is a condition. -/
def isIf (n : Node) : Bool :=
  match n.withoutComments with
  | ifElse .. => true
  | _ => false

/-- Whether an `else` after a statement would belong to a condition inside it. -/
def takesElse : Node → Bool
  | commented _ n => n.takesElse
  | ifElse _ _ none => true
  | ifElse _ _ (some n) => n.takesElse
  | forLoop _ _ _ n => n.takesElse
  | forIn _ _ n => n.takesElse
  | forOf _ _ _ n => n.takesElse
  | .while _ n => n.takesElse
  | withScope _ n => n.takesElse
  | labeled _ n => n.takesElse
  | _ => false

/-- Whether a property has the name of the variable that is its value. -/
def isOwnName (key : Node) (computed : Bool) (value : Node) : Bool :=
  match computed, key, value.withoutParens with
  | false, propertyName k, reference b => k = b.name && k != "__proto__"
  | _, _, _ => false

/-- Whether a property of a pattern has the name that it binds or, in the compact layout, assigns. -/
def isOwnTarget (spacing : Spacing) (key : Node) (computed : Bool) (value : Node) : Bool :=
  match computed, key, value with
  | false, propertyName k, binding b => k = b.name
  | false, propertyName k, withDefault (binding b) _ => k = b.name
  | false, propertyName k, reference b => spacing = .compact && k = b.name
  | _, _, _ => false

/-- Whether an operand is a logical operator other than `??`. -/
def isLogical (n : Node) : Bool :=
  match n.withoutParens with
  | binary op _ _ => op == "&&" || op == "||"
  | _ => false

/-- Whether an operand has an operator before it. -/
def isUnary (n : Node) : Bool :=
  match n.withoutParens with
  | unary .. => true
  | await _ => true
  | _ => false

/-- The levels of the operands of a binary operator. -/
def operandLevels (op : String) (left right : Node) : Nat × Nat :=
  let level := Level.ofBinary op
  if op = "**" then (if left.isUnary then Level.call else level, level - 1)
  else if op = "??" then
    (if left.isLogical then Level.unaryBefore else level - 1,
     if right.isLogical then Level.unaryBefore else level)
  else (level - 1, level)

/-- The words before the name of a method that its function asks for. -/
def functionMarks : Node → Bool × Bool
  | function _ _ isAsync isGenerator _ _ _ => (isAsync, isGenerator)
  | _ => (false, false)

/-- Whether a node is a declaration with a body in braces. -/
def isDefinition : Node → Bool
  | function .declaration .. => true
  | classNode .declaration .. => true
  | _ => false

/-- Whether a node declares variables. -/
def isVariables : Node → Bool
  | variableList .. => true
  | _ => false

/-- Whether a node holds the comments at the end of a function. -/
def isClosing : Node → Bool
  | closingComments _ => true
  | _ => false

/-- Whether a number is too great for any. -/
def isInfinite : Node → Bool
  | number raw => (literalValue? raw.toList).isNone
  | _ => false

/-- Whether there is an element at the end that is left out. -/
def endsInHole (elements : List Node) : Bool :=
  match elements.getLast? with
  | some hole => true
  | _ => false

/-- Whether the body of a function stays on the line of its braces. -/
def isClosedBody (directives : List String) (body : List Node) : Bool :=
  directives.isEmpty &&
    body.all fun
      | closingComments cs =>
        cs.all fun c ↦ !c.isLine && !c.precededByNewline && !c.followedByNewline
      | _ => false

/-- The string that a statement consists of, in parentheses that keep it from being a directive. -/
def guardedString? (n : Node) : Option StringValue :=
  match n.withoutComments with
  | expression value =>
    match value.withoutParens with
    | string s => some s
    | _ => none
  | _ => none

/-- Whether the first statement has to be kept from being a directive. -/
def needsGuard (spacing : Spacing) (directives : List String) (body : List Node) : Option StringValue :=
  match spacing, directives, body with
  | .spacious, [], first :: _ => first.guardedString?
  | _, _, _ => none

end Node

end AppletBundle.Script
