/-!
# Syntax trees of scripts

A script is a module in the sense of the ECMAScript standard, with markup elements in expressions.
All parts of the tree are of one type `Node`: expressions, the patterns that bind or assign,
properties and class members, markup, and statements. What matters to later stages is kept and
nothing else: names with the place where they are declared, literals as they were written, and the
comments in front of a statement.
-/

namespace AppletBundle.Script

/-- How a variable declaration binds its names. -/
inductive VariableKind where
  | var
  | letKind
  | const
  | usingKind
  | awaitUsing
  deriving DecidableEq

/-- The words that open a declaration. -/
def VariableKind.keyword : VariableKind → String
  | var => "var"
  | letKind => "let"
  | const => "const"
  | usingKind => "using"
  | awaitUsing => "await using"

/-- Where a function or a class stands, which decides where its name is bound. -/
inductive DefinitionForm where
  /-- A statement: the name belongs to the scope around it. -/
  | declaration
  /-- A value: the name is known only inside. -/
  | expression
  /-- The function of a method, which has no name of its own. -/
  | method
  deriving DecidableEq

/-- What a method defines. -/
inductive MethodKind where
  | method
  | getter
  | setter
  deriving DecidableEq

/-- A comment, with what stands between it and its neighbours. -/
structure Comment where
  text : String
  isLine : Bool
  precededByNewline : Bool
  followedByNewline : Bool

/-- A declared name and the offset of its declaration. -/
structure Binding where
  name : String
  offset : Nat
  deriving DecidableEq

/-- A name in an import or export clause, which may be written as a string. -/
structure ModuleName where
  text : String
  isString : Bool
  deriving DecidableEq

/-- What an import declaration brings in. -/
inductive ImportSpecifier where
  | default (binding : Binding)
  | namespaceOf (binding : Binding)
  | named (imported : ModuleName) (binding : Binding)

/-- One entry of an export list. -/
structure ExportSpecifier where
  localName : ModuleName
  exported : ModuleName

/-- A string literal as the code points it stands for, surrogates included. -/
abbrev StringValue := List Nat

/-- The text of a string literal; a surrogate that stands alone becomes the replacement character. -/
def StringValue.toText (value : StringValue) : String :=
  .ofList (value.map fun n ↦ if n.isValidChar then Char.ofNat n else '\uFFFD')

/-- An attribute of an import, as key and value. -/
structure ImportAttribute where
  key : ModuleName
  value : StringValue

/-- The attributes after a module's name, with the word that opens them. -/
structure ImportAttributes where
  keyword : String
  entries : List ImportAttribute

/-- A part of a syntax tree. -/
inductive Node where
  -- Names and literals
  /-- The use of a name as a value or as the target of an assignment. -/
  | reference (binding : Binding)
  /-- The declaration of a name. -/
  | binding (binding : Binding)
  /-- The name of a property, which refers to nothing. -/
  | propertyName (name : String)
  | privateName (name : String)
  | this
  | super
  | null
  | bool (value : Bool)
  | number (raw : String)
  | bigint (raw : String)
  | string (value : StringValue)
  | regex (raw : String)
  | template (quasis : List String) (values : List Node)
  | taggedTemplate (tag : Node) (quasis : List String) (values : List Node)
  -- Values with parts
  | array (elements : List Node)
  | hole
  | spread (argument : Node)
  | object (properties : List Node)
  | property (key : Node) (computed : Bool) (value : Node)
  | shorthand (binding : Binding)
  /-- A shorthand property with a default, which has a meaning only inside a pattern. -/
  | shorthandDefault (binding : Binding) (value : Node)
  | function (form : DefinitionForm) (name : Option Binding) (isAsync isGenerator : Bool)
      (params : List Node) (directives : List String) (body : List Node)
  | arrow (isAsync : Bool) (params : List Node) (directives : List String) (body : List Node)
  /-- An arrow function whose body is one value. -/
  | arrowValue (isAsync : Bool) (params : List Node) (value : Node)
  | classNode (form : DefinitionForm) (decorators : List Node) (name : Option Binding)
      (superclass : Option Node) (members : List Node)
  | method (kind : MethodKind) (decorators : List Node) (isStatic : Bool) (key : Node)
      (computed : Bool) (function : Node)
  | field (decorators : List Node) (isStatic isAccessor : Bool) (key : Node) (computed : Bool)
      (value : Option Node)
  | staticBlock (body : List Node)
  -- Operations
  | unary (operator : String) (argument : Node)
  | update (operator : String) (isBefore : Bool) (argument : Node)
  | binary (operator : String) (left right : Node)
  | privateIn (name : String) (right : Node)
  | assign (operator : String) (target value : Node)
  | conditional (test consequent alternate : Node)
  | sequence (items : List Node)
  | paren (inner : Node)
  | yield (delegate : Bool) (argument : Option Node)
  | await (argument : Node)
  | member (object : Node) (property : String) (optional : Bool)
  | privateMember (object : Node) (property : String) (optional : Bool)
  | index (object : Node) (key : Node) (optional : Bool)
  | call (callee : Node) (arguments : List Node) (optional : Bool)
  | new (callee : Node) (arguments : List Node)
  | importCall (arguments : List Node)
  | metaProperty (object property : String)
  /-- A whole chain of accesses of which some may be skipped. -/
  | chain (inner : Node)
  -- Patterns
  | arrayPattern (elements : List Node)
  | objectPattern (properties : List Node)
  | patternProperty (key : Node) (computed : Bool) (value : Node)
  /-- A property whose name is the name that is bound or assigned. -/
  | patternShorthand (target : Node) (fallback : Option Node)
  | withDefault (target value : Node)
  | rest (target : Node)
  -- Markup
  | element (name : Node) (attributes : List Node) (selfClosing : Bool) (children : List Node)
  | fragment (children : List Node)
  | tagName (name : String)
  | tagNamespaced (space name : String)
  | tagMember (object : Node) (property : String)
  | tagAttribute (name : Node) (value : Option Node)
  | attributeText (raw : String)
  | attributeSpread (argument : Node)
  | markupText (raw : String)
  | markupValue (value : Option Node)
  | markupSpread (argument : Node)
  -- Statements
  /-- A statement or a member of a class with the comments in front of it. -/
  | commented (comments : List Comment) (statement : Node)
  /-- The comments before the closing brace of a function. -/
  | closingComments (comments : List Comment)
  | variableList (kind : VariableKind) (declarators : List Node)
  | declarator (target : Node) (value : Option Node)
  | expression (value : Node)
  | empty
  | block (body : List Node)
  | ifElse (test consequent : Node) (alternate : Option Node)
  | forLoop (init test step : Option Node) (body : Node)
  | forIn (left right body : Node)
  | forOf (isAwait : Bool) (left right body : Node)
  | while (test body : Node)
  | doWhile (body test : Node)
  | continue (label : Option String)
  | break (label : Option String)
  | return (value : Option Node)
  | throw (value : Node)
  | tryCatch (body : Node) (handler finalizer : Option Node)
  | catchClause (param : Option Node) (body : List Node)
  | switch (discriminant : Node) (cases : List Node)
  | switchCase (test : Option Node) (body : List Node)
  | labeled (label : String) (body : Node)
  | debugger
  | withScope (object body : Node)
  -- Items of a module
  | importFrom (specifiers : Option (List ImportSpecifier)) (source : StringValue)
      (attributes : Option ImportAttributes)
  | exportAll (exported : Option ModuleName) (source : StringValue)
      (attributes : Option ImportAttributes)
  | exportFrom (specifiers : List ExportSpecifier) (source : StringValue)
      (attributes : Option ImportAttributes)
  | exportList (specifiers : List ExportSpecifier)
  | exportDeclaration (declaration : Node)
  | exportDefault (value : Node)

/-- A statement at the top level of a module. -/
structure Item where
  /-- The offset of the first byte of the statement. -/
  start : Nat
  /-- The offset after its last byte, a closing semicolon included. -/
  stop : Nat
  /-- The offset of the declaration or value inside an export. -/
  innerStart : Nat
  node : Node

/-- A parsed module. -/
structure Program where
  hashbang : Option String
  directives : List String
  items : List Item
  /-- The comments after the last statement. -/
  comments : List Comment

end AppletBundle.Script
