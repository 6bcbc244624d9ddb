import AppletBundle.Script.Printer.Pieces

/-!
# Printing scripts

`Node.pieces` gives the pieces of a part of a syntax tree at its place, and `Program.print` the text
of a whole program in one of the two layouts.
-/

namespace AppletBundle.Script

open Pieces

namespace Node

/-- The pieces of a part of a tree. -/
def pieces (sp : Spacing) (node : Node) (p : Place) : List Piece :=
  match node with
  -- Names and literals
  | reference b => word b.name
  | binding b => word b.name
  | propertyName name => word name
  | privateName name => text ("#" ++ name)
  | this => word "this"
  | super => word "super"
  | null => word "null"
  | bool true => word "true"
  | bool false => word "false"
  | number raw => Pieces.number sp p.level raw
  | bigint raw => [.word (natDigits (bigintValue raw.toList) ++ ['n'])]
  | string value => [.string value (p.role != .key)]
  | regex raw => Pieces.regex raw
  | template quasis values => text "\u0060" ++ stretches sp quasis values ++ text "\u0060"
  | taggedTemplate tag quasis values =>
    tag.pieces sp (p.first false Level.unaryAfter) ++ text "\u0060" ++ stretches sp quasis values ++
      text "\u0060"
  -- Values with parts
  | array elements =>
    let wide := 2 < elements.length
    text "[" ++ (if wide then [.indent] else []) ++ items sp wide true elements ++
      (if endsInHole elements then text "," else []) ++
      (if wide then [.softLine, .dedent, .margin] else []) ++ text "]"
  | hole => []
  | spread argument => text "..." ++ argument.pieces sp (.at_ Level.comma)
  | object properties =>
    let wide := 1 < properties.length
    wrap p.looksBlock <|
      text "\x7b" ++ (if wide then [.indent] else if properties.isEmpty then [] else [.softSpace]) ++
        items sp wide true properties ++
        (if wide then [.softLine, .dedent, .margin]
          else if properties.isEmpty then [] else [.softSpace]) ++ text "\x7d"
  | property key computed value =>
    let computed := computed || key.isInfinite
    (if isOwnName key computed value then []
      else (if computed then text "[" else []) ++
        key.pieces sp { Place.at_ Level.comma with role := .key } ++
        (if computed then text "]" else []) ++ text ":" ++ [.softSpace]) ++
      value.pieces sp (.at_ Level.comma)
  | shorthand b => word b.name
  | shorthandDefault b value => word b.name ++ equals (value.pieces sp (.at_ Level.comma))
  | function form name isAsync isGenerator params directives body =>
    let rest := text "(" ++ separated sp (.at_ Level.comma) params ++ text ")" ++ .softSpace ::
      braces (isClosedBody directives body)
        (directives.flatMap directive ++ bodyStatements sp (needsGuard sp directives body) body) ++
      [.forgive]
    let whole := (if isAsync then word "async" ++ text " " else []) ++ word "function" ++
      (if isGenerator then text "*" ++ [.softSpace] else []) ++
      (match name with
        | some b => word b.name
        | none => []) ++ rest
    match form with
    | .method => rest
    | .expression => wrap (p.looksDeclared || p.inParens) whole
    | .declaration => openStatement sp p.role ++ whole ++ closeBlock p.role
  | arrow isAsync params directives body =>
    wrap (Level.assign ≤ p.level || p.inParens) <|
      (if isAsync then word "async" ++ [.softSpace] else []) ++
        wrap (needsParens sp params) (separated sp (.at_ Level.comma) params) ++ .softSpace ::
        text "=>" ++ .softSpace ::
        braces (isClosedBody directives body)
          (directives.flatMap directive ++ bodyStatements sp (needsGuard sp directives body) body) ++
        [.forgive]
  | arrowValue isAsync params value =>
    wrap (Level.assign ≤ p.level || p.inParens) <|
      (if isAsync then word "async" ++ [.softSpace] else []) ++
        wrap (needsParens sp params) (separated sp (.at_ Level.comma) params) ++ .softSpace ::
        text "=>" ++ .softSpace ::
        value.pieces sp { p.inner Level.comma with opening := .arrowBody }
  | classNode form decorators name superclass members =>
    let whole := decoratorPieces sp decorators ++ word "class" ++
      (match name with
        | some b => .space :: word b.name
        | none => []) ++
      (match superclass with
        | some s => text " extends " ++ s.pieces sp (.at_ Level.unaryAfter)
        | none => []) ++ .softSpace ::
      braces members.isEmpty (statements sp members) ++ [.forgive]
    match form with
    | .declaration => openStatement sp p.role ++ whole ++ closeBlock p.role
    | _ => wrap p.looksDeclared whole
  | method kind decorators isStatic key computed f =>
    let (isAsync, isGenerator) := f.functionMarks
    openStatement sp p.role ++ decoratorPieces sp decorators ++
      (if isStatic then word "static" ++ [.softSpace] else []) ++
      (match kind with
        | .method => []
        | .getter => word "get" ++ [.softSpace]
        | .setter => word "set" ++ [.softSpace]) ++
      (if isAsync then word "async" ++ [.softSpace] else []) ++
      (if isGenerator then text "*" else []) ++
      (if computed then text "[" else []) ++
      key.pieces sp { Place.at_ Level.comma with role := .key } ++
      (if computed then text "]" else []) ++ f.pieces sp (.at_ Level.comma) ++ closeBlock p.role
  | field decorators isStatic isAccessor key computed value =>
    openStatement sp p.role ++ decoratorPieces sp decorators ++
      (if isStatic then word "static" ++ [.softSpace] else []) ++
      (if isAccessor then word "accessor" ++ [.softSpace] else []) ++
      (if computed then text "[" else []) ++
      key.pieces sp { Place.at_ Level.comma with role := .key } ++
      (if computed then text "]" else []) ++
      (match value with
        | some v => equals (v.pieces sp (.at_ Level.comma))
        | none => []) ++ [.endStatement]
  | staticBlock body =>
    openStatement sp p.role ++ word "static" ++ .softSpace ::
      braces body.isEmpty (statements sp body) ++ [.forgive] ++ closeBlock p.role
  -- Operations
  | unary op argument =>
    wrap (Level.unaryBefore ≤ p.level) <|
      (if op.toList.all Char.isAlpha then word op ++ [.softSpace] else [.operator op]) ++
        argument.pieces sp (p.inner Level.exponent)
  | update op true argument =>
    wrap (Level.unaryBefore ≤ p.level) <|
      .operator op :: argument.pieces sp (p.inner Level.unaryBefore)
  | update op false argument =>
    let wrapped : Bool := Level.unaryAfter ≤ p.level
    wrap wrapped <| argument.pieces sp (p.first wrapped Level.unaryAfter) ++ [.operator op]
  | binary op left right =>
    let wrapped : Bool := Level.ofBinary op ≤ p.level || (op = "in" && p.forbidsIn)
    let (l, r) := operandLevels op left right
    wrap wrapped <|
      left.pieces sp (p.first wrapped l) ++ .softSpace ::
        (if op.toList.all Char.isAlpha then word op else [.operator op]) ++ .softSpace ::
        right.pieces sp { Place.at_ r with forbidsIn := p.forbidsIn && !wrapped }
  | privateIn name right =>
    wrap (Level.compare ≤ p.level) <|
      text ("#" ++ name ++ " in ") ++ right.pieces sp { Place.at_ 12 with forbidsIn := true }
  | assign op target value =>
    let isObject := match target with
      | objectPattern _ => true
      | _ => false
    let wrapped : Bool := (isObject && p.looksBlock) || Level.assign ≤ p.level
    wrap wrapped <|
      target.pieces sp { p.first wrapped Level.comma with assigned := true } ++ .softSpace ::
        text op ++ .softSpace :: value.pieces sp (p.inner Level.comma)
  | conditional test consequent alternate =>
    let wrapped : Bool := Level.conditional ≤ p.level
    wrap wrapped <|
      test.pieces sp (p.first wrapped Level.conditional) ++ .softSpace :: text "?" ++ .softSpace ::
        consequent.pieces sp (.at_ Level.yield) ++ .softSpace :: text ":" ++ .softSpace ::
        alternate.pieces sp { Place.at_ Level.yield with forbidsIn := p.forbidsIn && !wrapped }
  | sequence values =>
    let wrapped : Bool := Level.comma ≤ p.level
    wrap wrapped <| separated sp (p.first wrapped Level.comma) values
  | paren inner => inner.pieces sp { p with inParens := true }
  | yield delegate argument =>
    wrap (Level.assign ≤ p.level) <|
      word "yield" ++ (if delegate then text "*" else []) ++
        match argument with
        | some a => .softSpace :: a.pieces sp (p.inner Level.yield)
        | none => []
  | await argument =>
    wrap (Level.unaryBefore ≤ p.level) <|
      word "await" ++ .softSpace :: argument.pieces sp (p.inner Level.exponent)
  | member target name optional =>
    target.pieces sp { p.first false Level.unaryAfter with forbidsCall := p.forbidsCall } ++
      (if optional then text "?." else [.point]) ++ text name
  | privateMember target name optional =>
    target.pieces sp { p.first false Level.unaryAfter with forbidsCall := p.forbidsCall } ++
      (if optional then text "?." else [.point]) ++ text ("#" ++ name)
  | index target key optional =>
    target.pieces sp { p.first false Level.unaryAfter with forbidsCall := p.forbidsCall } ++
      (if optional then text "?." else []) ++ text "[" ++ key.pieces sp (.at_ Level.lowest) ++ text "]"
  | call callee args optional =>
    wrap (Level.new ≤ p.level || p.forbidsCall) <|
      callee.pieces sp { p.first false Level.unaryAfter with forbidsIn := false } ++
        (if optional then text "?." else []) ++ text "(" ++ separated sp (.at_ Level.comma) args ++
        text ")"
  | new callee args =>
    word "new" ++ .softSpace :: callee.pieces sp { Place.at_ Level.new with forbidsCall := true } ++
      if sp = .compact && args.isEmpty && p.level < Level.unaryAfter then []
      else text "(" ++ separated sp (.at_ Level.comma) args ++ text ")"
  | importCall args =>
    wrap (Level.new ≤ p.level || p.forbidsCall) <|
      word "import" ++ text "(" ++ separated sp (.at_ Level.comma) args ++ text ")"
  | metaProperty base name => word base ++ text ("." ++ name)
  | chain inner =>
    let wrapped : Bool := Level.unaryAfter ≤ p.level
    wrap wrapped <| inner.pieces sp { p with opening := (p.first wrapped 0).opening, inParens := false }
  -- Patterns
  | arrayPattern elements =>
    text "[" ++ separated sp { Place.at_ Level.comma with assigned := p.assigned } elements ++
      (if endsInHole elements then text "," else []) ++ text "]"
  | objectPattern properties =>
    let space : List Piece := if p.assigned || properties.isEmpty then [] else [.softSpace]
    text "\x7b" ++ space ++
      separated sp { Place.at_ Level.comma with assigned := p.assigned } properties ++ space ++
      text "\x7d"
  | patternProperty key computed value =>
    (if isOwnTarget sp key computed value then []
      else (if computed then text "[" else []) ++
        key.pieces sp { Place.at_ Level.comma with role := .key } ++
        (if computed then text "]" else []) ++ text ":" ++ [.softSpace]) ++
      value.pieces sp { Place.at_ Level.comma with assigned := p.assigned }
  | patternShorthand target fallback =>
    target.pieces sp (.at_ Level.comma) ++
      match fallback with
      | some f => equals (f.pieces sp (.at_ Level.comma))
      | none => []
  | withDefault target value =>
    target.pieces sp { Place.at_ Level.comma with assigned := p.assigned } ++
      equals (value.pieces sp (.at_ Level.comma))
  | rest target =>
    text "..." ++ target.pieces sp { Place.at_ Level.comma with assigned := p.assigned }
  -- Markup
  | element name attributes selfClosing children =>
    let tag := name.pieces sp (.at_ Level.lowest)
    text "<" ++ tag ++ concat sp attributes ++
      if selfClosing then .softSpace :: text "/>"
      else text ">" ++ concat sp children ++ text "</" ++ tag ++ text ">"
  | fragment children => text "<>" ++ concat sp children ++ text "</>"
  | tagName name => text name
  | tagNamespaced space name => text (space ++ ":" ++ name)
  | tagMember base name => base.pieces sp (.at_ Level.lowest) ++ text ("." ++ name)
  | tagAttribute name value =>
    .space :: name.pieces sp (.at_ Level.lowest) ++
      match value with
      | some v => text "=" ++ v.pieces sp (.at_ Level.lowest)
      | none => []
  | attributeText raw => Pieces.attributeText raw
  | attributeSpread argument =>
    .softSpace :: text "\x7b..." ++ argument.pieces sp (.at_ Level.comma) ++ text "\x7d"
  | markupText raw => text raw
  | markupValue none => text "\x7b\x7d"
  | markupValue (some value) =>
    text "\x7b" ++ value.pieces sp (.at_ Level.lowest) ++ text "\x7d"
  | markupSpread argument =>
    text "\x7b..." ++ argument.pieces sp (.at_ Level.comma) ++ text "\x7d"
  -- Statements
  | commented cs statement =>
    match p.role with
    | .body _ =>
      if statement.isBlock || statement.isEmptyStatement then statement.pieces sp p
      else (openStatement sp p.role).dropLast ++ .comments cs :: statement.pieces sp .statement
    | .statement => .comments cs :: statement.pieces sp p
    | _ => statement.pieces sp p
  | closingComments cs => [.comments cs]
  | variableList kind declarators =>
    openStatement sp p.role ++ word kind.keyword ++ .softSpace ::
      separated sp (p.inner Level.comma) declarators ++
      match p.role with
      | .inline => []
      | _ => [.endStatement]
  | declarator target value =>
    target.pieces sp (.at_ Level.comma) ++
      match value with
      | some v => equals (v.pieces sp (p.inner Level.comma))
      | none => []
  | expression value =>
    openStatement sp p.role ++
      value.pieces sp { Place.at_ Level.lowest with opening := .statement } ++ [.endStatement]
  | empty =>
    match p.role with
    | .body _ => text ";" ++ [.softLine]
    | _ => .margin :: text ";" ++ [.softLine]
  | block body =>
    openBlock p.role ++ braces body.isEmpty (statements sp body) ++ .forgive :: closeBlock p.role
  | ifElse test consequent alternate =>
    openStatement sp p.role ++ word "if" ++ .softSpace :: text "(" ++
      test.pieces sp (.at_ Level.lowest) ++ text ")" ++
      (if consequent.isBlock then
        .softSpace :: consequent.pieces sp (.at_ Level.lowest) ++
          [if alternate.isSome then .softSpace else .softLine]
      else if consequent.takesElse then
        .softSpace ::
          braces false (consequent.pieces sp .statement ++ [.forgive]) ++
          [if alternate.isSome then .softSpace else .softLine]
      else
        consequent.pieces sp (.body false) ++ if alternate.isSome then [.margin] else []) ++
      match alternate with
      | none => []
      | some other =>
        .settle :: word "else" ++
          if other.isIf then .space :: other.pieces sp (.at_ Level.lowest)
          else other.pieces sp (.body true)
  | forLoop init test step body =>
    openStatement sp p.role ++ word "for" ++ .softSpace :: text "(" ++
      (match init with
        | some n => n.pieces sp { Place.at_ Level.lowest with forbidsIn := true }
        | none => []) ++ text ";" ++
      (match test with
        | some n => .softSpace :: n.pieces sp (.at_ Level.lowest)
        | none => []) ++ text ";" ++
      (match step with
        | some n => .softSpace :: n.pieces sp (.at_ Level.lowest)
        | none => []) ++ text ")" ++ body.pieces sp (.body false)
  | forIn left right body =>
    openStatement sp p.role ++ word "for" ++ .softSpace :: text "(" ++
      left.pieces sp { Place.at_ Level.lowest with forbidsIn := true, assigned := true } ++
      .softSpace :: word "in" ++ .softSpace :: right.pieces sp (.at_ Level.lowest) ++ text ")" ++
      body.pieces sp (.body false)
  | forOf isAwait left right body =>
    openStatement sp p.role ++ word "for" ++ (if isAwait then text " await" else []) ++
      .softSpace :: text "(" ++
      left.pieces sp { Place.at_ Level.lowest with forbidsIn := true, assigned := true } ++
      .softSpace :: word "of" ++ .softSpace :: right.pieces sp (.at_ Level.comma) ++ text ")" ++
      body.pieces sp (.body false)
  | .while test body =>
    openStatement sp p.role ++ word "while" ++ .softSpace :: text "(" ++
      test.pieces sp (.at_ Level.lowest) ++ text ")" ++ body.pieces sp (.body false)
  | doWhile body test =>
    openStatement sp p.role ++ word "do" ++
      (if body.isBlock then .softSpace :: body.pieces sp (.at_ Level.lowest) ++ [.softSpace]
        else body.pieces sp (.body true) ++ [.settle, .margin]) ++
      word "while" ++ .softSpace :: text "(" ++ test.pieces sp (.at_ Level.lowest) ++ text ")" ++
      [.endStatement]
  | .continue label =>
    openStatement sp p.role ++ word "continue" ++
      (match label with
        | some l => .space :: word l
        | none => []) ++ [.endStatement]
  | .break label =>
    openStatement sp p.role ++ word "break" ++
      (match label with
        | some l => .space :: word l
        | none => []) ++ [.endStatement]
  | .return value =>
    openStatement sp p.role ++ word "return" ++
      (match value with
        | some v => .softSpace :: v.pieces sp (.at_ Level.lowest)
        | none => []) ++ [.endStatement]
  | throw value =>
    openStatement sp p.role ++ word "throw" ++ .softSpace :: value.pieces sp (.at_ Level.lowest) ++
      [.endStatement]
  | tryCatch body handler finalizer =>
    openStatement sp p.role ++ word "try" ++ .softSpace :: body.pieces sp (.at_ Level.lowest) ++
      (match handler with
        | some h => .softSpace :: h.pieces sp (.at_ Level.lowest)
        | none => []) ++
      (match finalizer with
        | some f => .softSpace :: word "finally" ++ .softSpace :: f.pieces sp (.at_ Level.lowest)
        | none => []) ++ [.softLine]
  | catchClause param body =>
    word "catch" ++
      (match param with
        | some n => .softSpace :: text "(" ++ n.pieces sp (.at_ Level.comma) ++ text ")"
        | none => []) ++ .softSpace :: braces body.isEmpty (statements sp body) ++ [.forgive]
  | switch discriminant cases =>
    openStatement sp p.role ++ word "switch" ++ .softSpace :: text "(" ++
      discriminant.pieces sp (.at_ Level.lowest) ++ text ")" ++ .softSpace ::
      braces cases.isEmpty (statements sp cases) ++ [.softLine, .forgive]
  | switchCase test body =>
    .margin ::
      (match test with
        | some t => word "case" ++ .softSpace :: t.pieces sp (.at_ Level.lowest)
        | none => word "default") ++ text ":" ++ caseBody sp body
  | labeled label body =>
    openStatement sp p.role ++ word label ++ text ":" ++ body.pieces sp (.body false)
  | debugger => openStatement sp p.role ++ word "debugger" ++ [.endStatement]
  | withScope target body =>
    openStatement sp p.role ++ word "with" ++ .softSpace :: text "(" ++
      target.pieces sp (.at_ Level.lowest) ++ text ")" ++ body.pieces sp (.body false)
  -- Items of a module
  | importFrom brought source attributes =>
    .margin :: word "import" ++
      (match brought with
        | none => []
        | some [] => .softSpace :: text "\x7b\x7d" ++ .softSpace :: word "from"
        | some ss => specifiers true false ss ++ word "from") ++
      .softSpace :: Pieces.source source ++ Pieces.attributes attributes ++ [.endStatement]
  | exportAll exported source attributes =>
    .margin :: word "export" ++ .softSpace :: text "*" ++
      (match exported with
        | some n => .softSpace :: text "as " ++ moduleName n
        | none => []) ++ .softSpace :: word "from" ++ .softSpace :: Pieces.source source ++
      Pieces.attributes attributes ++ [.endStatement]
  | exportFrom names source attributes =>
    .margin :: word "export" ++ .softSpace ::
      nameList (names.map fun s ↦ renamed s.localName s.exported) ++ .softSpace :: text "from" ++
      .softSpace :: Pieces.source source ++ Pieces.attributes attributes ++ [.endStatement]
  | exportList names =>
    .margin :: word "export" ++ .softSpace ::
      nameList (names.map fun s ↦ renamed s.localName s.exported) ++ [.endStatement]
  | exportDeclaration declaration =>
    .margin :: word "export" ++ .space :: declaration.pieces sp (.at_ Level.lowest) ++
      if declaration.isVariables then [.endStatement] else [.softLine, .forgive]
  | exportDefault value =>
    .margin :: text "export default " ++
      value.pieces sp { Place.at_ Level.comma with opening := .defaultExport } ++
      if value.isDefinition then [.softLine] else [.endStatement]
where
  /-- Whether the parameters of an arrow function need parentheses. -/
  needsParens (sp : Spacing) (params : List Node) : Bool :=
    match sp, params with
    | .compact, [binding _] => false
    | _, _ => true
  /-- Parts one after the other. -/
  concat (sp : Spacing) : List Node → List Piece
    | [] => []
    | n :: ns => n.pieces sp (.at_ Level.lowest) ++ concat sp ns
  /-- The stretches of a template and the values between them. -/
  stretches (sp : Spacing) (quasis : List String) : List Node → List Piece
    | [] => quasis.head?.toList.map fun q ↦ .text (guardScript false q.toList)
    | v :: vs =>
      (quasis.head?.toList.map fun q ↦ .text (guardScript false q.toList)) ++ text "$\x7b" ++
        v.pieces sp (.at_ Level.lowest) ++ text "\x7d" ++ stretches sp quasis.tail vs
  /-- Items of an array or object, each on its line if these are many. -/
  items (sp : Spacing) (wide isFirst : Bool) : List Node → List Piece
    | [] => []
    | n :: ns =>
      (if isFirst then [] else text ",") ++
        (if wide then [.softLine, .margin] else if isFirst then [] else [.softSpace]) ++
        n.pieces sp (.at_ Level.comma) ++ items sp wide false ns
  /-- Parts with commas between them, the first of which stands where the whole does. -/
  separated (sp : Spacing) (p : Place) : List Node → List Piece
    | [] => []
    | [n] => n.pieces sp p
    | n :: ns =>
      n.pieces sp p ++ text "," ++ .softSpace ::
        separated sp { p with opening := .nothing } ns
  /-- Statements or members, each on its line. -/
  statements (sp : Spacing) : List Node → List Piece
    | [] => []
    | n :: ns => .settle :: n.pieces sp .statement ++ statements sp ns
  /-- The statements of a case: a single one stays on its line. -/
  caseBody (sp : Spacing) : List Node → List Piece
    | [] => [.softLine]
    | [n] => n.pieces sp (.body false)
    | n :: m :: ns =>
      [.softLine, .indent, .settle] ++ n.pieces sp .statement ++ .settle :: m.pieces sp .statement ++
        statements sp ns ++ [.dedent]
  /-- The statements of a function, of which the first may have to be a string in parentheses. The
  comments at the end need no semicolon before them. -/
  bodyStatements (sp : Spacing) (guarded : Option StringValue) : List Node → List Piece
    | [] => []
    | n :: ns =>
      (match guarded with
        | some s => text "(" ++ .string s true :: text ")" ++ [.endStatement]
        | none => (if n.isClosing then [] else [.settle]) ++ n.pieces sp .statement) ++
        bodyStatements sp none ns
  /-- Decorators, each followed by a space. -/
  decoratorPieces (sp : Spacing) : List Node → List Piece
    | [] => []
    | n :: ns =>
      text "@" ++ n.pieces sp (.at_ Level.lowest) ++ .space :: decoratorPieces sp ns

end Node

namespace Program

/-- The pieces of a program. -/
def pieces (sp : Spacing) (p : Program) : List Piece :=
  let nodes := p.items.map Item.node
  (match p.hashbang with
    | some line => [.text ("#!" ++ line ++ "\n").toList]
    | none => []) ++
    p.directives.flatMap Pieces.directive ++
    Node.pieces.bodyStatements sp (Node.needsGuard sp p.directives nodes) nodes ++
    [.settle, .comments p.comments]

/-- The text of a program. -/
def print (sp : Spacing) (p : Program) : String :=
  .ofList (layOut sp (p.pieces sp))

end Program

end AppletBundle.Script
