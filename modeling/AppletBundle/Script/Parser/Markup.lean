import AppletBundle.Script.Parser.Basic

/-!
# Markup elements in expressions

An element is read token by token inside its tags and character by character between them. Its
parser starts at the opening angle bracket and stops *at* the last closing one, because only the
caller knows how to read on: as markup after a nested element, as script after the outermost one.

A tag whose name starts with a lower-case letter, or holds a hyphen, is the name of an element of
the page; any other refers to a value.
-/

namespace AppletBundle.Script.Parser

open AppletBundle.Text

/-- Goes on behind `n` bytes of the current token's text, of which `rest` is left. -/
def jump (n : Nat) (rest : List Char) : Parser Unit :=
  modify fun c ↦ c.moveTo false (c.start + n) rest

/-- Stands at raw text instead of a token, `n` bytes further on. -/
def jumpRaw (n : Nat) (rest : List Char) : Parser Unit :=
  modify fun c ↦
    { c with before := c.start + n, start := c.start + n, stop := c.start + n, source := rest,
             rest := rest, token := .invalid, newline := false, comments := [] }

/-- Whether the source goes on with a character. -/
def atChar (ch : Char) : Parser Bool :=
  return (← get).source.head? = some ch

/-- Whether the current token's text starts with a closing angle bracket. -/
def expectClosing : Parser Unit := do
  if ← atChar '>' then return else fail ">"

/-- Reads the name of a tag or an attribute, which may hold hyphens. -/
def tagWord : Parser String := do
  let c ← get
  match c.token with
  | .name _ false =>
    let isPart := fun ch ↦ isIdentifierPart ch || ch == '-'
    let text := c.source.takeWhile isPart
    jump (byteLength text) (c.source.dropWhile isPart)
    return .ofList text
  | _ => fail "a name"

/-- What a tag's name denotes. -/
def tagOfWord (offset : Nat) (text : String) : Node :=
  if text = "this" then .this
  else if text.any (· == '-') || text.toList.head?.any Char.isLower then .tagName text
  else .reference ⟨text, offset⟩

/-- The text of a tag's name, by which opening and closing tags are matched. -/
def tagText : Node → String
  | .tagName name => name
  | .tagNamespaced space name => space ++ ":" ++ name
  | .tagMember object property => tagText object ++ "." ++ property
  | .reference b => b.name
  | .this => "this"
  | _ => ""

/-- The names after the points of a tag's name. -/
def tagMembers (object : Node) : Nat → Parser Node
  | 0 => fail "an end"
  | n + 1 => do
    if ← eat "." then
      let property ← tagWord
      tagMembers (.tagMember object property) n
    else return object

/-- Reads the name of a tag. -/
def tagName (g : Grammar) : Parser Node := do
  let c ← get
  let text ← tagWord
  if ← eat ":" then return .tagNamespaced text (← tagWord)
  else if ← atPunctuator "." then
    tagMembers (if text = "this" then .this else .reference ⟨text, c.start⟩) g.bound
  else return tagOfWord c.start text

/-- The value of an attribute between quotes, which has no escapes. -/
def attributeString (quote : Char) : Parser Node := do
  let c ← get
  let body := c.source.drop 1
  let text := body.takeWhile (· ≠ quote)
  match body.dropWhile (· ≠ quote) with
  | [] => fail "a quote"
  | _ :: rest =>
    jump (byteLength text + 2) rest
    return .attributeText (.ofList (quote :: text ++ [quote]))

/-- The items of an expression separated by commas. -/
def expression (g : Grammar) (ctx : Context) : Parser Node := do
  let first ← g.parse (.assignment ctx)
  let others ← collect g.bound do
    if ← eat "," then return some (← g.parse (.assignment ctx))
    else return none
  if others.isEmpty then return first else return .sequence (first :: others)

/-- The value of an attribute, after the equals sign. -/
def attributeValue (g : Grammar) (ctx : Context) : Parser Node := do
  if ← atChar '"' then attributeString '"'
  else if ← atChar '\'' then attributeString '\''
  else if ← eat "\x7b" then
    let value ← expression g ctx.withIn
    expect "\x7d"
    return .markupValue (some value)
  else if ← atPunctuator "<" then
    let value ← g.parse (.element ctx)
    jump 1 ((← get).source.drop 1)
    return value
  else fail "a value"

/-- The attributes of a tag. -/
def attributes (g : Grammar) (ctx : Context) : Parser (List Node) :=
  collect g.bound do
    match ← token with
    | .name _ _ =>
      let text ← tagWord
      let name ←
        if ← eat ":" then Node.tagNamespaced text <$> tagWord else pure (.tagName text)
      if ← eat "=" then return some (.tagAttribute name (some (← attributeValue g ctx)))
      else return some (.tagAttribute name none)
    | .punctuator "\x7b" =>
      advance
      expect "..."
      let value ← g.parse (.assignment ctx.withIn)
      expect "\x7d"
      return some (.attributeSpread value)
    | _ => return none

/-- A value in braces between tags; stops behind the closing brace, at raw text. -/
def childValue (g : Grammar) (ctx : Context) : Parser Node := do
  advance
  let child ←
    if ← atPunctuator "\x7d" then pure (.markupValue none)
    else if ← eat "..." then Node.markupSpread <$> g.parse (.assignment ctx.withIn)
    else (fun v ↦ Node.markupValue (some v)) <$> expression g ctx.withIn
  if ← atPunctuator "\x7d" then
    jumpRaw 1 ((← get).source.drop 1)
    return child
  else fail "\x7d"

/-- What stands between two tags, up to the slash of the closing one. -/
def children (g : Grammar) (ctx : Context) : Parser (List Node) :=
  collect g.bound do
    let c ← get
    match c.source with
    | [] => fail "a closing tag"
    | '<' :: _ =>
      modify fun c ↦ c.moveTo false c.start c.source
      let (after, _) ← peek
      if after = .punctuator "/" then
        advance
        advance
        return none
      else
        let child ← g.parse (.element ctx)
        jumpRaw 1 ((← get).source.drop 1)
        return some child
    | '{' :: _ =>
      modify fun c ↦ c.moveTo false c.start c.source
      return some (← childValue g ctx)
    | source =>
      let isText := fun ch ↦ ch != '<' && ch != '{'
      let text := source.takeWhile isText
      jumpRaw (byteLength text) (source.dropWhile isText)
      return some (.markupText (.ofList text))

/-- An element or a fragment from its opening angle bracket to its last closing one. -/
def element (g : Grammar) (ctx : Context) : Parser Node := do
  expect "<"
  if ← atChar '>' then
    jumpRaw 1 ((← get).source.drop 1)
    let inner ← children g ctx
    expectClosing
    return .fragment inner
  else
    let name ← tagName g
    let attrs ← attributes g ctx
    if ← eat "/" then
      expectClosing
      return .element name attrs true []
    else
      expectClosing
      jumpRaw 1 ((← get).source.drop 1)
      let inner ← children g ctx
      let closing ← tagName g
      if tagText closing = tagText name then
        expectClosing
        return .element name attrs false inner
      else fail (tagText name)

end AppletBundle.Script.Parser
