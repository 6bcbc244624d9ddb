import AppletBundle.Script.Parser.Basic

/-!
# Patterns that declare names

The targets of declarations and the parameters of functions: a name, or a pattern of brackets or
braces whose parts are targets again, with defaults.
-/

namespace AppletBundle.Script.Parser

/-- The name of a property, and whether it is computed. -/
def propertyKey (g : Grammar) (ctx : Context) : Parser (Node × Bool) := do
  match ← token with
  | .name text _ =>
    advance
    return (.propertyName text, false)
  | .string value _ =>
    advance
    return (.string value, false)
  | .number raw =>
    advance
    return (.number raw, false)
  | .bigint raw =>
    advance
    return (.bigint raw, false)
  | .punctuator "[" =>
    advance
    let key ← g.parse (.assignment ctx.withIn)
    expect "]"
    return (key, true)
  | _ => fail "the name of a property"

/-- A target with an optional default. -/
def bindingElement (g : Grammar) (ctx : Context) : Parser Node := do
  let target ← g.parse (.bindingTarget ctx)
  if ← eat "=" then
    return .withDefault target (← g.parse (.assignment ctx.withIn))
  else return target

/-- The elements of a pattern in brackets, after the opening one. -/
def arrayPatternElements (g : Grammar) (ctx : Context) : Parser (List Node) :=
  collect g.bound do
    if ← eat "]" then return none
    else if ← eat "," then return some .hole
    else if ← eat "..." then
      let target ← g.parse (.bindingTarget ctx)
      if ← atPunctuator "]" then return some (.rest target) else fail "]"
    else
      let element ← bindingElement g ctx
      if ← atPunctuator "]" then return some element
      else
        expect ","
        return some element

/-- A property of a pattern in braces. -/
def patternProperty (g : Grammar) (ctx : Context) : Parser Node := do
  if ← eat "..." then
    let b ← identifier ctx
    if ← atPunctuator "\x7d" then return .rest (.binding b) else fail "\x7d"
  else
    let c ← get
    let (key, computed) ← propertyKey g ctx
    if ← eat ":" then return .patternProperty key computed (← bindingElement g ctx)
    else match key with
      | .propertyName name =>
        if isIdentifier ctx name then
          let target := Node.binding ⟨name, c.start⟩
          if ← eat "=" then
            return .patternShorthand target (some (← g.parse (.assignment ctx.withIn)))
          else return .patternShorthand target none
        else fail ":"
      | _ => fail ":"

/-- A name or a pattern whose names are declared. -/
def bindingTarget (g : Grammar) (ctx : Context) : Parser Node := do
  if ← eat "[" then return .arrayPattern (← arrayPatternElements g ctx)
  else if ← eat "\x7b" then
    return .objectPattern (← commaList g.bound "\x7d" (patternProperty g ctx))
  else return .binding (← identifier ctx)

/-- The parameters of a function, after the opening parenthesis. What collects the rest stands
last. -/
def parameters (g : Grammar) (ctx : Context) : Parser (List Node) :=
  commaList g.bound ")" do
    if ← eat "..." then
      let target ← g.parse (.bindingTarget ctx)
      if ← atPunctuator ")" then return .rest target else fail ")"
    else bindingElement g ctx

end AppletBundle.Script.Parser
