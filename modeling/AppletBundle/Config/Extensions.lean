import AppletBundle.Failure

/-!
# File extensions

A page or component keeps its modules in files that differ in their extension only, next to a
settings file with the extension `json`. The extensions of the modules can be chosen; a choice is
usable when no file can be read in two roles.
-/

namespace AppletBundle

/-- The extensions of the modules' files. -/
structure Extensions where
  script : String
  markup : String
  style : String
  deriving DecidableEq

namespace Extensions

/-- The extensions when none are chosen. -/
def standard : Extensions :=
  ⟨"js", "wxml", "wxss"⟩

/-- The extension of a kind of module. -/
def ofKind (e : Extensions) : ModuleKind → String
  | .script => e.script
  | .style => e.style
  | .markup => e.markup

/-- The extension of the settings file. -/
def settings : String :=
  "json"

/-- An extension without dots in front, unless it is unusable for a kind. -/
def normalizeOne (kind : ModuleKind) (extension : String) : Outcome String :=
  let trimmed := extension.toList.dropWhile (· == '.')
  if trimmed.isEmpty || trimmed.contains '/' || trimmed.contains '\\' then
    .error <| .ofCause <| .other <|
      "Invalid " ++ kind.label ++ " extension '" ++ extension ++ "'"
  else if String.ofList trimmed = settings then
    .error <| .ofCause <| .other <|
      "The " ++ kind.label ++
        " extension cannot be 'json', which holds page and component settings"
  else .ok (.ofList trimmed)

/-- The extensions without dots in front, unless they are unusable. -/
def normalized (e : Extensions) : Outcome Extensions := do
  let script ← normalizeOne .script e.script
  let markup ← normalizeOne .markup e.markup
  let style ← normalizeOne .style e.style
  if script = markup ∨ script = style ∨ markup = style then
    .error <| .ofCause <| .other <|
      "Script, markup and style extensions must differ (got " ++ script ++ ", " ++ markup ++ ", " ++
        style ++ ")"
  else return ⟨script, markup, style⟩

end Extensions

end AppletBundle
