import AppletBundle.Path.Basic
import AppletBundle.Text.Quoted

/-!
# Quoted paths

A path is shown to a person like any other text, but the single quote gets a backslash too.
-/

namespace AppletBundle.Path

/-- One character of a path inside quotes. -/
def quotedChar (c : Char) : String :=
  if c = '\'' then "\\'" else Text.quotedChar c

/-- The path between double quotes. -/
def quoted (p : Path) : String :=
  "\"" ++ String.join (p.text.toList.map quotedChar) ++ "\""

end AppletBundle.Path
