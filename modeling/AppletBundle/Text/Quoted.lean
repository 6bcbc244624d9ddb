import AppletBundle.Text.Hexadecimal
import AppletBundle.Text.Printable

/-!
# Quoted text

Texts are shown to a person between double quotes. The quote and the backslash get a backslash, the
usual controls their letter, and every other character without a form of its own its code point in
braces.
-/

namespace AppletBundle.Text

/-- One character inside quotes. -/
def quotedChar (c : Char) : String :=
  if c = '"' then "\\\""
  else if c = '\\' then "\\\\"
  else if c = '\n' then "\\n"
  else if c = '\r' then "\\r"
  else if c = '\t' then "\\t"
  else if c = '\x00' then "\\0"
  else if isPrintable c then c.toString
  else "\\u\x7b" ++ hexDigits c.toNat ++ "\x7d"

/-- The text between double quotes. -/
def quoted (s : String) : String :=
  "\"" ++ String.join (s.toList.map quotedChar) ++ "\""

end AppletBundle.Text
