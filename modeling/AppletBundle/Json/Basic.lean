/-!
# Values of the data format JSON

Manifests are read and written in JSON. Numbers are never computed with, so they keep the digits that
were written.
-/

namespace AppletBundle

/-- A value. -/
inductive Json where
  | null
  | bool (value : Bool)
  | number (digits : String)
  | string (text : String)
  | array (items : List Json)
  /-- Named values in the order of writing; a name may occur twice. -/
  | object (members : List (String × Json))
  /-- A string, or an object with a name, that holds half of a surrogate pair: it is well-formed but
  stands for no text. -/
  | unpaired

namespace Json

/-- A text, or nothing. -/
def ofOption : Option String → Json
  | none => null
  | some text => string text

end Json

end AppletBundle
