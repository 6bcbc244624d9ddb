import AppletBundle.ModuleKind
import AppletBundle.Path.Basic

/-!
# The entry page

One page of markup starts the app: it holds the manifest and loads the given modules, style sheets in
its head and everything else after the manifest.
-/

namespace AppletBundle.Entry

/-- The kind of module that a file is by its extension. Only scripts and styles are modules. -/
def moduleKind? (p : Path) : Option ModuleKind :=
  match p.extension? with
  | some "js" => some .script
  | some "css" => some .style
  | _ => none

/-- The reference to a module from the page. -/
def reference (p : Path) : String :=
  "./" ++ "/".intercalate (p.components.map Path.Component.text)

/-- The element that loads a style sheet. -/
def styleElement (p : Path) : String :=
  "    <link rel=\"stylesheet\" href=\"" ++ reference p ++ "\" />\n"

/-- The element that loads a script. -/
def scriptElement (p : Path) : String :=
  "    <script src=\"" ++ reference p ++ "\"></script>\n"

/-- A text in which no element can be closed: a slash after an opening bracket gets a backslash. -/
def guardClosings (afterBracket : Bool) : List Char → List Char
  | [] => []
  | c :: rest =>
    if afterBracket && c == '/' then '\\' :: c :: guardClosings false rest
    else c :: guardClosings (c == '<') rest

/-- The page that holds a manifest and loads modules in order. -/
def pageText (modules : List Path) (manifest : String) : String :=
  let (styles, scripts) := modules.partition fun p ↦ moduleKind? p == some .style
  "<!DOCTYPE html>\n<html>\n  <head>\n    <meta charset=\"utf-8\" />\n" ++
  "    <meta name=\"viewport\" content=\"width=device-width, initial-scale=1\" />\n" ++
  String.join (styles.map styleElement) ++
  "  </head>\n  <body>\n    <div id=\"root\"></div>\n    <script>\n" ++
  "      window.manifest = " ++ .ofList (guardClosings false manifest.toList) ++ ";\n" ++
  "    </script>\n" ++
  String.join (scripts.map scriptElement) ++
  "  </body>\n</html>\n"

end AppletBundle.Entry
