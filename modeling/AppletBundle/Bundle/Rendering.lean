import AppletBundle.Bundle.File
import AppletBundle.Failure
import AppletBundle.Script.Parser.Module
import AppletBundle.Script.Printer.Basic
import AppletBundle.Style.Compact

/-!
# Rendering

Before a bundle file is written, scripts and styles are brought into the form that was asked for: as
compact as possible or laid out for reading. Markup is written as it is.
-/

namespace AppletBundle

open AppletBundle.Script

/-- Ways to bring code of a kind into its compact form and into its readable form. A way that rejects
the code says why. -/
structure CodeTransform where
  minify : ModuleKind → String → Except String String
  format : ModuleKind → String → Except String String

namespace CodeTransform

/-- The text of a script in a layout. -/
def printScript (spacing : Spacing) (code : String) : Except String String :=
  match parseScript code with
  | .error e => .error ("expected " ++ e.expected)
  | .ok program => .ok (program.print spacing)

/-- The style without white space around it and with a line feed at its end. -/
def formatStyle (css : String) : String :=
  .ofList (Text.trim css.toList ++ ['\n'])

/-- Scripts are parsed and printed. Styles lose what means nothing, or just the white space around
them. -/
def standard : CodeTransform where
  minify
    | .script, code => printScript .compact code
    | .style, code => .ok (Style.compact code)
    | .markup, code => .ok code
  format
    | .script, code => printScript .spacious code
    | .style, code => .ok (formatStyle code)
    | .markup, code => .ok code

end CodeTransform

/-- Renders the content of the file at a path. -/
def render (t : CodeTransform) (minify : Bool) (path : Path) (kind : ModuleKind)
    (content : String) : Outcome String :=
  let (tool, result) :=
    if minify then (Tool.minifier, t.minify kind content) else (Tool.formatter, t.format kind content)
  match kind, result with
  | .markup, _ => .ok content
  | _, .ok rendered => .ok rendered
  | _, .error message =>
    .error (.ofCause (.tool tool kind (path.fileStem?.getD path.text) message))

end AppletBundle
