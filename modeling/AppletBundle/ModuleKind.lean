/-!
# Kinds of modules

An app, a page or a component has up to three modules, one of a kind, and a bundle has one file for
each kind.
-/

namespace AppletBundle

/-- The kind of a module, of the output made from it, and of the file that holds the output. -/
inductive ModuleKind where
  | script
  | style
  | markup
  deriving DecidableEq

namespace ModuleKind

/-- All kinds, in the order in which the files of a bundle are written. -/
def all : List ModuleKind :=
  [.script, .style, .markup]

/-- The word for a kind in messages. -/
def label : ModuleKind → String
  | script => "script"
  | style => "style"
  | markup => "markup"

/-- The extension of the written file of a kind. -/
def extension : ModuleKind → String
  | script => "js"
  | style => "css"
  | markup => "jsx"

end ModuleKind

end AppletBundle
