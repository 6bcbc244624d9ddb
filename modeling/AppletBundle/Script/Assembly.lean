import AppletBundle.Script.Module
import AppletBundle.Text.Blank

/-!
# Assembly

Output is put together from the source texts of statements, with a line feed between two of them.
An exported declaration loses what stands before the declaration; a default export without a name
becomes the declaration of a name for its value.
-/

namespace AppletBundle.Script

/-- The offset from which the text of a statement is kept, if any of it is. -/
def Statement.retainedFrom? (s : Statement) : Option Nat :=
  match s.kind with
  | .exportWrapper start => some (max s.span.start (min start s.span.stop))
  | .defaultExpression start => some (max s.span.start (min start s.span.stop))
  | .plain => some s.span.start
  | _ => none

namespace ScriptModule

/-- A declaration of the default binding for a value. -/
def bindDefault (m : ScriptModule) (value : List Char) : List Char :=
  let close := if (Text.trimEnd value).getLast? = some ';' then [] else [';']
  "const ".toList ++ m.defaultBinding.toList ++ " = ".toList ++ value ++ close

/-- What a statement contributes to the output: nothing, or a text unless its range is no range of
the source. -/
def retainedText? (m : ScriptModule) (s : Statement) : Option (Option (List Char)) :=
  s.retainedFrom?.map fun start ↦
    let range :=
      if s.span.start ≤ s.span.stop then Text.slice? m.source.toList start s.span.stop else none
    match s.kind with
    | .defaultExpression _ => range.map m.bindDefault
    | _ => range

/-- The texts that statements contribute. Positions without a statement are skipped. -/
def retainedTexts (m : ScriptModule) (statements : List Nat) : List (Option (List Char)) :=
  (statements.filterMap fun i ↦ m.statements[i]?).filterMap m.retainedText?

/-- Puts the statements at the given positions together, unless one has a range that is none of the
source. -/
def assemble? (m : ScriptModule) (statements : List Nat) : Option String :=
  ((m.retainedTexts statements).mapM id).map fun texts ↦
    "\n".intercalate (texts.map String.ofList)

end ScriptModule

end AppletBundle.Script
