/-!
# Line endings

Sources are read with line feeds only. Normalization makes two passes over the text: every carriage
return that is followed by a line feed is dropped, then every carriage return that is left becomes a
line feed.
-/

namespace AppletBundle.Text

/-- Drops the carriage return of every pair of carriage return and line feed. -/
def joinLinePairs : List Char → List Char
  | '\r' :: '\n' :: rest => '\n' :: joinLinePairs rest
  | c :: rest => c :: joinLinePairs rest
  | [] => []

/-- The text of a line ending for a carriage return, any other character as it is. -/
def lineFeedFor (c : Char) : Char :=
  if c = '\r' then '\n' else c

/-- The text with line feeds as its only line endings. -/
def normalizeLineEndings (s : String) : String :=
  .ofList ((joinLinePairs s.toList).map lineFeedFor)

end AppletBundle.Text
