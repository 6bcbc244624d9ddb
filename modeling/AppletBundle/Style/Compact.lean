import AppletBundle.Text.Blank

/-!
# Compact stylesheets

Compaction drops comments, and all white space but single spaces between two parts of a declaration
or a selector; it drops the semicolon before a closing brace. String literals are kept as they are.
-/

namespace AppletBundle.Style

open AppletBundle.Text

/-- Where the reader of a stylesheet stands. -/
inductive CompactZone where
  | code
  /-- After a slash, which is written once it is known to open no comment. -/
  | slash
  | comment
  /-- After an asterisk inside a comment. -/
  | commentStar
  | string (quote : Char)
  | escaped (quote : Char)

/-- What has been written, the last character first, and whether white space has been read since. -/
structure CompactOutput where
  written : List Char
  pending : Bool

namespace CompactOutput

/-- Writes a space for the white space that was read, unless nothing stands before it. -/
def flush (o : CompactOutput) : CompactOutput :=
  ⟨if o.pending && !o.written.isEmpty then ' ' :: o.written else o.written, false⟩

/-- Writes a character. -/
def put (o : CompactOutput) (c : Char) : CompactOutput :=
  { o with written := c :: o.written }

/-- The punctuation that needs no space around it. -/
def isTight (c : Char) : Bool :=
  c == '{' || c == '}' || c == ';' || c == ','

/-- Writes a character of code. -/
def code (o : CompactOutput) (c : Char) : CompactOutput :=
  if isBlank c then { o with pending := true }
  else if isTight c then
    let before := if c = '}' && o.written.head? = some ';' then o.written.drop 1 else o.written
    ⟨c :: before, false⟩
  else if o.written.head?.any isTight then ⟨c :: o.written, false⟩
  else o.flush.put c

end CompactOutput

/-- The reader of a stylesheet with what it has written. -/
structure CompactState where
  zone : CompactZone
  output : CompactOutput

namespace CompactState

/-- Reads a character of code. -/
def stepCode (o : CompactOutput) (c : Char) : CompactState :=
  if c = '/' then ⟨.slash, o⟩
  else if c = '"' || c = '\'' then ⟨.string c, o.flush.put c⟩
  else ⟨.code, o.code c⟩

/-- Reads a character. -/
def step (s : CompactState) (c : Char) : CompactState :=
  let o := s.output
  match s.zone with
  | .code => stepCode o c
  | .slash => if c = '*' then ⟨.comment, o⟩ else stepCode (o.code '/') c
  | .comment => ⟨if c = '*' then .commentStar else .comment, o⟩
  | .commentStar => ⟨if c = '/' then .code else if c = '*' then .commentStar else .comment, o⟩
  | .string quote =>
    ⟨if c = '\\' then .escaped quote else if c = quote then .code else .string quote, o.put c⟩
  | .escaped quote => ⟨.string quote, o.put c⟩

/-- What has been written when the stylesheet ends. -/
def finish (s : CompactState) : List Char :=
  match s.zone with
  | .slash => (s.output.code '/').written.reverse
  | _ => s.output.written.reverse

end CompactState

/-- The stylesheet without comments and without white space that means nothing. -/
def compact (css : String) : String :=
  .ofList (css.toList.foldl CompactState.step ⟨.code, ⟨[], false⟩⟩).finish

end AppletBundle.Style
