import AppletBundle.Style.Animation
import AppletBundle.Style.Selector

/-!
# Stylesheets

A stylesheet is read as a list of rules, each with all of its text, and a tail that holds no complete
rule. Nothing is lost in reading: `Stylesheet.chars` gives the text back.

Scoping a stylesheet to an asset scopes the selectors of its style rules, those inside conditional
groups included, and renames the keyframes that it declares; all other text is kept.
-/

namespace AppletBundle.Style

open AppletBundle.Text

/-! ### Cutting a text into rules -/

/-- The text before the first opening brace or semicolon outside parentheses, strings and comments,
that character, and the text after it. -/
def splitAtDelimiter? (z : Zone) (depth : Nat) : List Char → Option (List Char × Char × List Char)
  | [] => none
  | c :: rest =>
    let found := z.isCode && depth == 0 && (c == '\x7b' || c == ';')
    if found then some ([], c, rest)
    else
      let depth :=
        if !z.isCode then depth else if c = '(' then depth + 1 else if c = ')' then depth - 1
        else depth
      (splitAtDelimiter? (z.step c) depth rest).map fun r ↦ (c :: r.1, r.2)

/-- The text of a block up to its closing brace, and the text after that; `depth` more braces are
open. -/
def closeBlock? (z : Zone) (depth : Nat) : List Char → Option (List Char × List Char)
  | [] => none
  | c :: rest =>
    let cons := fun (r : List Char × List Char) ↦ (c :: r.1, r.2)
    if z.isCode && c == '\x7b' then (closeBlock? (z.step c) (depth + 1) rest).map cons
    else if z.isCode && c == '\x7d' then
      match depth with
      | 0 => some ([], rest)
      | d + 1 => (closeBlock? (z.step c) d rest).map cons
    else (closeBlock? (z.step c) depth rest).map cons

/-- Where the reader of the white space and comments in front of a rule stands. -/
inductive TriviaState where
  | gap
  /-- Inside a comment; the flag tells whether an asterisk was just read. -/
  | comment (star : Bool)

/-- The number of characters in front of a rule that are white space or comments. -/
def triviaLength (state : TriviaState) : List Char → Nat
  | [] => 0
  | c :: rest =>
    match state with
    | .gap =>
      if isBlank c then triviaLength .gap rest + 1
      else
        match c, rest with
        | '/', '*' :: after => triviaLength (.comment false) after + 2
        | _, _ => 0
    | .comment star =>
      triviaLength (if star && c == '/' then .gap else .comment (c == '*')) rest + 1

/-! ### Rules -/

/-- What stands before the block of a rule. -/
structure Prelude where
  /-- White space and comments in front. -/
  leading : List Char
  head : List Char
  /-- White space between the head and the block. -/
  trailing : List Char

namespace Prelude

/-- The prelude with a given text. -/
def ofChars (s : List Char) : Prelude :=
  let n := triviaLength .gap s
  let rest := s.drop n
  let head := trimEnd rest
  ⟨s.take n, head, rest.drop head.length⟩

/-- The text of a prelude. -/
def chars (p : Prelude) : List Char :=
  p.leading ++ p.head ++ p.trailing

end Prelude

/-- What the head of a rule makes of the rule. -/
inductive Head where
  /-- A list of selectors. -/
  | selectors
  /-- The declaration of keyframes, by the word after the sign and the name that is declared. -/
  | keyframes (word name : List Char)
  /-- A condition on the rules in the block. -/
  | group
  /-- Any other rule with a sign. -/
  | other

/-- The words for conditions. -/
def groupWords : List String :=
  ["media", "supports", "document", "container", "layer", "scope"]

/-- Classifies the head of a rule. -/
def Head.ofChars : List Char → Head
  | '@' :: rest =>
    let ends := fun c ↦ isBlank c || c == '('
    let word := rest.takeWhile (!ends ·)
    if "keyframes".toList.isSuffixOf word then .keyframes word (trim (rest.dropWhile (!ends ·)))
    else if String.ofList word ∈ groupWords then .group
    else .other
  | _ => .selectors

/-- A rule of a stylesheet with its text. -/
inductive Rule where
  /-- A statement without a block, its semicolon included. -/
  | statement (text : List Char)
  | style (opening : Prelude) (body : List Char)
  | keyframes (opening : Prelude) (word name body : List Char)
  /-- A group with the rules inside it, and the text after the last of them. -/
  | group (opening : Prelude) (rules : List Rule) (tail : List Char)
  | other (opening : Prelude) (body : List Char)

/-- Rules, and a text that holds no complete rule. -/
structure Stylesheet where
  rules : List Rule
  tail : List Char

namespace Stylesheet

/-- Reads a stylesheet with bounded nesting and length. -/
def readWithin : Nat → List Char → Stylesheet
  | 0, s => ⟨[], s⟩
  | fuel + 1, s =>
    match splitAtDelimiter? .code 0 s with
    | none => ⟨[], s⟩
    | some (before, delimiter, after) =>
      if delimiter = ';' then
        let more := readWithin fuel after
        ⟨.statement (before ++ [';']) :: more.rules, more.tail⟩
      else
        match closeBlock? .code 0 after with
        | none => ⟨[], s⟩
        | some (body, after) =>
          let opening := Prelude.ofChars before
          let more := readWithin fuel after
          let rule := match Head.ofChars opening.head with
            | .selectors => Rule.style opening body
            | .keyframes word name => .keyframes opening word name body
            | .group =>
              let inner := readWithin fuel body
              .group opening inner.rules inner.tail
            | .other => .other opening body
          ⟨rule :: more.rules, more.tail⟩

/-- Reads a stylesheet. Every rule takes at least one character, and so does every level of nesting,
so the length of the text bounds both. -/
def ofChars (s : List Char) : Stylesheet :=
  readWithin s.length s

end Stylesheet

/-- A block between its braces. -/
def inBraces (body : List Char) : List Char :=
  '\x7b' :: body ++ ['\x7d']

mutual

/-- The text of a rule. -/
def Rule.chars : Rule → List Char
  | .statement text => text
  | .style opening body => opening.chars ++ inBraces body
  | .keyframes opening _ _ body => opening.chars ++ inBraces body
  | .group opening rules tail => opening.chars ++ inBraces (Rule.allChars rules ++ tail)
  | .other opening body => opening.chars ++ inBraces body

/-- The text of rules. -/
def Rule.allChars : List Rule → List Char
  | [] => []
  | r :: rs => r.chars ++ Rule.allChars rs

end

/-- The text of a stylesheet. -/
def Stylesheet.chars (s : Stylesheet) : List Char :=
  Rule.allChars s.rules ++ s.tail

/-! ### Scoping -/

/-- The name of the attribute that elements of an asset carry. -/
def scopeAttribute (identity : String) : String :=
  "data-p-" ++ identity

/-- The attribute of an asset, and the suffix of its keyframes. -/
structure Scope where
  attributeName : List Char
  suffix : List Char

/-- The scope of the asset with an identity. -/
def Scope.ofIdentity (identity : String) : Scope :=
  ⟨(scopeAttribute identity).toList, '-' :: identity.toList⟩

mutual

/-- The text of a scoped rule. -/
def Rule.scoped? (scope : Scope) : Rule → Option (List Char)
  | .style opening body =>
    (scopeSelectorListChars? opening.head scope.attributeName).map fun selectors ↦
      opening.leading ++ selectors ++ opening.trailing ++ inBraces body
  | .keyframes opening word name body =>
    let name := if scope.suffix.isSuffixOf name then name else name ++ scope.suffix
    some (opening.leading ++ '@' :: word ++ ' ' :: name ++ opening.trailing ++ inBraces body)
  | .group opening rules tail =>
    (Rule.allScoped? scope rules).map fun inner ↦ opening.chars ++ inBraces (inner ++ tail)
  | .statement text => some text
  | .other opening body => some (opening.chars ++ inBraces body)

/-- The text of scoped rules. -/
def Rule.allScoped? (scope : Scope) : List Rule → Option (List Char)
  | [] => some []
  | r :: rs =>
    match r.scoped? scope, Rule.allScoped? scope rs with
    | some first, some more => some (first ++ more)
    | _, _ => none

end

mutual

/-- The names of keyframes that a rule declares and that do not end in the suffix of the scope. -/
def Rule.keyframesNames (scope : Scope) : Rule → List (List Char)
  | .keyframes _ _ name _ => if scope.suffix.isSuffixOf name then [] else [name]
  | .group _ rules _ => Rule.allKeyframesNames scope rules
  | .statement _ => []
  | .style _ _ => []
  | .other _ _ => []

/-- The names of keyframes that rules declare. -/
def Rule.allKeyframesNames (scope : Scope) : List Rule → List (List Char)
  | [] => []
  | r :: rs => r.keyframesNames scope ++ Rule.allKeyframesNames scope rs

end

namespace Stylesheet

/-- The text of a scoped stylesheet. It has none when a selector in it has no scoped form. -/
def scoped? (s : Stylesheet) (scope : Scope) : Option (List Char) :=
  (Rule.allScoped? scope s.rules).map fun inner ↦
    let css := inner ++ s.tail
    match Rule.allKeyframesNames scope s.rules with
    | [] => css
    | names => renameAnimations ⟨scope.suffix, names⟩ css

end Stylesheet

/-- A stylesheet scoped to the asset with an identity. -/
def scopeStylesheet? (source identity : String) : Option String :=
  ((Stylesheet.ofChars source.toList).scoped? (.ofIdentity identity)).map .ofList

end AppletBundle.Style
