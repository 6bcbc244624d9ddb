import AppletBundle.Style.Scan
import AppletBundle.Text.Blank

/-!
# Scoped selectors

A selector is scoped by an attribute selector in its last compound, after the part of it that is no
pseudo class or element, so that it matches only elements which carry the attribute. Some forms of a
selector ask for something else:

* a global form stands for its argument alone;
* a deep form scopes what stands before it and leaves its argument as it is;
* a slotted form scopes its argument, by an attribute with a suffix of its own.

An argument whose parenthesis is never closed ends one byte before the end of the selector. When
that falls inside a character, the selector has no scoped form.
-/

namespace AppletBundle.Style

open AppletBundle.Text

/-! ### Where the attribute goes -/

/-- A character of an identifier: letters, digits, the two dashes and all that is not ASCII. -/
def isIdentChar (c : Char) : Bool :=
  c.isAlphanum || c == '-' || c == '_' || 128 ≤ c.toNat

/-- Blanks and combinators, which end a compound. -/
def isCombinator (c : Char) : Bool :=
  c == ' ' || c == '\t' || c == '\n' || c == '\r' || c == '>' || c == '+' || c == '~'

/-- Where the reader of a selector stands. -/
inductive SelectorState where
  /-- Between the parts of a selector. -/
  | gap
  /-- After the first colon of a pseudo class or element. -/
  | colon
  | pseudoName
  /-- Inside the argument of a pseudo class. -/
  | pseudoArgument (q : Quoting) (depth : Nat)
  | brackets (q : Quoting) (depth : Nat)
  | compound
  /-- After a backslash in a compound. -/
  | compoundEscape
  deriving DecidableEq

namespace SelectorState

/-- The state after the first character of a part. -/
def start (c : Char) : SelectorState :=
  if isCombinator c then gap
  else if c = ':' then colon
  else if c = '[' then brackets .outside 0
  else if c = '\\' then compoundEscape
  else compound

/-- One character inside a bracketed group. -/
def inGroup (opener closer : Char) (group : Quoting → Nat → SelectorState) (q : Quoting)
    (depth : Nat) (c : Char) : SelectorState :=
  match q with
  | .outside =>
    if c = opener then group .outside (depth + 1)
    else if c = closer then
      match depth with
      | 0 => gap
      | d + 1 => group .outside d
    else group (q.step c) depth
  | _ => group (q.step c) depth

/-- One character of a selector. -/
def step : SelectorState → Char → SelectorState
  | gap, c => start c
  | colon, c =>
    if isIdentChar c || c = ':' then pseudoName
    else if c = '(' then pseudoArgument .outside 0
    else start c
  | pseudoName, c =>
    if isIdentChar c then pseudoName
    else if c = '(' then pseudoArgument .outside 0
    else start c
  | pseudoArgument q depth, c => inGroup '(' ')' pseudoArgument q depth c
  | brackets q depth, c => inGroup '[' ']' brackets q depth c
  | compound, c =>
    if isCombinator c || c = ':' || c = '[' || c = '\\' then start c else compound
  | compoundEscape, _ => compound

/-- Whether the attribute may stand after the character that led from one state to another. -/
def isEnd : SelectorState → SelectorState → Bool
  | _, compound => true
  | _, compoundEscape => true
  | brackets .., gap => true
  | _, _ => false

end SelectorState

/-- The state of the search for the last place where the attribute may stand: the state of the
reader, the number of characters read, and that place. -/
structure InsertionSearch where
  state : SelectorState
  count : Nat
  last : Option Nat

/-- One character of the search. -/
def InsertionSearch.step (s : InsertionSearch) (c : Char) : InsertionSearch :=
  let next := s.state.step c
  ⟨next, s.count + 1, if SelectorState.isEnd s.state next then some (s.count + 1) else s.last⟩

/-- The number of characters before the attribute. A group of brackets that is never closed reaches
to the end. -/
def insertionPoint? (selector : List Char) : Option Nat :=
  let s := selector.foldl InsertionSearch.step ⟨.gap, 0, none⟩
  match s.state with
  | .brackets .. => some s.count
  | _ => s.last

/-- An attribute selector. -/
def attributeSelector (attr : List Char) : List Char :=
  '[' :: attr ++ [']']

/-- The trimmed selector with the attribute after its last part that is no pseudo class or element,
or in front when there is none. -/
def injectAttribute (selector attr : List Char) : List Char :=
  let selector := trim selector
  let at_ := (insertionPoint? selector).getD 0
  selector.take at_ ++ attributeSelector attr ++ selector.drop at_

/-! ### Escapes -/

/-- The argument of a form. -/
inductive PseudoArgument where
  | absent
  | present (text : List Char)
  /-- The argument would end inside a character. -/
  | broken

/-- A form that was found, with what stands before and after it. -/
structure PseudoMatch where
  before : List Char
  argument : PseudoArgument
  after : List Char

/-- The argument after the name of a form, and what follows it. -/
def readArgument (s : List Char) : PseudoArgument × List Char :=
  match s with
  | '(' :: rest =>
    match closeGroup? '(' ')' .outside 0 rest with
    | some (inner, after) => (.present inner, after)
    | none =>
      match rest.getLast? with
      | some c => (if c.utf8Size = 1 then .present rest.dropLast else .broken, [])
      | none => (.present [], [])
  | _ => (.absent, s)

/-- Whether a name with one colon is the end of the same name with two. -/
def isTailOfLonger (name : List Char) (previous : Option Char) : Bool :=
  previous == some ':' && !([':', ':'].isPrefixOf name)

/-- Finds the first use of a form by one name. A longer identifier is another name. -/
def findName (name : List Char) (previous : Option Char) : List Char → Option PseudoMatch
  | [] => none
  | c :: rest =>
    let after := (c :: rest).drop name.length
    if name.isPrefixOf (c :: rest) && !(after.head?.any isIdentChar) &&
        !isTailOfLonger name previous then
      let (argument, after) := readArgument after
      some ⟨[], argument, after⟩
    else (findName name (some c) rest).map fun m ↦ { m with before := c :: m.before }

/-- Finds the first use of a form by the first of its names that is used. -/
def findPseudo (names : List String) (selector : List Char) : Option PseudoMatch :=
  names.findSome? fun name ↦ findName name.toList none selector

/-- Splits a text at the first occurrence of a pattern. -/
def splitAtFirst (pattern : List Char) : List Char → Option (List Char × List Char)
  | [] => if pattern.isEmpty then some ([], []) else none
  | c :: rest =>
    if pattern.isPrefixOf (c :: rest) then some ([], (c :: rest).drop pattern.length)
    else (splitAtFirst pattern rest).map fun r ↦ (c :: r.1, r.2)

/-- The scoped left side of a deep form, and its right side as it is. -/
def joinDeep (left right attr : List Char) : List Char :=
  let left := trimEnd left
  (if left.isEmpty then attributeSelector attr else injectAttribute left attr) ++
    ' ' :: right

/-! ### Selectors -/

/-- A selector without a global or deep form. -/
def scopeSlotted? (selector attr : List Char) : Option (List Char) :=
  match findPseudo ["::v-slotted", ":slotted"] selector with
  | some ⟨before, .present argument, after⟩ =>
    some (before ++ injectAttribute (trim argument) (attr ++ ['-', 's']) ++ after)
  | some ⟨_, .broken, _⟩ => none
  | _ => some (injectAttribute selector attr)

/-- A selector without a global form. -/
def scopeDeep? (selector attr : List Char) : Option (List Char) :=
  match splitAtFirst ">>>".toList selector with
  | some (left, right) => some (joinDeep left (trimStart right) attr)
  | none =>
    match splitAtFirst "/deep/".toList selector with
    | some (left, right) => some (joinDeep left (trimStart right) attr)
    | none =>
      match findPseudo ["::v-deep", ":deep"] selector with
      | some ⟨left, .present argument, after⟩ =>
        some (joinDeep left (trim argument ++ after) attr)
      | some ⟨left, .absent, after⟩ => some (joinDeep left (trimStart after) attr)
      | some ⟨_, .broken, _⟩ => none
      | none => scopeSlotted? selector attr

/-- The scoped form of a selector, if it has one. -/
def scopeSelectorChars? (selector attr : List Char) : Option (List Char) :=
  match findPseudo ["::v-global", ":global"] selector with
  | some ⟨_, .present argument, _⟩ => some (trim argument)
  | some ⟨_, .broken, _⟩ => none
  | _ => scopeDeep? selector attr

/-- A selector of a list, with the blanks in front of it. -/
def scopeListItem? (attr part : List Char) : Option (List Char) :=
  let trimmed := trimStart part
  let leading := part.take (part.length - trimmed.length)
  (scopeSelectorChars? (trimEnd trimmed) attr).map (leading ++ ·)

/-- A list of selectors, each of which is scoped. -/
def scopeSelectorListChars? (selectors attr : List Char) : Option (List Char) :=
  ((splitTopLevel ',' .outside 0 selectors).mapM (scopeListItem? attr)).map
    ([','].intercalate ·)

/-- The scoped form of a selector, if it has one. -/
def scopeSelector? (selector attr : String) : Option String :=
  (scopeSelectorChars? selector.toList attr.toList).map .ofList

/-- A list of selectors separated by commas, each of which is scoped. -/
def scopeSelectorList? (selectors attr : String) : Option String :=
  (scopeSelectorListChars? selectors.toList attr.toList).map .ofList

end AppletBundle.Style
