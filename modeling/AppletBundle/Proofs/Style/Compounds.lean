import AppletBundle.Style.Selector
import AppletBundle.Proofs.Style.Groups
import Mathlib.Data.List.DropRight

/-!
# Compound selectors

A compound is a type, if it has one, and its classes, ids, attributes and pseudo classes and elements,
in any order. Combinators join compounds to a complex selector. The attribute belongs into the last
compound, before its trailing pseudo classes and elements; a compound of pseudo classes and elements
alone has no place for it, and leaves it to the compound on its left (`ComplexSelector.before`).

Names may have escapes. What stands in brackets is balanced text.
-/

namespace AppletBundle.Style

/-! ### Names -/

/-- A character of a name: one of an identifier, or the star or the bar of a type. -/
def isSelectorNameChar (c : Char) : Bool :=
  isIdentChar c || c == '*' || c == '|'

/-- White space between compounds. -/
def isSpaceChar (c : Char) : Bool :=
  c == ' ' || c == '\t' || c == '\n' || c == '\r' || c == '\x0c'

/-- A piece of a name. -/
inductive NamePiece where
  | char (c : Char) (isName : isSelectorNameChar c = true)
  | escape (c : Char)
  /-- A character by its code, with the white space that ends the code. -/
  | code (digits spaces : List Char) (digits_isName : ∀ c ∈ digits, isSelectorNameChar c = true)
    (spaces_isSpace : ∀ c ∈ spaces, isSpaceChar c = true) (ne_nil : spaces ≠ [])

namespace NamePiece

def text : NamePiece → List Char
  | char c _ => [c]
  | escape c => ['\\', c]
  | code digits spaces _ _ _ => '\\' :: (digits ++ spaces)

def isCode : NamePiece → Bool
  | code .. => true
  | _ => false

end NamePiece

/-- The name of an element, a class, an id or a pseudo class or element. -/
structure SelectorName where
  pieces : List NamePiece
  ne_nil : pieces ≠ []

namespace SelectorName

def text (name : SelectorName) : List Char :=
  name.pieces.flatMap NamePiece.text

theorem text_ne_nil (name : SelectorName) : name.text ≠ [] := by
  obtain ⟨pieces, hne⟩ := name
  obtain ⟨piece, pieces, rfl⟩ := List.exists_cons_of_ne_nil hne
  cases piece <;> exact List.cons_ne_nil _ _

/-- Whether no code stands at the end of a name, whose white space would be the end of the text. -/
def isClosed (name : SelectorName) : Bool :=
  !name.pieces.getLast?.any NamePiece.isCode

/-- A name without escapes. -/
def ofString (s : String) (h : s.toList ≠ [] ∧ s.toList.all isSelectorNameChar = true) :
    SelectorName where
  pieces := s.toList.pmap NamePiece.char (List.all_eq_true.1 h.2)
  ne_nil := by simpa using h.1

end SelectorName

/-! ### Parts of a compound -/

/-- The two sorts of names with a mark in front. -/
inductive NameSort where
  | className
  | id

def NameSort.mark : NameSort → Char
  | className => '.'
  | id => '#'

/-- A part of a compound, its type apart. -/
inductive SimpleSelector where
  | named (sort : NameSort) (name : SelectorName)
  | bracketed (content : List Char) (isBalanced : IsBalanced .square content)
  /-- A pseudo class or a pseudo element, with the argument of a function. -/
  | pseudo (isElement : Bool) (name : SelectorName)
    (argument : Option { t : List Char // IsBalanced .parenthesis t })

namespace SimpleSelector

def text : SimpleSelector → List Char
  | named sort name => sort.mark :: name.text
  | bracketed content _ => '[' :: (content ++ [']'])
  | pseudo isElement name argument =>
    (if isElement then [':', ':'] else [':']) ++
      (name.text ++ argument.elim [] fun t ↦ '(' :: (t.1 ++ [')']))

def isPseudo : SimpleSelector → Bool
  | pseudo .. => true
  | _ => false

/-- Whether the text has no white space at its end that belongs to a name. -/
def isClosed : SimpleSelector → Bool
  | named _ name => name.isClosed
  | _ => true

/-- Whether the name of a pseudo class or element is spelled without escapes. -/
def isPlain : SimpleSelector → Bool
  | pseudo _ name _ => name.text.all isIdentChar
  | _ => true

end SimpleSelector

/-! ### Compounds -/

structure CompoundSelector where
  type : Option SelectorName
  parts : List SimpleSelector
  nonempty : type.isSome ∨ parts ≠ []

namespace CompoundSelector

variable (compound : CompoundSelector)

def typeText : List Char :=
  compound.type.elim [] SelectorName.text

/-- The parts up to the last one that is no pseudo class or element. -/
def own : List SimpleSelector :=
  compound.parts.rdropWhile SimpleSelector.isPseudo

/-- What the attribute comes after. -/
def kept : List Char :=
  compound.typeText ++ compound.own.flatMap SimpleSelector.text

/-- The pseudo classes and elements at the end. -/
def trailing : List Char :=
  (compound.parts.rtakeWhile SimpleSelector.isPseudo).flatMap SimpleSelector.text

def text : List Char :=
  compound.typeText ++ compound.parts.flatMap SimpleSelector.text

theorem kept_append_trailing : compound.kept ++ compound.trailing = compound.text := by
  rw [kept, trailing, List.append_assoc, ← List.flatMap_append, own,
    List.rdropWhile_append_rtakeWhile, text]

/-- Whether a compound has a part that is no pseudo class or element. -/
def isAnchored : Bool :=
  compound.type.isSome || !compound.own.isEmpty

theorem own_subset : compound.own ⊆ compound.parts :=
  (List.rdropWhile_prefix _ _).subset

variable {compound} in
theorem isPseudo_of_own_eq {init : List SimpleSelector} {part : SimpleSelector}
    (h : compound.own = init ++ [part]) : part.isPseudo = false := by
  have hne : compound.own ≠ [] := by simp [h]
  have hlast : compound.own.getLast hne = part := by simp [h]
  rw [← hlast]
  exact Bool.eq_false_iff.2 (List.rdropWhile_last_not _ _ hne)

variable {compound} in
theorem kept_eq_nil (h : ¬ compound.isAnchored = true) : compound.kept = [] := by
  rw [isAnchored, Bool.or_eq_true, not_or] at h
  have htype : compound.type = none := by simpa using h.1
  have hown : compound.own = [] := by simpa using h.2
  rw [kept, typeText, htype, hown]
  rfl

/-- Whether the part that the attribute comes after has no white space at its end. -/
def isClosed : Bool :=
  match compound.own.getLast? with
  | some part => part.isClosed
  | none => compound.type.all SelectorName.isClosed

def isPlain : Bool :=
  compound.parts.all SimpleSelector.isPlain

end CompoundSelector

/-! ### Complex selectors -/

/-- White space, or a combinator with white space around it. -/
structure Combinator where
  text : List Char
  ne_nil : text ≠ []
  forall_mem : ∀ c ∈ text, isSpaceChar c || isCombinator c

/-- Compounds joined by combinators. -/
inductive ComplexSelector where
  | compound (last : CompoundSelector)
  | combine (left : ComplexSelector) (combinator : Combinator) (last : CompoundSelector)

namespace ComplexSelector

def text : ComplexSelector → List Char
  | compound last => last.text
  | combine left combinator last => left.text ++ (combinator.text ++ last.text)

/-- The last compound. -/
def last : ComplexSelector → CompoundSelector
  | compound last => last
  | combine _ _ last => last

/-- What stands in front of the last compound. -/
def front : ComplexSelector → List Char
  | compound _ => []
  | combine left combinator _ => left.text ++ combinator.text

/-- What stands before the attribute: everything up to the end of the last part that is no pseudo
class or element. -/
def before : ComplexSelector → List Char
  | compound last => last.kept
  | combine left combinator last =>
    if last.isAnchored then left.text ++ (combinator.text ++ last.kept) else left.before

/-- What stands after the attribute. -/
def after : ComplexSelector → List Char
  | compound last => last.trailing
  | combine left combinator last =>
    if last.isAnchored then last.trailing else left.after ++ (combinator.text ++ last.text)

theorem before_append_after : (s : ComplexSelector) → s.before ++ s.after = s.text
  | compound last => last.kept_append_trailing
  | combine left combinator last => by
    rw [before, after, text]
    split
    · rw [List.append_assoc, List.append_assoc, last.kept_append_trailing]
    · rw [← List.append_assoc, before_append_after left]

/-- Whether all names of pseudo classes and elements are spelled without escapes. -/
def isPlain : ComplexSelector → Bool
  | compound last => last.isPlain
  | combine left _ last => left.isPlain && last.isPlain

/-- Whether the part that the attribute comes after has no white space at its end, and no form feed
follows it outside names. -/
def isClosed : ComplexSelector → Bool
  | compound last => last.isClosed
  | combine left combinator last =>
    if last.isAnchored then last.isClosed else combinator.text.all isCombinator && left.isClosed

/-- The attribute comes into the last compound if that has a place for it, or if there is no other. -/
theorem before_eq {s : ComplexSelector} (h : s.last.isAnchored = true ∨ s.front = []) :
    s.before = s.front ++ s.last.kept ∧ s.after = s.last.trailing := by
  cases s with
  | compound last => exact ⟨rfl, rfl⟩
  | combine left combinator compound =>
    have hanchored : compound.isAnchored = true :=
      h.resolve_right fun hnil ↦ combinator.ne_nil (List.append_eq_nil_iff.1 hnil).2
    rw [before, after, if_pos hanchored, if_pos hanchored, front, List.append_assoc]
    exact ⟨rfl, rfl⟩

end ComplexSelector

end AppletBundle.Style
