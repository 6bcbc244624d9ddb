import AppletBundle.Script.Scope
import Mathlib.Data.List.Basic

/-!
# Nesting of scopes

The events of a part of a tree close every scope that they open and nothing else. `ScopeEvent.track`
follows the kinds of the open scopes through the events, and `nested_events` says that a whole part
leaves them as it finds them, whatever scopes are open around it. `moduleNames` lists the names that
events declare for the module as a whole: outside all scopes, or as a `var` that every open scope
lets pass.
-/

namespace AppletBundle.Script

/-- The kinds of the scopes that are open after an event, the innermost first; nothing if the event
is out of place. -/
def ScopeEvent.track (kinds : List ScopeKind) : ScopeEvent → Option (List ScopeKind)
  | .item => none
  | .enter kind => if kind = .root then none else some (kind :: kinds)
  | .adopt => if kinds.head? = some .block then some (.block :: kinds) else none
  | .leave => if kinds.isEmpty then none else some kinds.tail
  | .settle => if kinds.isEmpty then none else some kinds
  | .declare _ _ => some kinds
  | .refer _ => some kinds

/-- The kinds of the scopes that are open after events. -/
def trackAll (kinds : List ScopeKind) (es : List ScopeEvent) : Option (List ScopeKind) :=
  es.foldlM ScopeEvent.track kinds

/-- Events that leave the open scopes as they are. -/
def Nested (es : List ScopeEvent) : Prop :=
  ∀ kinds, trackAll kinds es = some kinds

/-- The name that an event declares for the module as a whole, if it does: outside all scopes, or as
a `var` in scopes that all let it pass. -/
def ScopeEvent.reaching? (kinds : List ScopeKind) : ScopeEvent → Option String
  | .declare kind b =>
    if kinds.isEmpty || (kind = .var && kinds.all fun k ↦ !k.holdsVars) then some b.name else none
  | _ => none

/-- The names that events declare for the module as a whole. -/
def moduleNames (kinds : List ScopeKind) : List ScopeEvent → List String
  | [] => []
  | e :: es => (e.reaching? kinds).toList ++ moduleNames ((e.track kinds).getD kinds) es

theorem trackAll_cons (kinds : List ScopeKind) (e : ScopeEvent) (es : List ScopeEvent) :
    trackAll kinds (e :: es) = (e.track kinds).bind fun k ↦ trackAll k es := rfl

theorem trackAll_append (kinds : List ScopeKind) (es fs : List ScopeEvent) :
    trackAll kinds (es ++ fs) = (trackAll kinds es).bind fun k ↦ trackAll k fs :=
  List.foldlM_append

/-! ### Nested events -/

/-- Events that open a scope of a kind and leave it open. -/
def Opens (kind : ScopeKind) (es : List ScopeEvent) : Prop :=
  ∀ kinds, trackAll kinds es = some (kind :: kinds)

namespace Nested

variable {es fs : List ScopeEvent}

theorem nil : Nested [] := fun _ ↦ rfl

theorem append (he : Nested es) (hf : Nested fs) : Nested (es ++ fs) := fun kinds ↦ by
  rw [trackAll_append, he, Option.bind_some, hf]

theorem refer (name : String) (h : Nested es) : Nested (.refer name :: es) := h

theorem ite {c : Prop} [Decidable c] (h : Nested es) : Nested (if c then es else []) := by
  split
  · exact h
  · exact nil

theorem declareAll (kind : DeclarationKind) (bs : List Binding) : Nested (declareAll kind bs) := by
  intro kinds
  induction bs with
  | nil => rfl
  | cons b bs ih => exact ih

theorem declareCaught (param : Option Node) : Nested (declareCaught param) := by
  unfold Script.declareCaught
  split
  · exact nil
  · exact declareAll .caught [_]
  · exact declareAll .lexical _

theorem referAll (specifiers : List ExportSpecifier) :
    Nested (specifiers.map fun s ↦ .refer s.localName.text) := by
  intro kinds
  induction specifiers with
  | nil => rfl
  | cons s specifiers ih => exact ih

theorem append_opens {kind : ScopeKind} (he : Nested es) (hf : Opens kind fs) :
    Opens kind (es ++ fs) := fun kinds ↦ by
  rw [trackAll_append, he, Option.bind_some, hf]

end Nested

namespace Opens

variable {kind : ScopeKind} {es fs : List ScopeEvent}

theorem function (h : Nested es) : Opens .function (.enter .function :: es) := fun _ ↦ h _

theorem staticBlock (h : Nested es) : Opens .staticBlock (.enter .staticBlock :: es) :=
  fun _ ↦ h _

theorem block (h : Nested es) : Opens .block (.enter .block :: es) := fun _ ↦ h _

theorem append (he : Opens kind es) (hf : Nested fs) : Opens kind (es ++ fs) := fun kinds ↦ by
  rw [trackAll_append, he, Option.bind_some, hf]

theorem settle (he : Opens kind es) (hf : Nested fs) : Opens kind (es ++ .settle :: fs) :=
  fun kinds ↦ by
    rw [trackAll_append, he, Option.bind_some, trackAll_cons]
    exact hf _

theorem leave (he : Opens kind es) : Nested (es ++ [.leave]) := fun kinds ↦ by
  rw [trackAll_append, he]
  rfl

theorem adopt (he : Opens .block es) (hf : Nested fs) :
    Nested (es ++ .adopt :: fs ++ [.leave, .leave]) := fun kinds ↦ by
  rw [trackAll_append, trackAll_append, he, Option.bind_some, trackAll_cons]
  change ((trackAll (.block :: .block :: kinds) fs).bind fun k ↦ trackAll k [.leave, .leave]) = _
  rw [hf]
  rfl

end Opens

namespace Node

mutual

/-- **The events of every part of a tree are nested.** -/
theorem nested_events : (n : Node) → Nested n.events
  | reference b => Nested.nil.refer b.name
  | binding _ => .nil
  | propertyName _ => .nil
  | privateName _ => .nil
  | this => .nil
  | super => .nil
  | null => .nil
  | bool _ => .nil
  | number _ => .nil
  | bigint _ => .nil
  | string _ => .nil
  | regex _ => .nil
  | template _ values => nested_ofList values
  | taggedTemplate tag _ values => tag.nested_events.append (nested_ofList values)
  | array elements => nested_ofList elements
  | hole => .nil
  | spread argument => argument.nested_events
  | object properties => nested_ofList properties
  | property key _ value => (Nested.ite key.nested_events).append value.nested_events
  | shorthand b => Nested.nil.refer b.name
  | shorthandDefault b value => value.nested_events.refer b.name
  | function _ name _ _ params _ body =>
    ((((Nested.ite (.declareAll .function name.toList)).append_opens
      (.function (.ite (.declareAll .ownName name.toList)))).append
        (.declareAll .parameter (bindings.ofList params))).append
          (nested_ofList params)).settle (nested_ofList body) |>.leave
  | arrow _ params _ body =>
    ((Opens.function (.declareAll .parameter (bindings.ofList params))).append
      (nested_ofList params)).settle (nested_ofList body) |>.leave
  | arrowValue _ params value =>
    ((Opens.function (.declareAll .parameter (bindings.ofList params))).append
      (nested_ofList params)).settle value.nested_events |>.leave
  | classNode _ decorators name superclass members =>
    ((((nested_ofList decorators).append (.ite (.declareAll .classKind name.toList))).append_opens
      (.block (.ite (.declareAll .ownName name.toList)))).append
        (nested_ofOption superclass)).append (nested_ofList members) |>.leave
  | method _ decorators _ key _ f =>
    ((nested_ofList decorators).append (.ite key.nested_events)).append f.nested_events
  | field decorators _ _ key _ value =>
    ((nested_ofList decorators).append (.ite key.nested_events)).append (nested_ofOption value)
  | staticBlock body => (Opens.staticBlock (nested_ofList body)).leave
  | unary _ argument => argument.nested_events
  | update _ _ argument => argument.nested_events
  | binary _ left right => left.nested_events.append right.nested_events
  | privateIn _ right => right.nested_events
  | assign _ target value => target.nested_events.append value.nested_events
  | conditional test consequent alternate =>
    (test.nested_events.append consequent.nested_events).append alternate.nested_events
  | sequence items => nested_ofList items
  | paren inner => inner.nested_events
  | yield _ argument => nested_ofOption argument
  | await argument => argument.nested_events
  | member target _ _ => target.nested_events
  | privateMember target _ _ => target.nested_events
  | index target key _ => target.nested_events.append key.nested_events
  | call callee arguments _ => callee.nested_events.append (nested_ofList arguments)
  | new callee arguments => callee.nested_events.append (nested_ofList arguments)
  | importCall arguments => nested_ofList arguments
  | metaProperty _ _ => .nil
  | chain inner => inner.nested_events
  | arrayPattern elements => nested_ofList elements
  | objectPattern properties => nested_ofList properties
  | patternProperty key _ value => (Nested.ite key.nested_events).append value.nested_events
  | patternShorthand target fallback => target.nested_events.append (nested_ofOption fallback)
  | withDefault target value => target.nested_events.append value.nested_events
  | rest target => target.nested_events
  | element name attributes _ children =>
    (name.nested_events.append (nested_ofList attributes)).append (nested_ofList children)
  | fragment children => nested_ofList children
  | tagName _ => .nil
  | tagNamespaced _ _ => .nil
  | tagMember target _ => target.nested_events
  | tagAttribute _ value => nested_ofOption value
  | attributeText _ => .nil
  | attributeSpread argument => argument.nested_events
  | markupText _ => .nil
  | markupValue value => nested_ofOption value
  | markupSpread argument => argument.nested_events
  | commented _ statement => statement.nested_events
  | closingComments _ => .nil
  | variableList kind declarators =>
    (Nested.declareAll kind.declarationKind (bindings.ofList declarators)).append
      (nested_ofList declarators)
  | declarator target value => target.nested_events.append (nested_ofOption value)
  | expression value => value.nested_events
  | empty => .nil
  | block body => (Opens.block (nested_ofList body)).leave
  | ifElse test consequent alternate =>
    (test.nested_events.append consequent.nested_events).append (nested_ofOption alternate)
  | forLoop init test step body =>
    ((((Opens.block (nested_ofOption init)).append (nested_ofOption test)).append
      (nested_ofOption step)).append body.nested_events).leave
  | forIn left right body =>
    (((Opens.block left.nested_events).append right.nested_events).append body.nested_events).leave
  | forOf _ left right body =>
    (((Opens.block left.nested_events).append right.nested_events).append body.nested_events).leave
  | .while test body => test.nested_events.append body.nested_events
  | doWhile body test => body.nested_events.append test.nested_events
  | .continue _ => .nil
  | .break _ => .nil
  | .return value => nested_ofOption value
  | throw value => value.nested_events
  | tryCatch body handler finalizer =>
    (body.nested_events.append (nested_ofOption handler)).append (nested_ofOption finalizer)
  | catchClause param body =>
    ((Opens.block (.declareCaught param)).append (nested_ofOption param)).adopt (nested_ofList body)
  | switch discriminant cases =>
    (discriminant.nested_events.append_opens (.block (nested_ofList cases))).leave
  | switchCase test body => (nested_ofOption test).append (nested_ofList body)
  | labeled _ body => body.nested_events
  | debugger => .nil
  | withScope target body => target.nested_events.append body.nested_events
  | importFrom specifiers _ _ =>
    .declareAll .imported ((specifiers.getD []).map ImportSpecifier.binding)
  | exportAll _ _ _ => .nil
  | exportFrom _ _ _ => .nil
  | exportList specifiers => .referAll specifiers
  | exportDeclaration declaration => declaration.nested_events
  | exportDefault value => value.nested_events

theorem nested_ofList : (ns : List Node) → Nested (events.ofList ns)
  | [] => .nil
  | n :: ns => n.nested_events.append (nested_ofList ns)

theorem nested_ofOption : (o : Option Node) → Nested (events.ofOption o)
  | none => .nil
  | some n => n.nested_events

end

end Node

/-! ### Events in place -/

/-- The open scopes, the root among them, are enough for an event. -/
inductive InPlace (scopes : List OpenScope) : ScopeEvent → Prop
  | enter (kind : ScopeKind) (s : OpenScope) (outer : List OpenScope) :
    kind ≠ .root → scopes = s :: outer → InPlace scopes (.enter kind)
  | adopt (s o : OpenScope) (more : List OpenScope) :
    s.kind = .block → scopes = s :: o :: more → InPlace scopes .adopt
  | leave (s o : OpenScope) (more : List OpenScope) :
    scopes = s :: o :: more → InPlace scopes .leave
  | settle (s o : OpenScope) (more : List OpenScope) :
    scopes = s :: o :: more → InPlace scopes .settle
  | declare (kind : DeclarationKind) (b : Binding) (s : OpenScope) (outer : List OpenScope) :
    scopes = s :: outer → InPlace scopes (.declare kind b)
  | refer (name : String) (s : OpenScope) (outer : List OpenScope) :
    scopes = s :: outer → InPlace scopes (.refer name)

theorem exists_eq_cons_of_map_kind {scopes : List OpenScope} {kinds : List ScopeKind}
    (hk : scopes.map OpenScope.kind = kinds ++ [.root]) : ∃ s outer, scopes = s :: outer := by
  cases scopes with
  | nil => simp at hk
  | cons s outer => exact ⟨s, outer, rfl⟩

theorem exists_eq_cons_cons_of_map_kind {scopes : List OpenScope} {k : ScopeKind}
    {kinds : List ScopeKind} (hk : scopes.map OpenScope.kind = k :: kinds ++ [.root]) :
    ∃ s o more, scopes = s :: o :: more ∧ s.kind = k := by
  obtain ⟨s, outer, rfl, hs, houter⟩ := List.map_eq_cons_iff.1 hk
  obtain ⟨o, more, rfl⟩ := exists_eq_cons_of_map_kind houter
  exact ⟨s, o, more, rfl, hs⟩

/-- An event that the kinds of the open scopes admit is in place. -/
theorem inPlace_of_track {scopes : List OpenScope} {kinds kinds' : List ScopeKind} {e : ScopeEvent}
    (hk : scopes.map OpenScope.kind = kinds ++ [.root]) (ht : e.track kinds = some kinds') :
    InPlace scopes e := by
  obtain ⟨s, outer, hs⟩ := exists_eq_cons_of_map_kind hk
  cases e with
  | item => cases ht
  | enter kind =>
    simp only [ScopeEvent.track] at ht
    split at ht
    · cases ht
    · exact .enter kind s outer ‹_› hs
  | adopt =>
    cases kinds with
    | nil => cases ht
    | cons k kinds =>
      obtain ⟨s, o, more, hs, hkind⟩ := exists_eq_cons_cons_of_map_kind hk
      by_cases hb : k = .block
      · exact .adopt s o more (hkind.trans hb) hs
      · simp [ScopeEvent.track, hb] at ht
  | leave =>
    cases kinds with
    | nil => cases ht
    | cons k kinds =>
      obtain ⟨s, o, more, hs, -⟩ := exists_eq_cons_cons_of_map_kind hk
      exact .leave s o more hs
  | settle =>
    cases kinds with
    | nil => cases ht
    | cons k kinds =>
      obtain ⟨s, o, more, hs, -⟩ := exists_eq_cons_cons_of_map_kind hk
      exact .settle s o more hs
  | declare kind b => exact .declare kind b s outer hs
  | refer name => exact .refer name s outer hs

end AppletBundle.Script
