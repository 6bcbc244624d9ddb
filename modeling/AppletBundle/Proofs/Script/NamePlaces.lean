import AppletBundle.Proofs.Script.Reannotation

/-!
# Where the names of a tree stand

`Node.StandsIn` says that all names in a part of a tree stand in a range of the source. Then so do
the names that it declares (`declaresIn_events`), and reading an expression again as a pattern moves
none of them (`standsIn_toTarget`, `standsIn_toBinding`).
-/

namespace AppletBundle.Script

/-- A name stands in a range. -/
def Binding.StandsIn (span : Span) (b : Binding) : Prop :=
  span.contains b.offset = true

namespace Node

/-- All names in a part of a tree stand in a range. -/
def StandsIn (span : Span) : Node → Prop
  | reference b => b.StandsIn span
  | binding b => b.StandsIn span
  | template _ values => ofList values
  | taggedTemplate tag _ values => tag.StandsIn span ∧ ofList values
  | array elements => ofList elements
  | spread argument => argument.StandsIn span
  | object properties => ofList properties
  | property key _ value => key.StandsIn span ∧ value.StandsIn span
  | shorthand b => b.StandsIn span
  | shorthandDefault b value => b.StandsIn span ∧ value.StandsIn span
  | function _ name _ _ params _ body =>
    (∀ b ∈ name, b.StandsIn span) ∧ ofList params ∧ ofList body
  | arrow _ params _ body => ofList params ∧ ofList body
  | arrowValue _ params value => ofList params ∧ value.StandsIn span
  | classNode _ decorators name superclass members =>
    ofList decorators ∧ (∀ b ∈ name, b.StandsIn span) ∧ ofOption superclass ∧ ofList members
  | method _ decorators _ key _ f => ofList decorators ∧ key.StandsIn span ∧ f.StandsIn span
  | field decorators _ _ key _ value => ofList decorators ∧ key.StandsIn span ∧ ofOption value
  | staticBlock body => ofList body
  | unary _ argument => argument.StandsIn span
  | update _ _ argument => argument.StandsIn span
  | binary _ left right => left.StandsIn span ∧ right.StandsIn span
  | privateIn _ right => right.StandsIn span
  | assign _ target value => target.StandsIn span ∧ value.StandsIn span
  | conditional test consequent alternate =>
    test.StandsIn span ∧ consequent.StandsIn span ∧ alternate.StandsIn span
  | sequence items => ofList items
  | paren inner => inner.StandsIn span
  | yield _ argument => ofOption argument
  | await argument => argument.StandsIn span
  | member target _ _ => target.StandsIn span
  | privateMember target _ _ => target.StandsIn span
  | index target key _ => target.StandsIn span ∧ key.StandsIn span
  | call callee arguments _ => callee.StandsIn span ∧ ofList arguments
  | new callee arguments => callee.StandsIn span ∧ ofList arguments
  | importCall arguments => ofList arguments
  | chain inner => inner.StandsIn span
  | arrayPattern elements => ofList elements
  | objectPattern properties => ofList properties
  | patternProperty key _ value => key.StandsIn span ∧ value.StandsIn span
  | patternShorthand target fallback => target.StandsIn span ∧ ofOption fallback
  | withDefault target value => target.StandsIn span ∧ value.StandsIn span
  | rest target => target.StandsIn span
  | element name attributes _ children =>
    name.StandsIn span ∧ ofList attributes ∧ ofList children
  | fragment children => ofList children
  | tagMember target _ => target.StandsIn span
  | tagAttribute _ value => ofOption value
  | attributeSpread argument => argument.StandsIn span
  | markupValue value => ofOption value
  | markupSpread argument => argument.StandsIn span
  | commented _ statement => statement.StandsIn span
  | variableList _ declarators => ofList declarators
  | declarator target value => target.StandsIn span ∧ ofOption value
  | expression value => value.StandsIn span
  | block body => ofList body
  | ifElse test consequent alternate =>
    test.StandsIn span ∧ consequent.StandsIn span ∧ ofOption alternate
  | forLoop init test step body =>
    ofOption init ∧ ofOption test ∧ ofOption step ∧ body.StandsIn span
  | forIn left right body => left.StandsIn span ∧ right.StandsIn span ∧ body.StandsIn span
  | forOf _ left right body => left.StandsIn span ∧ right.StandsIn span ∧ body.StandsIn span
  | .while test body => test.StandsIn span ∧ body.StandsIn span
  | doWhile body test => body.StandsIn span ∧ test.StandsIn span
  | .return value => ofOption value
  | throw value => value.StandsIn span
  | tryCatch body handler finalizer =>
    body.StandsIn span ∧ ofOption handler ∧ ofOption finalizer
  | catchClause param body => ofOption param ∧ ofList body
  | switch discriminant cases => discriminant.StandsIn span ∧ ofList cases
  | switchCase test body => ofOption test ∧ ofList body
  | labeled _ body => body.StandsIn span
  | withScope target body => target.StandsIn span ∧ body.StandsIn span
  | importFrom specifiers _ _ => ∀ s ∈ specifiers.getD [], s.binding.StandsIn span
  | exportDeclaration declaration => declaration.StandsIn span
  | exportDefault value => value.StandsIn span
  | _ => True
where
  /-- All names in parts stand in the range. -/
  ofList : List Node → Prop
    | [] => True
    | n :: ns => n.StandsIn span ∧ ofList ns
  /-- All names in a part that may be missing stand in the range. -/
  ofOption : Option Node → Prop
    | none => True
    | some n => n.StandsIn span

namespace StandsIn

variable {span : Span} {ns ms : List Node}

theorem ofList_iff : ofList span ns ↔ ∀ n ∈ ns, n.StandsIn span := by
  induction ns with
  | nil => simp [ofList]
  | cons n ns ih => rw [ofList, ih, List.forall_mem_cons]

theorem ofList_append : ofList span (ns ++ ms) ↔ ofList span ns ∧ ofList span ms := by
  simp only [ofList_iff, List.forall_mem_append]

end StandsIn

/-! ### What a tree declares -/

variable {span : Span}

theorem standsIn_bindings {n : Node} (h : n.StandsIn span) : ∀ b ∈ n.bindings, b.StandsIn span := by
  induction n using bindings.induct (fun ns ↦ StandsIn.ofList span ns →
    ∀ b ∈ bindings.ofList ns, b.StandsIn span) with
  | case1 b => exact fun c hc ↦ List.mem_singleton.1 hc ▸ h
  | case2 elements ih => exact ih h
  | case3 properties ih => exact ih h
  | case4 key computed value ih => exact ih h.2
  | case5 target fallback ih => exact ih h.1
  | case6 target value ih => exact ih h.1
  | case7 target ih => exact ih h
  | case8 target value ih => exact ih h.1
  | case9 kind declarators ih => exact ih h
  | case10 => exact fun b hb ↦ h.1 b (Option.mem_toList.1 hb)
  | case11 => exact fun b hb ↦ h.2.1 b (Option.mem_toList.1 hb)
  | case12 comments statement ih => exact ih h
  | case13 t =>
    intro b hb
    rw [bindings.eq_def] at hb
    split at hb <;> grind
  | case14 => exact absurd ‹_› List.not_mem_nil
  | case15 n ns ih ihs =>
    rename_i h b hb
    exact (List.mem_append.1 hb).elim (ih h.1 b) (ihs h.2 b)

theorem standsIn_bindings_ofList {ns : List Node} (h : StandsIn.ofList span ns) :
    ∀ b ∈ bindings.ofList ns, b.StandsIn span :=
  standsIn_bindings (n := arrayPattern ns) h

end Node

/-- What events declare stands in a range. -/
def DeclaresIn (span : Span) (es : List ScopeEvent) : Prop :=
  ∀ e ∈ es, e.standsIn span = true

namespace DeclaresIn

variable {span : Span} {es fs : List ScopeEvent} {e : ScopeEvent}

theorem nil : DeclaresIn span [] :=
  List.forall_mem_nil _

theorem append (he : DeclaresIn span es) (hf : DeclaresIn span fs) : DeclaresIn span (es ++ fs) :=
  List.forall_mem_append.2 ⟨he, hf⟩

theorem cons (he : e.standsIn span = true) (hes : DeclaresIn span es) : DeclaresIn span (e :: es) :=
  List.forall_mem_cons.2 ⟨he, hes⟩

theorem ite {c : Prop} [Decidable c] (h : DeclaresIn span es) :
    DeclaresIn span (if c then es else []) := by
  split
  · exact h
  · exact nil

theorem declareAll {kind : DeclarationKind} {bs : List Binding} (h : ∀ b ∈ bs, b.StandsIn span) :
    DeclaresIn span (declareAll kind bs) := by
  intro e he
  obtain ⟨b, hb, rfl⟩ := List.mem_map.1 he
  exact h b hb

theorem name {kind : DeclarationKind} {b : Option Binding} (h : ∀ c ∈ b, c.StandsIn span) :
    DeclaresIn span (Script.declareAll kind b.toList) :=
  declareAll fun c hc ↦ h c (Option.mem_toList.1 hc)

theorem declareCaught {param : Option Node} (h : Node.StandsIn.ofOption span param) :
    DeclaresIn span (declareCaught param) := by
  unfold Script.declareCaught
  split
  · exact nil
  · exact cons h nil
  · exact declareAll (Node.standsIn_bindings h)

theorem referAll (specifiers : List ExportSpecifier) :
    DeclaresIn span (specifiers.map fun s ↦ .refer s.localName.text) := by
  intro e he
  obtain ⟨s, -, rfl⟩ := List.mem_map.1 he
  rfl

end DeclaresIn

namespace Node

mutual

/-- **What a tree declares stands where its names stand.** -/
theorem declaresIn_events {span : Span} : (n : Node) → n.StandsIn span → DeclaresIn span n.events
  | reference _, _ => .cons rfl .nil
  | binding _, _ => .nil
  | propertyName _, _ => .nil
  | privateName _, _ => .nil
  | this, _ => .nil
  | super, _ => .nil
  | null, _ => .nil
  | bool _, _ => .nil
  | number _, _ => .nil
  | bigint _, _ => .nil
  | string _, _ => .nil
  | regex _, _ => .nil
  | template _ values, h => declaresIn_ofList values h
  | taggedTemplate tag _ values, h =>
    (tag.declaresIn_events h.1).append (declaresIn_ofList values h.2)
  | array elements, h => declaresIn_ofList elements h
  | hole, _ => .nil
  | spread argument, h => argument.declaresIn_events h
  | object properties, h => declaresIn_ofList properties h
  | property key _ value, h =>
    (DeclaresIn.ite (key.declaresIn_events h.1)).append (value.declaresIn_events h.2)
  | shorthand _, _ => .cons rfl .nil
  | shorthandDefault _ value, h => .cons rfl (value.declaresIn_events h.2)
  | function _ _ _ _ params _ body, h =>
    (((DeclaresIn.ite (.name h.1)).append (.cons rfl (.ite (.name h.1)))).append
      (.declareAll (standsIn_bindings_ofList h.2.1))).append (declaresIn_ofList params h.2.1)
        |>.append (.cons rfl (declaresIn_ofList body h.2.2)) |>.append (.cons rfl .nil)
  | arrow _ params _ body, h =>
    (DeclaresIn.cons rfl (.declareAll (standsIn_bindings_ofList h.1))).append
      (declaresIn_ofList params h.1) |>.append (.cons rfl (declaresIn_ofList body h.2))
        |>.append (.cons rfl .nil)
  | arrowValue _ params value, h =>
    (DeclaresIn.cons rfl (.declareAll (standsIn_bindings_ofList h.1))).append
      (declaresIn_ofList params h.1) |>.append (.cons rfl (value.declaresIn_events h.2))
        |>.append (.cons rfl .nil)
  | classNode _ decorators _ superclass members, h =>
    ((((declaresIn_ofList decorators h.1).append (.ite (.name h.2.1))).append
      (.cons rfl (.ite (.name h.2.1)))).append (declaresIn_ofOption superclass h.2.2.1)).append
        (declaresIn_ofList members h.2.2.2) |>.append (.cons rfl .nil)
  | method _ decorators _ key _ f, h =>
    ((declaresIn_ofList decorators h.1).append (.ite (key.declaresIn_events h.2.1))).append
      (f.declaresIn_events h.2.2)
  | field decorators _ _ key _ value, h =>
    ((declaresIn_ofList decorators h.1).append (.ite (key.declaresIn_events h.2.1))).append
      (declaresIn_ofOption value h.2.2)
  | staticBlock body, h =>
    (DeclaresIn.cons rfl (declaresIn_ofList body h)).append (.cons rfl .nil)
  | unary _ argument, h => argument.declaresIn_events h
  | update _ _ argument, h => argument.declaresIn_events h
  | binary _ left right, h => (left.declaresIn_events h.1).append (right.declaresIn_events h.2)
  | privateIn _ right, h => right.declaresIn_events h
  | assign _ target value, h => (target.declaresIn_events h.1).append (value.declaresIn_events h.2)
  | conditional test consequent alternate, h =>
    ((test.declaresIn_events h.1).append (consequent.declaresIn_events h.2.1)).append
      (alternate.declaresIn_events h.2.2)
  | sequence items, h => declaresIn_ofList items h
  | paren inner, h => inner.declaresIn_events h
  | yield _ argument, h => declaresIn_ofOption argument h
  | await argument, h => argument.declaresIn_events h
  | member target _ _, h => target.declaresIn_events h
  | privateMember target _ _, h => target.declaresIn_events h
  | index target key _, h => (target.declaresIn_events h.1).append (key.declaresIn_events h.2)
  | call callee arguments _, h =>
    (callee.declaresIn_events h.1).append (declaresIn_ofList arguments h.2)
  | new callee arguments, h =>
    (callee.declaresIn_events h.1).append (declaresIn_ofList arguments h.2)
  | importCall arguments, h => declaresIn_ofList arguments h
  | metaProperty _ _, _ => .nil
  | chain inner, h => inner.declaresIn_events h
  | arrayPattern elements, h => declaresIn_ofList elements h
  | objectPattern properties, h => declaresIn_ofList properties h
  | patternProperty key _ value, h =>
    (DeclaresIn.ite (key.declaresIn_events h.1)).append (value.declaresIn_events h.2)
  | patternShorthand target fallback, h =>
    (target.declaresIn_events h.1).append (declaresIn_ofOption fallback h.2)
  | withDefault target value, h =>
    (target.declaresIn_events h.1).append (value.declaresIn_events h.2)
  | rest target, h => target.declaresIn_events h
  | element name attributes _ children, h =>
    ((name.declaresIn_events h.1).append (declaresIn_ofList attributes h.2.1)).append
      (declaresIn_ofList children h.2.2)
  | fragment children, h => declaresIn_ofList children h
  | tagName _, _ => .nil
  | tagNamespaced _ _, _ => .nil
  | tagMember target _, h => target.declaresIn_events h
  | tagAttribute _ value, h => declaresIn_ofOption value h
  | attributeText _, _ => .nil
  | attributeSpread argument, h => argument.declaresIn_events h
  | markupText _, _ => .nil
  | markupValue value, h => declaresIn_ofOption value h
  | markupSpread argument, h => argument.declaresIn_events h
  | commented _ statement, h => statement.declaresIn_events h
  | closingComments _, _ => .nil
  | variableList _ declarators, h =>
    (DeclaresIn.declareAll (standsIn_bindings_ofList h)).append (declaresIn_ofList declarators h)
  | declarator target value, h =>
    (target.declaresIn_events h.1).append (declaresIn_ofOption value h.2)
  | expression value, h => value.declaresIn_events h
  | empty, _ => .nil
  | block body, h => (DeclaresIn.cons rfl (declaresIn_ofList body h)).append (.cons rfl .nil)
  | ifElse test consequent alternate, h =>
    ((test.declaresIn_events h.1).append (consequent.declaresIn_events h.2.1)).append
      (declaresIn_ofOption alternate h.2.2)
  | forLoop init test step body, h =>
    ((((DeclaresIn.cons rfl (declaresIn_ofOption init h.1)).append
      (declaresIn_ofOption test h.2.1)).append (declaresIn_ofOption step h.2.2.1)).append
        (body.declaresIn_events h.2.2.2)).append (.cons rfl .nil)
  | forIn left right body, h =>
    (((DeclaresIn.cons rfl (left.declaresIn_events h.1)).append
      (right.declaresIn_events h.2.1)).append (body.declaresIn_events h.2.2)).append
        (.cons rfl .nil)
  | forOf _ left right body, h =>
    (((DeclaresIn.cons rfl (left.declaresIn_events h.1)).append
      (right.declaresIn_events h.2.1)).append (body.declaresIn_events h.2.2)).append
        (.cons rfl .nil)
  | .while test body, h => (test.declaresIn_events h.1).append (body.declaresIn_events h.2)
  | doWhile body test, h => (body.declaresIn_events h.1).append (test.declaresIn_events h.2)
  | .continue _, _ => .nil
  | .break _, _ => .nil
  | .return value, h => declaresIn_ofOption value h
  | throw value, h => value.declaresIn_events h
  | tryCatch body handler finalizer, h =>
    ((body.declaresIn_events h.1).append (declaresIn_ofOption handler h.2.1)).append
      (declaresIn_ofOption finalizer h.2.2)
  | catchClause param body, h =>
    (((DeclaresIn.cons rfl (.declareCaught h.1)).append (declaresIn_ofOption param h.1)).append
      (.cons rfl (declaresIn_ofList body h.2))).append (.cons rfl (.cons rfl .nil))
  | switch discriminant cases, h =>
    ((discriminant.declaresIn_events h.1).append (.cons rfl (declaresIn_ofList cases h.2))).append
      (.cons rfl .nil)
  | switchCase test body, h => (declaresIn_ofOption test h.1).append (declaresIn_ofList body h.2)
  | labeled _ body, h => body.declaresIn_events h
  | debugger, _ => .nil
  | withScope target body, h => (target.declaresIn_events h.1).append (body.declaresIn_events h.2)
  | importFrom _ _ _, h => .declareAll (List.forall_mem_map.2 h)
  | exportAll _ _ _, _ => .nil
  | exportFrom _ _ _, _ => .nil
  | exportList specifiers, _ => .referAll specifiers
  | exportDeclaration declaration, h => declaration.declaresIn_events h
  | exportDefault value, h => value.declaresIn_events h

theorem declaresIn_ofList {span : Span} : (ns : List Node) → StandsIn.ofList span ns →
    DeclaresIn span (events.ofList ns)
  | [], _ => .nil
  | n :: ns, h => (n.declaresIn_events h.1).append (declaresIn_ofList ns h.2)

theorem declaresIn_ofOption {span : Span} : (o : Option Node) → StandsIn.ofOption span o →
    DeclaresIn span (events.ofOption o)
  | none, _ => .nil
  | some n, h => n.declaresIn_events h

end

/-! ### Expressions that become patterns -/

theorem standsIn_toTarget {span : Span} {n : Node} (h : n.StandsIn span) {r : Node × List ℕ}
    (hr : n.toTarget = some r) : r.1.StandsIn span := by
  induction n using fun motive ↦ toTarget.induct
      (fun ns ↦ StandsIn.ofList span ns → ∀ r, toTarget.ofElements ns = some r →
        StandsIn.ofList span r.1) motive
      (fun ns ↦ StandsIn.ofList span ns → ∀ r, toTarget.ofProperties ns = some r →
        StandsIn.ofList span r.1) generalizing r with
  | case1 => exact Option.some.inj hr ▸ h
  | case2 => exact Option.some.inj hr ▸ h
  | case3 => exact Option.some.inj hr ▸ h
  | case4 => exact Option.some.inj hr ▸ h
  | case5 => exact Option.some.inj hr ▸ h
  | case6 => exact Option.some.inj hr ▸ h
  | case7 inner hsimple =>
    rw [toTarget, if_pos hsimple] at hr
    exact Option.some.inj hr ▸ h
  | case8 inner hsimple =>
    rw [toTarget, if_neg hsimple] at hr
    cases hr
  | case9 elements ih =>
    obtain ⟨r', hr', rfl⟩ := Option.map_eq_some_iff.1 hr
    exact ih h r' hr'
  | case10 properties ih =>
    obtain ⟨r', hr', rfl⟩ := Option.map_eq_some_iff.1 hr
    exact ih h r' hr'
  | case11 t =>
    rw [toTarget.eq_def] at hr
    split at hr <;> grind
  | case12 =>
    rename_i h r hr
    exact Option.some.inj hr ▸ h
  | case13 argument ih =>
    rename_i h r hr
    obtain ⟨r', hr', rfl⟩ := Option.map_eq_some_iff.1 hr
    exact ⟨ih h.1 hr', trivial⟩
  | case14 ns ih =>
    rename_i h r hr
    obtain ⟨r', hr', rfl⟩ := Option.map_eq_some_iff.1 hr
    exact ⟨trivial, ih h.2 r' hr'⟩
  | case15 target value ns ih =>
    rename_i h r hr
    obtain ⟨r', hr', rfl⟩ := Option.map_eq_some_iff.1 hr
    exact ⟨h.1, ih h.2 r' hr'⟩
  | case16 n ns hspread hhole hassign t ds ts es hts ht ih ihs =>
    rename_i h r hr
    simp only [toTarget.ofElements, ht, hts] at hr
    obtain rfl := Option.some.inj hr
    exact ⟨ih h.1 ht, ihs h.2 _ hts⟩
  | case17 n ns hspread hhole hassign hnone ih ihs =>
    rename_i h r hr
    simp only [toTarget.ofElements] at hr
    cases hr
  | case18 =>
    rename_i h r hr
    exact Option.some.inj hr ▸ h
  | case19 argument hsimple =>
    rename_i h r hr
    rw [toTarget.ofProperties, if_pos hsimple] at hr
    exact Option.some.inj hr ▸ h
  | case20 argument hsimple =>
    rename_i h r hr
    rw [toTarget.ofProperties, if_neg hsimple] at hr
    cases hr
  | case21 key computed target value ns ih =>
    rename_i h r hr
    obtain ⟨r', hr', rfl⟩ := Option.map_eq_some_iff.1 hr
    exact ⟨h.1, ih h.2 r' hr'⟩
  | case22 key computed value ns hassign t ds ts es hts ht ih ihs =>
    rename_i h r hr
    simp only [toTarget.ofProperties, ht, hts] at hr
    obtain rfl := Option.some.inj hr
    exact ⟨⟨h.1.1, ih h.1.2 ht⟩, ihs h.2 _ hts⟩
  | case23 key computed value ns hassign hnone ih ihs =>
    rename_i h r hr
    simp only [toTarget.ofProperties] at hr
    cases hr
  | case24 b ns ih =>
    rename_i h r hr
    obtain ⟨r', hr', rfl⟩ := Option.map_eq_some_iff.1 hr
    exact ⟨⟨h.1, trivial⟩, ih h.2 r' hr'⟩
  | case25 b value ns ih =>
    rename_i h r hr
    obtain ⟨r', hr', rfl⟩ := Option.map_eq_some_iff.1 hr
    exact ⟨h.1, ih h.2 r' hr'⟩
  | case26 ns =>
    rename_i h r hr
    rw [toTarget.ofProperties.eq_def] at hr
    split at hr <;> grind

theorem standsIn_toTarget_ofElements {span : Span} {ns : List Node} (h : StandsIn.ofList span ns)
    {r : List Node × List ℕ} (hr : toTarget.ofElements ns = some r) : StandsIn.ofList span r.1 := by
  have harray : (array ns).toTarget = some (arrayPattern r.1, r.2) :=
    congrArg (Option.map _) hr
  exact standsIn_toTarget (n := array ns) h harray

theorem standsIn_toBinding {span : Span} {n p : Node} (h : n.StandsIn span)
    (hp : n.toBinding = some p) : p.StandsIn span := by
  induction n using toBinding.induct (fun ns ↦ StandsIn.ofList span ns → ∀ ps,
    toBinding.ofList ns = some ps → StandsIn.ofList span ps) generalizing p with
  | case1 => exact Option.some.inj hp ▸ h
  | case2 elements ih =>
    obtain ⟨ps, hps, rfl⟩ := Option.map_eq_some_iff.1 hp
    exact ih h ps hps
  | case3 properties ih =>
    obtain ⟨ps, hps, rfl⟩ := Option.map_eq_some_iff.1 hp
    exact ih h ps hps
  | case4 key computed value ih =>
    obtain ⟨q, hq, rfl⟩ := Option.map_eq_some_iff.1 hp
    exact ⟨h.1, ih h.2 hq⟩
  | case5 target fallback ih =>
    obtain ⟨q, hq, rfl⟩ := Option.map_eq_some_iff.1 hp
    exact ⟨ih h.1 hq, h.2⟩
  | case6 target value ih =>
    obtain ⟨q, hq, rfl⟩ := Option.map_eq_some_iff.1 hp
    exact ⟨ih h.1 hq, h.2⟩
  | case7 target ih =>
    obtain ⟨q, hq, rfl⟩ := Option.map_eq_some_iff.1 hp
    exact (ih h hq : q.StandsIn span)
  | case8 => exact Option.some.inj hp ▸ h
  | case9 n =>
    rw [toBinding.eq_def] at hp
    split at hp <;> grind
  | case10 =>
    rename_i h ps hps
    exact Option.some.inj hps ▸ h
  | case11 n ns q qs hqs hq ih ihs =>
    rename_i h ps hps
    simp only [toBinding.ofList, hq, hqs] at hps
    obtain rfl := Option.some.inj hps
    exact ⟨ih h.1 hq, ihs h.2 _ hqs⟩
  | case12 n ns hnone ih ihs =>
    rename_i h ps hps
    simp only [toBinding.ofList] at hps
    cases hps

theorem standsIn_toBinding_ofList {span : Span} {ns ps : List Node} (h : StandsIn.ofList span ns)
    (hps : toBinding.ofList ns = some ps) : StandsIn.ofList span ps :=
  standsIn_toBinding (n := arrayPattern ns) h (congrArg (Option.map _) hps)

end Node

end AppletBundle.Script
