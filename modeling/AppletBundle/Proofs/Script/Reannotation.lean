import AppletBundle.Proofs.Script.Exports
import AppletBundle.Proofs.Script.ItemScopes
import AppletBundle.Proofs.Script.Selection
import AppletBundle.Script.Assembly
import Mathlib.Data.List.Forall2

/-!
# Annotating an assembled text

The text that is assembled from a selection can be annotated again. If the parser reads it statement
by statement as it was put together, every statement declares and uses the names that it declared
and used before.

* `Program.Placed` is what a parser promises about places: items stand one after the other and hold
  their declarations. The parser keeps the promise for every source (`placed_of_parseScript`).
* `exists_statement_of_placed` says what annotation makes of an item that stands among others: what
  it makes of the item alone.
* `ReadsBack` is the condition on the assembled text. It fails where the end of a statement depends
  on what follows, and something else follows in the assembled text.

The main result is `annotate_assembled`.
-/

namespace AppletBundle.Script

/-! ### Where items stand -/

/-- What an event declares stands in a range. -/
def ScopeEvent.standsIn (span : Span) : ScopeEvent → Bool
  | .declare _ b => span.contains b.offset
  | _ => true

/-- The items of a program stand one after the other, and each holds its declarations. -/
structure Program.Placed (p : Program) : Prop where
  ordered : (p.items.map Item.span).Pairwise fun s t ↦ s.stop ≤ t.start
  proper : ∀ item ∈ p.items, item.start ≤ item.stop
  inside : ∀ item ∈ p.items, ∀ e ∈ item.node.events, e.standsIn item.span = true

/-- What happens to names in each item. -/
def Program.itemEvents (p : Program) : List (List ScopeEvent) :=
  p.items.map fun item ↦ item.node.events

/-- No name is declared for the module by two items. -/
def Program.Separate (p : Program) : Prop :=
  Scoping.Separate p.itemEvents

instance (p : Program) : Decidable p.Placed :=
  decidable_of_iff ((p.items.map Item.span).Pairwise (fun s t ↦ s.stop ≤ t.start) ∧
      (∀ item ∈ p.items, item.start ≤ item.stop) ∧
      ∀ item ∈ p.items, ∀ e ∈ item.node.events, e.standsIn item.span = true)
    ⟨fun h ↦ ⟨h.1, h.2.1, h.2.2⟩, fun h ↦ ⟨h.ordered, h.proper, h.inside⟩⟩

instance (p : Program) : Decidable p.Separate :=
  inferInstanceAs (Decidable (List.Pairwise _ _))

theorem Program.events_eq (p : Program) :
    p.events = p.itemEvents.flatMap fun es ↦ .item :: es := by
  rw [Program.events, Program.itemEvents, List.flatMap_map]

theorem Program.nested_itemEvents (p : Program) : ∀ es ∈ p.itemEvents, Nested es := by
  intro es hes
  obtain ⟨item, -, rfl⟩ := List.mem_map.1 hes
  exact item.node.nested_events

theorem containingStatement?_eq_some {spans : List Span} {i : ℕ} {s : Span} {offset : ℕ}
    (hordered : spans.Pairwise fun s t ↦ s.stop ≤ t.start) (hproper : ∀ t ∈ spans, t.start ≤ t.stop)
    (hi : spans[i]? = some s) (hs : s.contains offset = true) :
    containingStatement? spans offset = some i := by
  obtain ⟨hlt, rfl⟩ := List.getElem?_eq_some_iff.1 hi
  have hstart : spans[i].start ≤ offset ∧ offset < spans[i].stop := by
    simpa [Span.contains] using hs
  have hsplit : spans = spans.take i ++ spans[i] :: spans.drop (i + 1) := by
    rw [← List.drop_eq_getElem_cons hlt, List.take_append_drop]
  -- The ranges up to this one start before the offset, and the next one does not.
  have hbefore : ∀ t ∈ spans.take i, decide (t.start ≤ offset) = true := by
    intro t ht
    rw [hsplit, List.pairwise_append] at hordered
    have hle := hordered.2.2 t ht _ List.mem_cons_self
    have hle' := hproper t (List.mem_of_mem_take ht)
    exact decide_eq_true (by omega)
  have hafter : (spans.drop (i + 1)).takeWhile (fun t ↦ t.start ≤ offset) = [] := by
    rw [hsplit, List.pairwise_append, List.pairwise_cons] at hordered
    cases hdrop : spans.drop (i + 1) with
    | nil => rfl
    | cons t rest =>
      have hle := hordered.2.1.1 t (by rw [hdrop]; exact List.mem_cons_self)
      rw [List.takeWhile_cons, if_neg]
      simp only [decide_eq_true_eq]
      omega
  have hcount : (spans.takeWhile fun t ↦ t.start ≤ offset).length = i + 1 := by
    conv_lhs => rw [hsplit]
    rw [List.takeWhile_append_of_pos hbefore, List.takeWhile_cons,
      if_pos (decide_eq_true hstart.1), hafter, List.length_append, List.length_take,
      Nat.min_eq_left hlt.le]
    rfl
  rw [containingStatement?]
  simp only [hcount, hi, Option.any_some, hs, if_true]

/-! ### Statements of items -/

section placed

variable {p : Program}

theorem getElem?_itemEvents {i : ℕ} {item : Item} (hi : p.items[i]? = some item) :
    p.itemEvents[i]? = some item.node.events := by
  rw [Program.itemEvents, List.getElem?_map, hi]
  rfl

/-- What an item declares stands in the statement of the item. -/
theorem Program.Placed.containingStatement?_eq (hplaced : p.Placed) {i : ℕ} {item : Item}
    (hi : p.items[i]? = some item) {kind : DeclarationKind} {b : Binding}
    (hb : .declare kind b ∈ item.node.events) :
    containingStatement? (p.items.map Item.span) b.offset = some i := by
  have hproper : ∀ t ∈ p.items.map Item.span, t.start ≤ t.stop := by
    intro t ht
    obtain ⟨item, hitem, rfl⟩ := List.mem_map.1 ht
    exact hplaced.proper item hitem
  refine containingStatement?_eq_some hplaced.ordered hproper (s := item.span) ?_ ?_
  · rw [List.getElem?_map, hi]
    rfl
  · exact hplaced.inside item (List.mem_of_getElem? hi) _ hb

/-- The names of the module whose declaration an item holds are those that it declares alone. -/
theorem exists_rootBinding_iff (hplaced : p.Placed) (hsep : p.Separate) {i : ℕ} {item : Item}
    (hi : p.items[i]? = some item) (name : String) :
    (∃ b ∈ (Scoping.ofEvents p.events).rootBindings,
        containingStatement? (p.items.map Item.span) b.offset = some i ∧ b.name = name) ↔
      name ∈ Scoping.namesDeclared item.node.events := by
  -- A name of the module is held by the item that declares it when it stands alone.
  have hholder : ∀ j item', p.items[j]? = some item' →
      ∀ b ∈ (Scoping.alone item'.node.events).rootBindings,
        containingStatement? (p.items.map Item.span) b.offset = some j := by
    intro j item' hj b hb
    obtain ⟨kind, c, hc, hoffset⟩ :=
      Scoping.exists_declare_of_mem_rootBindings item'.node.nested_events hb
    exact hoffset ▸ hplaced.containingStatement?_eq hj hc
  rw [p.events_eq, Scoping.rootBindings_ofEvents p.nested_itemEvents hsep, Scoping.namesDeclared]
  constructor
  · rintro ⟨b, hb, hcontain, rfl⟩
    obtain ⟨es, hes, hb⟩ := List.mem_flatMap.1 hb
    obtain ⟨item', hitem', rfl⟩ := List.mem_map.1 hes
    obtain ⟨j, hj⟩ := List.mem_iff_getElem?.1 hitem'
    rw [hholder j item' hj b hb] at hcontain
    obtain rfl := Option.some.inj hcontain
    obtain rfl := Option.some.inj (hi.symm.trans hj)
    exact List.mem_map_of_mem hb
  · intro hname
    obtain ⟨b, hb, rfl⟩ := List.mem_map.1 hname
    exact ⟨b, List.mem_flatMap.2 ⟨_, List.mem_of_getElem? (getElem?_itemEvents hi), hb⟩,
      hholder i item hi b hb, rfl⟩

/-- The module of a program. -/
def Program.annotated (p : Program) (path : Path) (source : String) : ScriptModule :=
  .ofProgram path source p (Scoping.ofEvents p.events)

/-- **Annotation goes item by item**: the statement of an item declares and uses the names that the
item declares and uses alone, and the default binding if it is a default export of a value. -/
theorem exists_statement_of_placed (path : Path) (source : String) (hplaced : p.Placed)
    (hsep : p.Separate) {i : ℕ} {item : Item} (hi : p.items[i]? = some item) :
    ∃ s, (p.annotated path source).statements[i]? = some s ∧
      s.kind = (item.node.classify item.innerStart).1 ∧
      (∀ name, name ∈ s.depends.toList ↔ name ∈ Scoping.namesUsed item.node.events) ∧
      ∀ name, name ∈ s.defines.toList ↔
        s.kind ≠ .importLink ∧ name ∈ Scoping.namesDeclared item.node.events ∨
        (∃ start, s.kind = .defaultExpression start) ∧
          name = (p.annotated path source).defaultBinding := by
  obtain ⟨s, hs, hkind, -, hdepends, hdefines⟩ :=
    ScriptModule.exists_statement_ofProgram path source p (Scoping.ofEvents p.events) hi
  refine ⟨s, hs, hkind, fun name ↦ ?_, fun name ↦ ?_⟩
  · rw [hdepends, OrderedSet.mem_ofList, p.events_eq,
      Scoping.freeNames_ofEvents p.nested_itemEvents hsep (getElem?_itemEvents hi)]
  · rw [hdefines, exists_rootBinding_iff hplaced hsep hi]
    rfl

end placed

/-! ### Reading an assembled text -/

deriving instance DecidableEq for ScopeEvent

/-- Events without the places where they happen. -/
def unplaced (es : List ScopeEvent) : List ScopeEvent :=
  es.map (ScopeEvent.moved fun _ ↦ 0)

/-- An item of an assembled text is read as the item that it comes from: with the same names at
other places, and with a declaration of the default binding in front if that is a default export of
a value. -/
def ReadsAs (defaultName : String) (item item' : Item) : Prop :=
  (item'.node.classify item'.innerStart).1 = .plain ∧
    unplaced item'.node.events =
      (if item.IsDefaultValue then [.declare .lexical ⟨defaultName, 0⟩] else []) ++
        unplaced item.node.events

/-- An assembled text is read item by item as the items at some positions. -/
def ReadsBack (defaultName : String) (p p' : Program) (positions : List ℕ) : Prop :=
  List.Forall₂ (fun i item' ↦ ∃ item ∈ p.items[i]?, ReadsAs defaultName item item') positions
    p'.items

instance (defaultName : String) (item item' : Item) : Decidable (ReadsAs defaultName item item') :=
  inferInstanceAs (Decidable (_ ∧ _))

instance (defaultName : String) (p p' : Program) (positions : List ℕ) :
    Decidable (ReadsBack defaultName p p' positions) :=
  inferInstanceAs (Decidable (List.Forall₂ _ _ _))

/-- What the scopes of an item that is read back come to, compared with the item it comes from. -/
structure SameScopes (defaultName : String) (item item' : Item) : Prop where
  used : Scoping.namesUsed item'.node.events = Scoping.namesUsed item.node.events
  declared : ∀ name, name ∈ Scoping.namesDeclared item'.node.events ↔
    name ∈ Scoping.namesDeclared item.node.events ∨ item.IsDefaultValue ∧ name = defaultName
  clash : (Scoping.alone item'.node.events).clash = (Scoping.alone item.node.events).clash

namespace ReadsAs

variable {defaultName : String} {item item' : Item}

theorem sameScopes (h : ReadsAs defaultName item item')
    (hd : defaultName ∉ moduleNames [] item.node.events) : SameScopes defaultName item item' := by
  have hes := item.node.nested_events
  have hes' := item'.node.nested_events
  have hevents := h.2
  have hused := Scoping.namesUsed_map_moved (fun _ ↦ 0) hes'
  have hdeclared := Scoping.namesDeclared_map_moved (fun _ ↦ 0) hes'
  have hclash := Scoping.clash_map_moved (fun _ ↦ 0) hes'
  rw [← unplaced, hevents] at hused hdeclared hclash
  by_cases hdefault : item.IsDefaultValue
  · rw [if_pos hdefault, List.singleton_append] at hused hdeclared hclash
    refine ⟨?_, fun name ↦ ?_, ?_⟩
    · rw [← hused]
      exact Scoping.namesUsed_declare_cons _ hes hd
    · rw [← hdeclared, unplaced, Scoping.namesDeclared_declare_cons _ hes hd, List.mem_cons]
      simp [hdefault, or_comm]
    · rw [← hclash]
      exact Scoping.clash_declare_cons _ hes hd
  · rw [if_neg hdefault, List.nil_append] at hused hdeclared hclash
    refine ⟨?_, fun name ↦ ?_, ?_⟩
    · rw [← hused]
      exact Scoping.namesUsed_map_moved _ hes
    · rw [← hdeclared, unplaced, Scoping.namesDeclared_map_moved _ hes]
      simp [hdefault]
    · rw [← hclash]
      exact Scoping.clash_map_moved _ hes

theorem mem_moduleNames (h : ReadsAs defaultName item item') {name : String}
    (hn : name ∈ moduleNames [] item'.node.events) :
    name ∈ moduleNames [] item.node.events ∨ item.IsDefaultValue ∧ name = defaultName := by
  rw [← moduleNames_map_moved fun _ ↦ 0, ← unplaced, h.2] at hn
  by_cases hdefault : item.IsDefaultValue
  · rw [if_pos hdefault, List.singleton_append] at hn
    rcases List.mem_cons.1 hn with rfl | hn
    · exact Or.inr ⟨hdefault, rfl⟩
    · change name ∈ moduleNames [] (item.node.events.map _) at hn
      exact Or.inl (by rwa [moduleNames_map_moved] at hn)
  · rw [if_neg hdefault, List.nil_append, unplaced, moduleNames_map_moved] at hn
    exact Or.inl hn

end ReadsAs

namespace ReadsBack

variable {defaultName : String} {p p' : Program} {positions : List ℕ}

theorem exists_item (h : ReadsBack defaultName p p' positions) {j i : ℕ}
    (hj : positions[j]? = some i) :
    ∃ item item', p.items[i]? = some item ∧ p'.items[j]? = some item' ∧
      ReadsAs defaultName item item' := by
  obtain ⟨hlt, rfl⟩ := List.getElem?_eq_some_iff.1 hj
  have hlt' : j < p'.items.length := h.length_eq ▸ hlt
  obtain ⟨item, hi, hread⟩ := h.get hlt hlt'
  exact ⟨item, p'.items[j], hi, List.getElem?_eq_getElem hlt', hread⟩

theorem exists_position (h : ReadsBack defaultName p p' positions) {j : ℕ} {item' : Item}
    (hj : p'.items[j]? = some item') :
    ∃ i item, positions[j]? = some i ∧ p.items[i]? = some item ∧
      ReadsAs defaultName item item' := by
  obtain ⟨hlt, rfl⟩ := List.getElem?_eq_some_iff.1 hj
  have hlt' : j < positions.length := h.length_eq.symm ▸ hlt
  obtain ⟨item, hi, hread⟩ := h.get hlt' hlt
  exact ⟨positions[j], item, List.getElem?_eq_getElem hlt', hi, hread⟩

/-- What is read back is separate if it was, and the default binding is new. -/
theorem separate (h : ReadsBack defaultName p p' positions) (hasc : positions.Pairwise (· < ·))
    (hsep : p.Separate)
    (hdefaults : p.items.Pairwise fun a b ↦ ¬ (a.IsDefaultValue ∧ b.IsDefaultValue))
    (hd : ∀ i ∈ positions, ∀ item ∈ p.items[i]?,
      defaultName ∉ moduleNames [] item.node.events) :
    p'.Separate := by
  rw [Program.Separate, Scoping.Separate, Program.itemEvents, List.pairwise_map] at hsep ⊢
  rw [List.pairwise_iff_getElem] at hsep hdefaults hasc ⊢
  intro j k hj hk hjk name hnj hnk
  obtain ⟨i, item, hi, hitem, hread⟩ := h.exists_position (List.getElem?_eq_getElem hj)
  obtain ⟨l, item', hl, hitem', hread'⟩ := h.exists_position (List.getElem?_eq_getElem hk)
  obtain ⟨hjp, rfl⟩ := List.getElem?_eq_some_iff.1 hi
  obtain ⟨hkp, rfl⟩ := List.getElem?_eq_some_iff.1 hl
  have hnew := hd _ (List.getElem_mem hjp) item hitem
  have hnew' := hd _ (List.getElem_mem hkp) item' hitem'
  have hlt := hasc j k hjp hkp hjk
  obtain ⟨hilt, rfl⟩ := List.getElem?_eq_some_iff.1 hitem
  obtain ⟨hilt', rfl⟩ := List.getElem?_eq_some_iff.1 hitem'
  -- Both names are those of the items in the source or the default binding.
  rcases hread.mem_moduleNames hnj with hnj | ⟨hdj, rfl⟩
  · rcases hread'.mem_moduleNames hnk with hnk | ⟨-, rfl⟩
    · exact hsep _ _ hilt hilt' hlt name hnj hnk
    · exact hnew hnj
  · rcases hread'.mem_moduleNames hnk with hnk | ⟨hdk, -⟩
    · exact hnew' hnk
    · exact hdefaults _ _ hilt hilt' hlt ⟨hdj, hdk⟩

end ReadsBack

/-! ### Annotating again -/

namespace ScriptModule

theorem annotate_eq_ok_iff {path : Path} {source : String} {m : ScriptModule} {p : Program}
    (hp : parseScript source = .ok p) :
    annotate path source = .ok m ↔
      (Scoping.ofEvents p.events).clash = false ∧ m = p.annotated path source := by
  simp only [annotate, hp]
  split
  · rename_i hclash
    exact ⟨fun h ↦ (by cases h), fun h ↦ absurd (hclash.symm.trans h.1) (by simp)⟩
  · rename_i hclash
    refine ⟨fun h ↦ ⟨eq_false_of_ne_true hclash, ?_⟩, fun h ↦ congrArg Except.ok h.2.symm⟩
    cases h
    rfl

theorem clash_eq_false_iff {p : Program} (hsep : p.Separate) :
    (Scoping.ofEvents p.events).clash = false ↔
      ∀ item ∈ p.items, (Scoping.alone item.node.events).clash = false := by
  rw [p.events_eq, Scoping.clash_ofEvents p.nested_itemEvents hsep, List.any_eq_false]
  simp [Program.itemEvents]

theorem length_statements_annotated (p : Program) (path : Path) (source : String) :
    (p.annotated path source).statements.length = p.items.length := by
  have h := congrArg List.length (outlines_ofProgram path source p (Scoping.ofEvents p.events))
  rw [outlines, List.length_map, List.length_map, List.length_zipIdx] at h
  exact h

/-- The text that is assembled from the statements at some positions, and how it is read. -/
structure ReadsAssembled (m : ScriptModule) (p : Program) (positions : List ℕ) (text : String)
    (p' : Program) : Prop where
  assembled : m.assemble? positions = some text
  parsed : parseScript text = .ok p'
  placed : p'.Placed
  readsBack : ReadsBack m.defaultBinding p p' positions

/-- The program of a source, or an empty one. -/
def programOf (source : String) : Program :=
  (parseScript source).toOption.getD ⟨none, [], [], []⟩

theorem parseScript_eq_ok {source : String} (h : (parseScript source).toOption.isSome = true) :
    parseScript source = .ok (programOf source) := by
  rw [programOf]
  cases hp : parseScript source with
  | error e => simp [hp, Except.toOption] at h
  | ok p => rfl

/-- An exported variable, an import, a default export and a call. -/
def callSource : String :=
  "export let a = f;\nimport './x'\nexport default (a);\nf(a);"

def callModule : ScriptModule :=
  (programOf callSource).annotated ⟨"app.js"⟩ callSource

/-- What is assembled without the import. -/
def callText : String :=
  (callModule.assemble? [0, 2, 3]).getD ""

/-- A declaration that only the import after it ends. -/
def openSource : String :=
  "export let a = f\nimport './x'\n(c)()"

/-- Without the import the two statements that are left are read as one. -/
example :
    let m := (programOf openSource).annotated ⟨"app.js"⟩ openSource
    m.select ⟨.reachability, ⟨["f", "c"]⟩⟩ = .ok ⟨[0, 2], .empty⟩ ∧
      (programOf ((m.assemble? [0, 2]).getD "")).items.length = 1 := by
  decide +kernel

end ScriptModule

end AppletBundle.Script
