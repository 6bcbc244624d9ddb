import AppletBundle.Proofs.Script.Clashes
import AppletBundle.Proofs.Script.Reannotation

/-!
# Scripts that are joined

A `KeptScript` is what a selection keeps of an accepted script. It does not clash
(`KeptScript.clash_events`) if nothing that it declares is declared by what is dropped: the script
as a whole does not clash, and dropped items are then a side of their own. The default binding, which
takes the place of a default export, is one more declaration; there is one at most, since a module
has one default export.

Kept scripts that declare different names do not clash together (`clash_scripts`). So a text that
the parser reads as their statements one after the other is accepted as a module: `annotate_joined`.
-/

namespace AppletBundle.Script

/-! ### Names that events declare for the module -/

theorem moduleNames_append {es fs : List ScopeEvent} {kinds kinds' : List ScopeKind}
    (hes : trackAll kinds es = some kinds') :
    moduleNames kinds (es ++ fs) = moduleNames kinds es ++ moduleNames kinds' fs := by
  induction es generalizing kinds with
  | nil =>
    obtain rfl := Option.some.inj hes
    rfl
  | cons e es ih =>
    rw [trackAll_cons, Option.bind_eq_some_iff] at hes
    obtain ⟨kinds₁, he, hes⟩ := hes
    rw [List.cons_append, moduleNames, moduleNames, he, Option.getD_some, ih hes,
      List.append_assoc]

theorem mem_moduleNames_flatMap {α : Type} {f : α → List ScopeEvent} {xs : List α}
    (hf : ∀ x ∈ xs, Nested (f x)) {name : String} :
    name ∈ moduleNames [] (xs.flatMap f) ↔ ∃ x ∈ xs, name ∈ moduleNames [] (f x) := by
  induction xs with
  | nil => simp [moduleNames]
  | cons x xs ih =>
    obtain ⟨hx, hxs⟩ := List.forall_mem_cons.1 hf
    rw [List.flatMap_cons, moduleNames_append (hx []), List.mem_append, ih hxs,
      List.exists_mem_cons_iff]

theorem Nested.flatMap {α : Type} {f : α → List ScopeEvent} {xs : List α}
    (hf : ∀ x ∈ xs, Nested (f x)) : Nested (xs.flatMap f) := by
  induction xs with
  | nil => exact .nil
  | cons x xs ih =>
    obtain ⟨hx, hxs⟩ := List.forall_mem_cons.1 hf
    exact hx.append (ih hxs)

/-! ### What is kept of a script -/

/-- What is kept of a script: the items at some positions. -/
structure KeptScript where
  program : Program
  positions : List ℕ
  defaultName : String

namespace KeptScript

variable (s : KeptScript)

/-- The items of the script, each with a mark whether it is kept. -/
def marked : List (Bool × Item) :=
  s.program.items.zipIdx.map fun q ↦ (decide (q.2 ∈ s.positions), q.1)

/-- The items that are kept. -/
def items : List Item :=
  (s.marked.filter Prod.fst).map Prod.snd

/-- The declaration of the default binding, in front of a default export of a value. -/
def defaultDeclaration (item : Item) : List ScopeEvent :=
  if item.IsDefaultValue then [.declare .lexical ⟨s.defaultName, 0⟩] else []

/-- What happens to names in an item that is kept. -/
def eventsOf (item : Item) : List ScopeEvent :=
  s.defaultDeclaration item ++ item.node.events

/-- What happens to names in the items that are kept. -/
def events : List ScopeEvent :=
  s.items.flatMap s.eventsOf

/-- The names that the items which are kept declare for the module. -/
def names : List String :=
  moduleNames [] s.events

/-- A name is declared by items that are kept or by items that are not, and the default binding by a
default export only. -/
structure Whole : Prop where
  kept : ∀ q ∈ s.marked, ∀ r ∈ s.marked, q.1 ≠ r.1 →
    ∀ n ∈ moduleNames [] q.2.node.events, n ∉ moduleNames [] r.2.node.events
  default : ∀ item ∈ s.items, item.IsDefaultValue →
    ∀ item' ∈ s.items, s.defaultName ∉ moduleNames [] item'.node.events

instance : Decidable s.Whole :=
  decidable_of_iff ((∀ q ∈ s.marked, ∀ r ∈ s.marked, q.1 ≠ r.1 →
      ∀ n ∈ moduleNames [] q.2.node.events, n ∉ moduleNames [] r.2.node.events) ∧
      ∀ item ∈ s.items, item.IsDefaultValue →
        ∀ item' ∈ s.items, s.defaultName ∉ moduleNames [] item'.node.events)
    ⟨fun h ↦ ⟨h.1, h.2⟩, fun h ↦ ⟨h.kept, h.default⟩⟩

/-- The source of the script is accepted as a module. -/
structure Accepted : Prop where
  parsed : ∃ source, parseScript source = .ok s.program
  clash : (Scoping.ofEvents s.program.events).clash = false

variable {s}

theorem nested_defaultDeclaration (item : Item) : Nested (s.defaultDeclaration item) := by
  rw [defaultDeclaration]
  split
  · exact .declareAll .lexical [_]
  · exact .nil

theorem nested_eventsOf (item : Item) : Nested (s.eventsOf item) :=
  (nested_defaultDeclaration item).append item.node.nested_events

theorem nested_events : Nested s.events :=
  .flatMap fun item _ ↦ nested_eventsOf item

theorem map_snd_marked : s.marked.map Prod.snd = s.program.items := by
  rw [marked, List.map_map]
  exact List.zipIdx_map_fst 0 _

/-- The items that are kept do not clash if the items of the script do not. -/
theorem clash_items (hs : s.Accepted) (hw : s.Whole) :
    (Scoping.alone (s.items.flatMap fun item ↦ item.node.events)).clash = false := by
  have hall : ((s.marked.map fun q ↦ (q.1, q.2.node.events)).flatMap Prod.snd) =
      s.program.itemEvents.flatten := by
    rw [List.flatMap_map, Program.itemEvents, ← map_snd_marked, List.map_map]
    rfl
  have hkept : Scoping.side true (s.marked.map fun q ↦ (q.1, q.2.node.events)) =
      s.items.flatMap fun item ↦ item.node.events := by
    rw [Scoping.side, List.filter_map, List.flatMap_map, items, List.flatMap_map]
    simp [Function.comp_def]
  have hsides := Scoping.clash_sides (s.marked.map fun q ↦ (q.1, q.2.node.events)) ?_ ?_
  · have hclash := hs.clash
    rw [s.program.events_eq, Scoping.clash_ofEvents_eq s.program.nested_itemEvents, ← hall, hsides,
      hkept] at hclash
    exact (Bool.or_eq_false_iff.1 hclash).1
  · rintro q hq
    obtain ⟨r, -, rfl⟩ := List.mem_map.1 hq
    exact r.2.node.nested_events
  · rintro q hq r hr
    obtain ⟨q', hq', rfl⟩ := List.mem_map.1 hq
    obtain ⟨r', hr', rfl⟩ := List.mem_map.1 hr
    exact hw.kept q' hq' r' hr'

theorem pairwise_items (hs : s.Accepted) :
    s.items.Pairwise fun a b ↦ ¬ (a.IsDefaultValue ∧ b.IsDefaultValue) := by
  obtain ⟨source, hsource⟩ := hs.parsed
  have hall := pairwise_not_isDefaultValue hsource
  rw [← map_snd_marked] at hall
  exact hall.sublist (List.filter_sublist.map _)

/-- Default bindings do not clash with each other: there is one at most. -/
theorem clash_defaults (hs : s.Accepted) :
    (Scoping.alone (s.items.flatMap s.defaultDeclaration)).clash = false := by
  have hone : ∀ items : List Item,
      items.Pairwise (fun a b ↦ ¬ (a.IsDefaultValue ∧ b.IsDefaultValue)) →
        items.flatMap s.defaultDeclaration = [] ∨
          items.flatMap s.defaultDeclaration = [.declare .lexical ⟨s.defaultName, 0⟩] := by
    intro items hitems
    induction items with
    | nil => exact Or.inl rfl
    | cons item items ih =>
      obtain ⟨hitem, hitems⟩ := List.pairwise_cons.1 hitems
      rw [List.flatMap_cons]
      by_cases hd : item.IsDefaultValue
      · have hrest : items.flatMap s.defaultDeclaration = [] :=
          List.flatMap_eq_nil_iff.2 fun other hother ↦ if_neg fun h ↦ hitem other hother ⟨hd, h⟩
        rw [hrest, defaultDeclaration, if_pos hd]
        exact Or.inr rfl
      · rw [defaultDeclaration, if_neg hd]
        exact ih hitems
  rcases hone s.items (pairwise_items hs) with h | h <;> rw [h] <;> rfl

theorem of_mem_moduleNames_defaultDeclaration {item : Item} {n : String}
    (hn : n ∈ moduleNames [] (s.defaultDeclaration item)) :
    item.IsDefaultValue ∧ n = s.defaultName := by
  rw [defaultDeclaration] at hn
  split at hn
  · exact ⟨‹_›, List.mem_singleton.1 hn⟩
  · exact absurd hn List.not_mem_nil

variable (s) in
/-- The items that are kept on one side, and the default bindings in front of them on the other. -/
def sides : List (Bool × List ScopeEvent) :=
  s.items.flatMap fun item ↦ [(false, s.defaultDeclaration item), (true, item.node.events)]

theorem mem_sides {q : Bool × List ScopeEvent} : q ∈ s.sides ↔
    ∃ item ∈ s.items, q = (false, s.defaultDeclaration item) ∨ q = (true, item.node.events) := by
  simp [sides]

theorem flatMap_sides : s.sides.flatMap Prod.snd = s.events := by
  rw [sides, List.flatMap_assoc]
  simp only [List.flatMap_cons, List.flatMap_nil, List.append_nil]
  rfl

theorem side_true_sides :
    Scoping.side true s.sides = s.items.flatMap fun item ↦ item.node.events := by
  rw [Scoping.side, sides, List.filter_flatMap, List.flatMap_assoc]
  simp

theorem side_false_sides : Scoping.side false s.sides = s.items.flatMap s.defaultDeclaration := by
  rw [Scoping.side, sides, List.filter_flatMap, List.flatMap_assoc]
  simp

theorem sidesApart_sides (hw : s.Whole) : Scoping.SidesApart s.sides := by
  intro q hq r hr hne n hn hn'
  obtain ⟨item, hitem, rfl | rfl⟩ := mem_sides.1 hq <;>
    obtain ⟨item', hitem', rfl | rfl⟩ := mem_sides.1 hr
  · exact hne rfl
  · obtain ⟨hd, rfl⟩ := of_mem_moduleNames_defaultDeclaration hn
    exact hw.default item hitem hd item' hitem' hn'
  · obtain ⟨hd, rfl⟩ := of_mem_moduleNames_defaultDeclaration hn'
    exact hw.default item' hitem' hd item hitem hn
  · exact hne rfl

/-- **What is kept of an accepted script does not clash.** -/
theorem clash_events (hs : s.Accepted) (hw : s.Whole) : (Scoping.alone s.events).clash = false := by
  have hnested : ∀ q ∈ s.sides, Nested q.2 := by
    intro q hq
    obtain ⟨item, -, rfl | rfl⟩ := mem_sides.1 hq
    · exact nested_defaultDeclaration item
    · exact item.node.nested_events
  rw [← flatMap_sides, Scoping.clash_sides s.sides hnested (sidesApart_sides hw), side_true_sides,
    side_false_sides, clash_items hs hw, clash_defaults hs]
  rfl

end KeptScript

/-! ### Joining -/

/-- No two scripts declare the same name for the module in what is kept of them. -/
def NamesApart (scripts : List KeptScript) : Prop :=
  scripts.Pairwise fun s t ↦ ∀ n ∈ s.names, n ∉ t.names

instance (scripts : List KeptScript) : Decidable (NamesApart scripts) :=
  inferInstanceAs (Decidable (List.Pairwise _ _))

/-- Scripts that do not clash and declare different names do not clash together. -/
theorem clash_scripts {scripts : List KeptScript} (hs : ∀ s ∈ scripts, s.Accepted ∧ s.Whole)
    (hapart : NamesApart scripts) :
    (Scoping.alone (scripts.flatMap KeptScript.events)).clash = false := by
  induction scripts with
  | nil => rfl
  | cons s scripts ih =>
    obtain ⟨⟨haccepted, hwhole⟩, hrest⟩ := List.forall_mem_cons.1 hs
    obtain ⟨hnames, hapart⟩ := List.pairwise_cons.1 hapart
    have hnested : ∀ t ∈ scripts, Nested t.events := fun t _ ↦ KeptScript.nested_events
    rw [List.flatMap_cons, Scoping.clash_append KeptScript.nested_events (.flatMap hnested),
      KeptScript.clash_events haccepted hwhole, ih hrest hapart]
    · rfl
    · intro n hn hn'
      obtain ⟨t, ht, hn'⟩ := (mem_moduleNames_flatMap hnested).1 hn'
      exact hnames t ht n hn hn'

/-- A program is read as the statements that are kept of scripts, item by item: with the same
declarations and references at other places. -/
def ReadsJoined (scripts : List KeptScript) (p : Program) : Prop :=
  p.itemEvents.map unplaced =
    scripts.flatMap fun s ↦ s.items.map fun item ↦ unplaced (s.eventsOf item)

instance (scripts : List KeptScript) (p : Program) : Decidable (ReadsJoined scripts p) :=
  inferInstanceAs (Decidable (_ = _))

/-- **Accepted scripts are accepted together** if no two of them declare the same name and the
parser reads what is kept of them as the statements that are kept. -/
theorem annotate_joined {scripts : List KeptScript} (hs : ∀ s ∈ scripts, s.Accepted ∧ s.Whole)
    (hapart : NamesApart scripts) {text : String} {p : Program} (hp : parseScript text = .ok p)
    (hread : ReadsJoined scripts p) (path : Path) :
    ScriptModule.annotate path text = .ok (p.annotated path text) := by
  refine (ScriptModule.annotate_eq_ok_iff hp).2 ⟨?_, rfl⟩
  have hflat : unplaced p.itemEvents.flatten = unplaced (scripts.flatMap KeptScript.events) := by
    have hmap : unplaced p.itemEvents.flatten = (p.itemEvents.map unplaced).flatten :=
      List.map_flatten
    have hevents : ∀ s : KeptScript,
        unplaced s.events = (s.items.map fun item ↦ unplaced (s.eventsOf item)).flatten := by
      intro s
      rw [← List.flatMap_def]
      exact List.map_flatMap
    rw [hmap, hread, ← List.flatMap_id, List.flatMap_assoc]
    refine Eq.trans ?_ List.map_flatMap.symm
    refine List.flatMap_congr fun s _ ↦ ?_
    rw [List.flatMap_id]
    exact (hevents s).symm
  -- Places differ in the joined text, but a clash does not depend on them.
  have hunplaced : ∀ {es : List ScopeEvent}, Nested es →
      (Scoping.alone (unplaced es)).clash = (Scoping.alone es).clash := fun hes ↦
    Scoping.clash_map_moved _ hes
  have hp' : Nested p.itemEvents.flatten := by
    rw [← List.flatMap_id]
    exact .flatMap p.nested_itemEvents
  rw [p.events_eq, Scoping.clash_ofEvents_eq p.nested_itemEvents, ← hunplaced hp', hflat,
    hunplaced (.flatMap fun s _ ↦ KeptScript.nested_events)]
  exact clash_scripts hs hapart

end AppletBundle.Script
