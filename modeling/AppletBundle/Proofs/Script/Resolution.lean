import AppletBundle.Proofs.Ordered.Set
import AppletBundle.Proofs.Script.Liveness
import Mathlib.Data.Prod.Lex

/-!
# Looking up names

A selection goes through the live statements, and in each of them through the names that it uses,
and looks for where each name comes from. The first name that comes from nowhere ends it.

The two loops are one pass over a list. A `NameUse` is a name together with its place, `nameUses`
lists the uses in live statements in the order of their places, and `lookUp` is what a pass over
uses comes to: the failure at the first of them that is unresolved, or else the imports that they
need. Two equations carry this over to selection.

* `lookUp_append` puts passes over two lists together, so that the uses of one statement and those
  of the statements after it make up one list (`resolveStatements_eq`).
* `select_eq` says what a selection is, in either mode, with no recursion left in it.

The main result is `select_fails_exactly`.
-/

namespace AppletBundle.Script

/-! ### Lists that ascend -/

theorem pairwise_zipIdx {α : Type} (l : List α) (i : ℕ) :
    (l.zipIdx i).Pairwise fun p q ↦ p.2 < q.2 := by
  have hrange : ((l.zipIdx i).map Prod.snd).Pairwise (· < ·) := by
    rw [List.zipIdx_map_snd]
    exact List.pairwise_lt_range'
  exact List.pairwise_map.1 hrange

/-- In a list that ascends in a key, what is found first is what has the least key. -/
theorem find?_eq_some_iff_least {α β : Type} [LinearOrder β] {key : α → β} {l : List α}
    (hl : l.Pairwise fun a b ↦ key a < key b) {p : α → Bool} {a : α} :
    l.find? p = some a ↔ a ∈ l ∧ p a = true ∧ ∀ b ∈ l, p b = true → key a ≤ key b := by
  induction l with
  | nil => simp
  | cons x l ih =>
    obtain ⟨hx, hl⟩ := List.pairwise_cons.1 hl
    cases hp : p x with
    | true =>
      rw [List.find?_cons_of_pos hp]
      constructor
      · rintro ⟨⟩
        exact ⟨List.mem_cons_self, hp, List.forall_mem_cons.2
          ⟨fun _ ↦ le_refl _, fun b hb _ ↦ (hx b hb).le⟩⟩
      · rintro ⟨ha, -, hleast⟩
        rcases List.mem_cons.1 ha with rfl | ha
        · rfl
        · exact absurd (hleast x List.mem_cons_self hp) (not_le.2 (hx a ha))
    | false =>
      rw [List.find?_cons_of_neg (by simp [hp]), ih hl, List.mem_cons, List.forall_mem_cons]
      constructor
      · rintro ⟨ha, hpa, hleast⟩
        exact ⟨Or.inr ha, hpa, fun h ↦ absurd h (by simp [hp]), hleast⟩
      · rintro ⟨ha, hpa, -, hleast⟩
        refine ⟨ha.resolve_left ?_, hpa, hleast⟩
        rintro rfl
        exact absurd hpa (by simp [hp])

/-! ### Places of names -/

/-- A name that a statement uses: the position of the statement, and the place of the name among
all that the statement uses. -/
structure NameUse where
  statement : ℕ
  index : ℕ
  name : String

/-- Where a use stands. Of two statements the earlier comes first, and so of two names in one. -/
def NameUse.place (u : NameUse) : ℕ ×ₗ ℕ :=
  toLex (u.statement, u.index)

theorem NameUse.statement_le {u v : NameUse} (h : u.place ≤ v.place) :
    u.statement ≤ v.statement := by
  rcases Prod.Lex.toLex_le_toLex.1 h with hlt | ⟨heq, -⟩
  · exact hlt.le
  · exact heq.le

/-- The uses in the statement at a position. -/
def Statement.nameUses (s : Statement) (i : ℕ) : List NameUse :=
  s.depends.toList.zipIdx.map fun p ↦ ⟨i, p.2, p.1⟩

theorem Statement.mem_nameUses_iff {s : Statement} {i : ℕ} {u : NameUse} :
    u ∈ s.nameUses i ↔ u.statement = i ∧ s.depends.toList[u.index]? = some u.name := by
  rw [nameUses, List.mem_map]
  constructor
  · rintro ⟨⟨name, k⟩, hp, rfl⟩
    exact ⟨rfl, List.mem_zipIdx_iff_getElem?.1 hp⟩
  · rintro ⟨rfl, hname⟩
    exact ⟨(u.name, u.index), List.mem_zipIdx_iff_getElem?.2 hname, rfl⟩

theorem Statement.pairwise_nameUses (s : Statement) (i : ℕ) :
    (s.nameUses i).Pairwise fun u v ↦ u.place < v.place := by
  rw [nameUses, List.pairwise_map]
  refine (pairwise_zipIdx _ 0).imp fun {p q} h ↦ ?_
  exact Prod.Lex.toLex_lt_toLex.2 (Or.inr ⟨rfl, h⟩)

namespace ScriptModule

variable (m : ScriptModule)

/-! ### Live positions -/

/-- The statement at a position can be part of the output. -/
def EmittableAt (i : ℕ) : Prop :=
  ∃ s, m.statements[i]? = some s ∧ s.kind.isEmittable = true

/-- The positions that a mode takes as live: those that are needed, or all that can be part of the
output. -/
def LiveIn : SelectionMode → ℕ → Prop
  | .reachability, i => m.Live i
  | .unconditional, i => m.EmittableAt i

theorem marked_live_iff {mode : SelectionMode} {i : ℕ} :
    Marked (m.live mode) i ↔ m.LiveIn mode i := by
  cases mode with
  | reachability => exact m.marked_reachable_iff
  | unconditional => simp [Marked, live, LiveIn, EmittableAt]

/-! ### Uses of names in order -/

/-- A use in a live statement. -/
def IsNameUse (mode : SelectionMode) (u : NameUse) : Prop :=
  m.LiveIn mode u.statement ∧
    ∃ s, m.statements[u.statement]? = some s ∧ s.depends.toList[u.index]? = some u.name

variable {m} in
theorem IsNameUse.uses {mode : SelectionMode} {u : NameUse} (h : m.IsNameUse mode u) :
    m.Uses u.statement u.name :=
  h.2.imp fun _ hs ↦ ⟨hs.1, List.mem_of_getElem? hs.2⟩

variable {m} in
theorem Uses.exists_isNameUse {mode : SelectionMode} {i : ℕ} {name : String} (h : m.Uses i name)
    (hi : m.LiveIn mode i) : ∃ k, m.IsNameUse mode ⟨i, k, name⟩ := by
  obtain ⟨s, hs, hname⟩ := h
  obtain ⟨k, hk⟩ := List.mem_iff_getElem?.1 hname
  exact ⟨k, hi, s, hs, hk⟩

/-- The uses in marked statements, which start at a position. -/
def usesFrom (i : ℕ) (rest : List (Statement × Bool)) : List NameUse :=
  (rest.zipIdx i).flatMap fun p ↦ if p.1.2 then p.1.1.nameUses p.2 else []

theorem usesFrom_cons (i : ℕ) (s : Statement) (isLive : Bool) (rest : List (Statement × Bool)) :
    usesFrom i ((s, isLive) :: rest) =
      (if isLive then s.nameUses i else []) ++ usesFrom (i + 1) rest := by
  rw [usesFrom, List.zipIdx_cons, List.flatMap_cons]
  rfl

/-- The uses in live statements, in source order and for each statement in its own. -/
def nameUses (mode : SelectionMode) : List NameUse :=
  usesFrom 0 (m.statements.zip (m.live mode))

theorem mem_nameUses_iff {mode : SelectionMode} {u : NameUse} :
    u ∈ m.nameUses mode ↔ m.IsNameUse mode u := by
  rw [nameUses, usesFrom, List.mem_flatMap, IsNameUse, ← marked_live_iff]
  constructor
  · rintro ⟨⟨⟨s, isLive⟩, i⟩, hp, hu⟩
    obtain ⟨hs, hl⟩ := List.getElem?_zip_eq_some.1 (List.mem_zipIdx_iff_getElem?.1 hp)
    cases isLive with
    | false => exact absurd hu List.not_mem_nil
    | true =>
      obtain ⟨rfl, hname⟩ := Statement.mem_nameUses_iff.1 hu
      exact ⟨hl, s, hs, hname⟩
  · rintro ⟨hl, s, hs, hname⟩
    exact ⟨((s, true), u.statement),
      List.mem_zipIdx_iff_getElem?.2 (List.getElem?_zip_eq_some.2 ⟨hs, hl⟩),
      Statement.mem_nameUses_iff.2 ⟨rfl, hname⟩⟩

/-- The uses stand in the order of their places. -/
theorem pairwise_nameUses (mode : SelectionMode) :
    (m.nameUses mode).Pairwise fun u v ↦ u.place < v.place := by
  rw [nameUses, usesFrom, List.pairwise_flatMap]
  have hmem : ∀ {p : (Statement × Bool) × ℕ} {u : NameUse},
      u ∈ (if p.1.2 then p.1.1.nameUses p.2 else []) → u.statement = p.2 := by
    rintro ⟨⟨s, isLive⟩, i⟩ u hu
    cases isLive with
    | false => exact absurd hu List.not_mem_nil
    | true => exact (Statement.mem_nameUses_iff.1 hu).1
  constructor
  · rintro ⟨⟨s, isLive⟩, i⟩ -
    cases isLive with
    | false => exact .nil
    | true => exact s.pairwise_nameUses i
  · refine (pairwise_zipIdx _ 0).imp fun {p q} hpq u hu v hv ↦ ?_
    refine Prod.Lex.toLex_lt_toLex.2 (Or.inl ?_)
    rwa [hmem hu, hmem hv]

/-! ### Where names come from -/

/-- Nothing provides a name: no statement of the module declares it, it is not imported, and it is
not global. -/
def Unresolved (globals : KnownGlobals) (name : String) : Prop :=
  (∀ j, ¬ m.Declares j name) ∧ name ∉ m.imports.keys ∧ globals.contains name = false

theorem any_isDefinerOf_iff {name : String} :
    m.statements.any (·.isDefinerOf name) = true ↔ ∃ j, m.Declares j name := by
  simp only [List.any_eq_true, Statement.isDefinerOf_iff, List.mem_iff_getElem?, Declares]
  constructor
  · rintro ⟨s, ⟨j, hs⟩, hd⟩
    exact ⟨j, s, hs, hd⟩
  · rintro ⟨j, s, hs, hd⟩
    exact ⟨s, ⟨j, hs⟩, hd⟩

theorem any_isDefinerOf_eq_false_iff {name : String} :
    m.statements.any (·.isDefinerOf name) = false ↔ ∀ j, ¬ m.Declares j name := by
  rw [← Bool.not_eq_true, any_isDefinerOf_iff, not_exists]

theorem origin_eq_unresolved_iff {globals : KnownGlobals} {name : String} :
    m.origin globals name = .unresolved ↔ m.Unresolved globals name := by
  rw [Unresolved, ← any_isDefinerOf_eq_false_iff, OrderedMap.keys, ← OrderedMap.get?_eq_none_iff,
    origin]
  cases m.statements.any (·.isDefinerOf name) with
  | true => simp
  | false =>
    cases m.imports.get? name with
    | some binding => simp
    | none => cases globals.contains name <;> simp

theorem origin_eq_imported_iff (globals : KnownGlobals) {name : String} {binding : ImportBinding} :
    m.origin globals name = .imported binding ↔
      (∀ j, ¬ m.Declares j name) ∧ m.imports.get? name = some binding := by
  rw [← any_isDefinerOf_eq_false_iff, origin]
  cases m.statements.any (·.isDefinerOf name) with
  | true => simp
  | false =>
    cases m.imports.get? name with
    | some binding' => simp
    | none => cases globals.contains name <;> simp

/-! ### One pass over the uses -/

/-- Whether nothing provides the name that is used. -/
def isUnresolved (globals : KnownGlobals) (u : NameUse) : Bool :=
  m.origin globals u.name = .unresolved

/-- The import that a use needs. -/
def neededImport? (globals : KnownGlobals) (u : NameUse) : Option ExternalImport :=
  match m.origin globals u.name with
  | .imported binding => some ⟨u.name, binding⟩
  | _ => none

/-- A use that nothing provides, as a failure. -/
def unresolvedAt (u : NameUse) : Failure :=
  .ofCause (.unresolvedName m.label u.statement u.name)

/-- Looks up the names of uses: fails at the first that nothing provides, or adds the imports that
they need. -/
def lookUp (globals : KnownGlobals) (us : List NameUse) (external : OrderedSet ExternalImport) :
    Outcome (OrderedSet ExternalImport) :=
  match us.find? (m.isUnresolved globals) with
  | some u => .error (m.unresolvedAt u)
  | none => .ok (external.insertAll (us.filterMap (m.neededImport? globals)))

variable {m}

theorem isUnresolved_iff {globals : KnownGlobals} {u : NameUse} :
    m.isUnresolved globals u = true ↔ m.Unresolved globals u.name := by
  rw [isUnresolved, decide_eq_true_iff, origin_eq_unresolved_iff]

theorem neededImport?_eq_some_iff {globals : KnownGlobals} {u : NameUse} {e : ExternalImport} :
    m.neededImport? globals u = some e ↔
      u.name = e.localName ∧ (∀ j, ¬ m.Declares j e.localName) ∧
        m.imports.get? e.localName = some e.binding := by
  obtain ⟨name, binding⟩ := e
  rw [← m.origin_eq_imported_iff globals, neededImport?]
  constructor
  · intro h
    split at h
    · cases h
      exact ⟨rfl, ‹_›⟩
    · cases h
  · rintro ⟨rfl, ho⟩
    rw [ho]

variable (m)

theorem lookUp_cons (globals : KnownGlobals) (u : NameUse) (us : List NameUse)
    (external : OrderedSet ExternalImport) :
    m.lookUp globals (u :: us) external =
      match m.origin globals u.name with
      | .imported binding => m.lookUp globals us (external.insert ⟨u.name, binding⟩)
      | .unresolved => .error (m.unresolvedAt u)
      | _ => m.lookUp globals us external := by
  rw [lookUp, List.find?_cons, isUnresolved, List.filterMap_cons, neededImport?]
  cases m.origin globals u.name <;> rfl

/-- A pass over two lists is a pass over the one and then over the other. -/
theorem lookUp_append (globals : KnownGlobals) (us vs : List NameUse)
    (external : OrderedSet ExternalImport) :
    m.lookUp globals (us ++ vs) external =
      (m.lookUp globals us external).bind (m.lookUp globals vs) := by
  rw [lookUp, lookUp, List.find?_append, List.filterMap_append, OrderedSet.insertAll_append]
  cases us.find? (m.isUnresolved globals) with
  | some u => rfl
  | none => rfl

/-- The names of one statement are looked up in one pass, whatever the places of those before. -/
theorem resolveNames_eq (globals : KnownGlobals) (i k : ℕ) (names : List String)
    (external : OrderedSet ExternalImport) :
    m.resolveNames globals i names external =
      m.lookUp globals ((names.zipIdx k).map fun p ↦ ⟨i, p.2, p.1⟩) external := by
  induction names generalizing k external with
  | nil => rfl
  | cons name names ih =>
    rw [resolveNames, List.zipIdx_cons, List.map_cons, lookUp_cons]
    cases m.origin globals name with
    | defined => exact ih (k + 1) external
    | imported binding => exact ih (k + 1) (external.insert ⟨name, binding⟩)
    | global => exact ih (k + 1) external
    | unresolved => rfl

/-- The names of all marked statements are looked up in one pass. -/
theorem resolveStatements_eq (globals : KnownGlobals) (i : ℕ) (rest : List (Statement × Bool))
    (external : OrderedSet ExternalImport) :
    m.resolveStatements globals i rest external =
      m.lookUp globals (usesFrom i rest) external := by
  induction rest generalizing i external with
  | nil => rfl
  | cons p rest ih =>
    obtain ⟨s, isLive⟩ := p
    rw [resolveStatements, usesFrom_cons]
    cases isLive with
    | false => exact ih (i + 1) external
    | true =>
      have hnames := m.resolveNames_eq globals i 0 s.depends.toList external
      rw [if_pos rfl, if_pos rfl, lookUp_append, hnames]
      change _ = (m.lookUp globals (s.nameUses i) external).bind _
      rw [Statement.nameUses]
      cases m.lookUp globals _ external with
      | error f => rfl
      | ok noted => exact ih (i + 1) noted

/-! ### Selection in one equation -/

/-- **What a selection is**: the live positions that can be part of the output, with the imports
that the uses in live statements need, unless one of the uses is unresolved. -/
theorem select_eq (options : SelectOptions) :
    m.select options =
      match (m.nameUses options.mode).find? (m.isUnresolved options.globals) with
      | some u => .error (m.unresolvedAt u)
      | none => .ok ⟨m.emitted (m.live options.mode),
          .ofList ((m.nameUses options.mode).filterMap (m.neededImport? options.globals))⟩ := by
  rw [select, resolveStatements_eq, ← nameUses, lookUp]
  cases (m.nameUses options.mode).find? (m.isUnresolved options.globals) <;> rfl

variable {m}

/-- A selection fails at the first unresolved use. -/
theorem select_eq_error_iff {options : SelectOptions} {f : Failure} :
    m.select options = .error f ↔
      ∃ u, f = m.unresolvedAt u ∧ m.IsNameUse options.mode u ∧
        m.Unresolved options.globals u.name ∧
        ∀ v, m.IsNameUse options.mode v → m.Unresolved options.globals v.name →
          u.place ≤ v.place := by
  have hfirst : ∀ u, (m.nameUses options.mode).find? (m.isUnresolved options.globals) = some u ↔
      m.IsNameUse options.mode u ∧ m.Unresolved options.globals u.name ∧
        ∀ v, m.IsNameUse options.mode v → m.Unresolved options.globals v.name →
          u.place ≤ v.place := by
    intro u
    rw [find?_eq_some_iff_least (m.pairwise_nameUses options.mode)]
    simp only [mem_nameUses_iff, isUnresolved_iff]
  simp only [← hfirst]
  rw [select_eq]
  cases (m.nameUses options.mode).find? (m.isUnresolved options.globals) with
  | some u =>
    constructor
    · rintro ⟨⟩
      exact ⟨u, rfl, rfl⟩
    · rintro ⟨v, rfl, ⟨⟩⟩
      rfl
  | none =>
    constructor
    · rintro ⟨⟩
    · rintro ⟨v, -, ⟨⟩⟩

/-- A selection succeeds if there is no unresolved use. -/
theorem select_eq_ok_iff {options : SelectOptions} {selection : Selection} :
    m.select options = .ok selection ↔
      (∀ u, m.IsNameUse options.mode u → ¬ m.Unresolved options.globals u.name) ∧
        selection = ⟨m.emitted (m.live options.mode),
          .ofList ((m.nameUses options.mode).filterMap (m.neededImport? options.globals))⟩ := by
  have hnone : (m.nameUses options.mode).find? (m.isUnresolved options.globals) = none ↔
      ∀ u, m.IsNameUse options.mode u → ¬ m.Unresolved options.globals u.name := by
    simp only [List.find?_eq_none, mem_nameUses_iff, isUnresolved_iff]
  rw [← hnone, select_eq]
  cases (m.nameUses options.mode).find? (m.isUnresolved options.globals) with
  | some u =>
    constructor
    · rintro ⟨⟩
    · rintro ⟨⟨⟩, -⟩
  | none =>
    constructor
    · rintro ⟨⟩
      exact ⟨rfl, rfl⟩
    · rintro ⟨-, rfl⟩
      rfl

/-- There is a selection exactly if live statements use nothing that is unresolved. -/
theorem exists_select_eq_ok_iff {options : SelectOptions} :
    (∃ selection, m.select options = .ok selection) ↔
      ∀ i name, m.LiveIn options.mode i → m.Uses i name →
        ¬ m.Unresolved options.globals name := by
  constructor
  · rintro ⟨selection, h⟩ i name hi hu
    obtain ⟨k, hk⟩ := hu.exists_isNameUse hi
    exact (select_eq_ok_iff.1 h).1 _ hk
  · intro h
    exact ⟨_, select_eq_ok_iff.2 ⟨fun u hu ↦ h u.statement u.name hu.1 hu.uses, rfl⟩⟩

/-- An import is noted exactly if a live statement uses its name and the module does not declare
it. -/
theorem mem_external_iff {options : SelectOptions} {selection : Selection}
    (h : m.select options = .ok selection) {e : ExternalImport} :
    e ∈ selection.external.toList ↔
      (∃ i, m.LiveIn options.mode i ∧ m.Uses i e.localName) ∧
        (∀ j, ¬ m.Declares j e.localName) ∧ m.imports.get? e.localName = some e.binding := by
  obtain ⟨-, rfl⟩ := select_eq_ok_iff.1 h
  simp only [OrderedSet.mem_ofList, List.mem_filterMap, mem_nameUses_iff,
    neededImport?_eq_some_iff]
  constructor
  · rintro ⟨u, hu, hname, hneeded⟩
    exact ⟨⟨u.statement, hu.1, hname ▸ hu.uses⟩, hneeded⟩
  · rintro ⟨⟨i, hi, hu⟩, hneeded⟩
    obtain ⟨k, hk⟩ := hu.exists_isNameUse hi
    exact ⟨_, hk, rfl, hneeded⟩

/-! ### Failures -/

/-- **Failures are exact.** A selection fails exactly if a live statement uses a name that nothing
provides, and the failure names the first such use: the earliest of these statements, and in it the
earliest of these names. A name that only dead statements use never makes it fail. -/
theorem select_fails_exactly (options : SelectOptions) :
    ((∃ f, m.select options = .error f) ↔
      ∃ i name, m.LiveIn options.mode i ∧ m.Uses i name ∧ m.Unresolved options.globals name) ∧
    (∀ f, m.select options = .error f → ∃ u : NameUse,
      f = .ofCause (.unresolvedName m.label u.statement u.name) ∧
        m.IsNameUse options.mode u ∧ m.Unresolved options.globals u.name ∧
        ∀ v, m.IsNameUse options.mode v → m.Unresolved options.globals v.name →
          u.place ≤ v.place) ∧
    ∀ name, (∀ i, m.LiveIn options.mode i → ¬ m.Uses i name) →
      ∀ i, m.select options ≠ .error (.ofCause (.unresolvedName m.label i name)) := by
  refine ⟨⟨?_, ?_⟩, fun f ↦ select_eq_error_iff.1, fun name hdead i h ↦ ?_⟩
  · rintro ⟨f, h⟩
    obtain ⟨u, -, hu, hname, -⟩ := select_eq_error_iff.1 h
    exact ⟨u.statement, u.name, hu.1, hu.uses, hname⟩
  · rintro ⟨i, name, hi, hu, hname⟩
    cases h : m.select options with
    | error f => exact ⟨f, rfl⟩
    | ok selection =>
      exact absurd hname (exists_select_eq_ok_iff.1 ⟨selection, h⟩ i name hi hu)
  · obtain ⟨u, hf, hu, -⟩ := select_eq_error_iff.1 h
    cases hf
    exact hdead u.statement hu.1 hu.uses

/-- A module in which nothing provides what a dead statement, a live one and a list of exports
use. -/
def draftModule : ScriptModule where
  path := ⟨"draft.js"⟩
  source := ""
  statements :=
    [⟨.importLink, ⟨0, 0⟩, .empty, .empty⟩,
     ⟨.plain, ⟨0, 0⟩, .ofList ["draft"], .ofList ["ghost"]⟩,
     ⟨.plain, ⟨0, 0⟩, .empty, .ofList ["shown", "console", "lost", "gone"]⟩,
     ⟨.exportList, ⟨0, 0⟩, .empty, .ofList ["stray"]⟩]
  imports := OrderedMap.empty.insert "shown" ⟨"shown", "./shown"⟩
  exports := OrderedMap.empty
  selected := none

theorem select_fails_exactly_draft :
    draftModule.select ⟨.reachability, ⟨[]⟩⟩ =
        .error (.ofCause (.unresolvedName "draft.js" 2 "lost")) ∧
      draftModule.select ⟨.reachability, ⟨["lost", "gone"]⟩⟩ =
        .error (.ofCause (.unresolvedName "draft.js" 3 "stray")) ∧
      draftModule.select ⟨.unconditional, ⟨["lost", "gone"]⟩⟩ =
        .error (.ofCause (.unresolvedName "draft.js" 1 "ghost")) ∧
      ¬ draftModule.Live 1 := by
  have h : draftModule.select ⟨.reachability, ⟨[]⟩⟩ =
      .error (.ofCause (.unresolvedName "draft.js" 2 "lost")) := by decide
  refine ⟨h, by decide, by decide, fun hlive ↦ ?_⟩
  obtain ⟨⟨i, k, name⟩, hf, -, -, hleast⟩ := (select_fails_exactly ⟨.reachability, ⟨[]⟩⟩).2.1 _ h
  cases hf
  have hghost : draftModule.Unresolved ⟨[]⟩ "ghost" :=
    (draftModule.origin_eq_unresolved_iff).1 (by decide)
  have hle : 2 ≤ 1 := NameUse.statement_le (hleast ⟨1, 0, "ghost"⟩ ⟨hlive, _, rfl, rfl⟩ hghost)
  omega

end ScriptModule

end AppletBundle.Script
