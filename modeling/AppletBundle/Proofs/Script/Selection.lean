import AppletBundle.Proofs.Script.Resolution

/-!
# What a selection holds

A selection lists the positions of the statements that go into the output. This module says which
they are, and that the output they make up is closed.

* `mem_emitted_iff` and `pairwise_emitted` read the list off the marks: the marked positions whose
  statement can be part of the output, in source order and each once.
* `resolves_of_select` says where names come from: whatever a marked statement uses is declared by
  the module, is among the imports that have been noted, or is global.

The two main results are `select_statements_eq_live` and `select_closed`.
-/

namespace AppletBundle.Script.ScriptModule

variable (m : ScriptModule)

/-! ### The positions in the output -/

theorem mem_emitted_iff {marks : List Bool} {i : ℕ} :
    i ∈ m.emitted marks ↔ m.EmittableAt i ∧ Marked marks i := by
  simp only [emitted, List.mem_map, List.mem_filter, Prod.exists, List.mem_zipIdx_iff_getElem?,
    List.getElem?_zip_eq_some, Bool.and_eq_true]
  constructor
  · rintro ⟨s, l, j, ⟨⟨hs, hl⟩, rfl, hk⟩, rfl⟩
    exact ⟨⟨s, hs, hk⟩, hl⟩
  · rintro ⟨⟨s, hs, hk⟩, hl⟩
    exact ⟨s, true, i, ⟨⟨hs, hl⟩, rfl, hk⟩, rfl⟩

/-- The positions are strictly ascending. -/
theorem pairwise_emitted (marks : List Bool) : (m.emitted marks).Pairwise (· < ·) := by
  rw [emitted, List.pairwise_map]
  exact (pairwise_zipIdx _ 0).filter _

/-! ### Names -/

/-- Where a name of a selected statement may come from: the module, the imports that have been
noted, or outside. -/
def Resolves (globals : KnownGlobals) (external : List ExternalImport) (name : String) : Prop :=
  (∃ j, m.Declares j name) ∨ (∃ binding, ⟨name, binding⟩ ∈ external) ∨
    globals.contains name = true

/-! ### Selections -/

variable {m}

theorem select_eq_ok {options : SelectOptions} {selection : Selection}
    (h : m.select options = .ok selection) :
    selection.statements = m.emitted (m.live options.mode) ∧
      ∀ u, m.IsNameUse options.mode u → ¬ m.Unresolved options.globals u.name := by
  obtain ⟨hresolved, rfl⟩ := select_eq_ok_iff.1 h
  exact ⟨rfl, hresolved⟩

theorem mem_statements_iff {options : SelectOptions} {selection : Selection}
    (h : m.select options = .ok selection) {i : ℕ} :
    i ∈ selection.statements ↔ m.EmittableAt i ∧ m.LiveIn options.mode i := by
  rw [(select_eq_ok h).1, mem_emitted_iff, marked_live_iff]

theorem pairwise_statements {options : SelectOptions} {selection : Selection}
    (h : m.select options = .ok selection) : selection.statements.Pairwise (· < ·) :=
  (select_eq_ok h).1 ▸ m.pairwise_emitted _

/-- What a marked statement uses is resolved by a selection. -/
theorem resolves_of_select {options : SelectOptions} {selection : Selection}
    (h : m.select options = .ok selection) {i : ℕ} {name : String}
    (hi : Marked (m.live options.mode) i) (hu : m.Uses i name) :
    m.Resolves options.globals selection.external.toList name := by
  have hlive := m.marked_live_iff.1 hi
  obtain ⟨k, hk⟩ := hu.exists_isNameUse hlive
  have hresolved := (select_eq_ok h).2 _ hk
  by_cases hd : ∃ j, m.Declares j name
  · exact Or.inl hd
  · refine Or.inr ?_
    rw [not_exists] at hd
    cases himport : m.imports.get? name with
    | some binding =>
      exact Or.inl ⟨binding, (mem_external_iff h).2 ⟨⟨i, hlive, hu⟩, hd, himport⟩⟩
    | none =>
      refine Or.inr ?_
      by_contra hglobal
      exact hresolved ⟨hd, OrderedMap.get?_eq_none_iff.1 himport, Bool.not_eq_true _ ▸ hglobal⟩

/-- If export lists declare nothing, what declares a name used by a marked position is marked itself
and can be part of the output, in either mode. -/
theorem mem_emitted_of_uses (hlists : ∀ s ∈ m.statements, s.kind = .exportList →
    s.defines.toList = []) {mode : SelectionMode} {i j : ℕ} {name : String}
    (hi : Marked (m.live mode) i) (hu : m.Uses i name) (hd : m.Declares j name) :
    j ∈ m.emitted (m.live mode) := by
  obtain ⟨t, ht, hk, hname⟩ := hd
  have hemit : t.kind.isEmittable = true := by
    cases hkind : t.kind with
    | importLink => exact absurd hkind hk
    | exportList =>
      rw [hlists t (List.mem_iff_getElem?.2 ⟨j, ht⟩) hkind] at hname
      exact absurd hname List.not_mem_nil
    | exportWrapper _ => rfl
    | defaultExpression _ => rfl
    | plain => rfl
  refine m.mem_emitted_iff.2 ⟨⟨t, ht, hemit⟩, ?_⟩
  cases mode with
  | reachability =>
    exact m.marked_reachable_iff.2 ((m.marked_reachable_iff.1 hi).use hu ⟨t, ht, hk, hname⟩)
  | unconditional => simp [Marked, live, ht, hemit]

/-- Two functions that call each other, the second declared twice, and a statement that nothing
needs. -/
def parityModule : ScriptModule where
  path := ⟨"parity.js"⟩
  source := ""
  statements :=
    [⟨.importLink, ⟨0, 0⟩, .empty, .empty⟩,
     ⟨.plain, ⟨0, 0⟩, .ofList ["even"], .ofList ["odd"]⟩,
     ⟨.plain, ⟨0, 0⟩, .ofList ["odd"], .ofList ["even"]⟩,
     ⟨.plain, ⟨0, 0⟩, .ofList ["unused"], .ofList ["missing"]⟩,
     ⟨.plain, ⟨0, 0⟩, .ofList ["odd"], .ofList ["limit", "console"]⟩,
     ⟨.exportList, ⟨0, 0⟩, .empty, .ofList ["even"]⟩]
  imports := OrderedMap.empty.insert "limit" ⟨"limit", "./limit"⟩
  exports := (OrderedMap.empty.insert "even" 1).insert "gone" 9
  selected := none

/-- Both declarations of the second function are kept, for the sake of the first. -/
def paritySelection : Selection :=
  ⟨[1, 2, 4], .ofList [⟨"limit", "limit", "./limit"⟩]⟩

/-- **The output is closed.** If export lists declare nothing, then for each name that a selected
statement uses either all statements that declare it are selected, and there are such, or it is
noted among the imports, or it is global. -/
theorem select_closed (hlists : ∀ s ∈ m.statements, s.kind = .exportList → s.defines.toList = [])
    {options : SelectOptions} {selection : Selection} (h : m.select options = .ok selection)
    {i : ℕ} {name : String} (hi : i ∈ selection.statements) (hu : m.Uses i name) :
    ((∃ j, m.Declares j name) ∧ ∀ j, m.Declares j name → j ∈ selection.statements) ∨
      (∃ binding, ⟨name, binding⟩ ∈ selection.external.toList) ∨
      options.globals.contains name = true := by
  have hstatements := (select_eq_ok h).1
  rw [hstatements] at hi ⊢
  have hmarked := (m.mem_emitted_iff.1 hi).2
  rcases resolves_of_select h hmarked hu with hd | hrest
  · exact Or.inl ⟨hd, fun j hj ↦ mem_emitted_of_uses hlists hmarked hu hj⟩
  · exact Or.inr hrest

theorem select_closed_parity :
    (∀ s ∈ parityModule.statements, s.kind = .exportList → s.defines.toList = []) ∧
      parityModule.select ⟨.unconditional, ⟨["missing"]⟩⟩ =
        .ok ⟨[1, 2, 3, 4], paritySelection.external⟩ ∧
      1 ∈ [1, 2, 3, 4] ∧ parityModule.Uses 1 "odd" ∧
      ∀ j, parityModule.Declares j "odd" → j ∈ [1, 2, 3, 4] := by
  have hlists : ∀ s ∈ parityModule.statements, s.kind = .exportList → s.defines.toList = [] := by
    decide
  have h : parityModule.select ⟨.unconditional, ⟨["missing"]⟩⟩ =
      .ok ⟨[1, 2, 3, 4], paritySelection.external⟩ := by decide
  have hu : parityModule.Uses 1 "odd" := ⟨_, rfl, by decide⟩
  refine ⟨hlists, h, by decide, hu, ?_⟩
  rcases select_closed hlists h (by decide) hu with ⟨-, hall⟩ | ⟨binding, hb⟩ | hg
  · exact hall
  · have hb' : "odd" ∈ paritySelection.external.toList.map ExternalImport.localName :=
      List.mem_map.2 ⟨_, hb, rfl⟩
    exact absurd hb' (by decide)
  · exact absurd hg (by decide)

end AppletBundle.Script.ScriptModule
