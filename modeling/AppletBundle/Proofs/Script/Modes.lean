import AppletBundle.Proofs.Script.External
import AppletBundle.Proofs.Script.Selection
import Mathlib.Data.List.Sort

/-!
# The two modes of selection

Selection keeps what is needed, or all that can be part of the output. The second mode keeps more
statements (`mem_divergingStatements_iff` says which), but it looks at fewer: lists of exports are
needed, and what they use is looked up, while they are no part of the output. So for the names in
lists of exports the second mode is the more lenient one, and it does not note what they import.
`select_reachability_exactly` says that they make all the difference there is, and
`select_divides_exactly` that the statements divide into those that selection by need keeps and
those that only the other mode keeps.

Whether a statement is selected is found by bisection, which `Selection.contains_iff` justifies for
lists that ascend.
-/

namespace AppletBundle.Script

/-! ### Looking into a selection -/

theorem getD_le_iff {xs : Array ℕ} (hxs : xs.toList.Pairwise (· < ·)) {x j k : ℕ}
    (hj : xs[j]? = some x) (hk : k < xs.size) : xs.getD k 0 ≤ x ↔ k ≤ j := by
  obtain ⟨hlt, rfl⟩ := Array.getElem?_eq_some_iff.1 hj
  have hsorted : ∀ a b (ha : a < xs.size) (hb : b < xs.size), a < b → xs[a] < xs[b] := by
    simpa using List.pairwise_iff_getElem.1 hxs
  rw [Array.getD_eq_getD_getElem?, Array.getElem?_eq_getElem hk, Option.getD_some]
  constructor
  · intro hle
    by_contra hjk
    exact absurd (hsorted j k hlt hk (not_le.1 hjk)) (not_lt.2 hle)
  · intro hkj
    rcases Nat.lt_or_eq_of_le hkj with hkj | rfl
    · exact (hsorted k j hk hlt hkj).le
    · exact le_refl _

/-- Bisection finds the place of a number that is there: no step leaves it out of the range. -/
theorem bisect_eq {xs : Array ℕ} (hxs : xs.toList.Pairwise (· < ·)) {x j base size : ℕ}
    (hj : xs[j]? = some x) (hbase : base ≤ j) (hsize : j < base + size)
    (hend : base + size ≤ xs.size) : bisect xs x base size = j := by
  fun_induction bisect xs x base size with
  | case1 base size h half hle ih =>
    have hmid : base + half < xs.size := by omega
    have hfrom : base + half ≤ j := (getD_le_iff hxs hj hmid).1 hle
    exact ih hfrom (by omega) (by omega)
  | case2 base size h half hle ih =>
    have hmid : base + half < xs.size := by omega
    have hbefore : ¬ base + half ≤ j := fun hfrom ↦ hle ((getD_le_iff hxs hj hmid).2 hfrom)
    exact ih hbase (by omega) (by omega)
  | case3 base size h => omega

/-- What bisection finds in a selection is what is selected. -/
theorem Selection.contains_iff {selection : Selection}
    (h : selection.statements.Pairwise (· < ·)) {i : ℕ} :
    selection.contains i = true ↔ i ∈ selection.statements := by
  rw [contains, beq_iff_eq, List.mem_iff_getElem?]
  constructor
  · intro hfound
    exact ⟨_, by simpa using hfound⟩
  · rintro ⟨j, hj⟩
    have hj' : selection.statements.toArray[j]? = some i := by simpa using hj
    have hlt : j < selection.statements.toArray.size := (Array.getElem?_eq_some_iff.1 hj').1
    rwa [bisect_eq (by simpa using h) hj' (Nat.zero_le j) (by omega) (by omega)]

/-- Two ascending lists without a common element are merged to the list that ascends and holds the
elements of both. -/
theorem merge_eq_of_disjoint {xs ys zs : List ℕ} (hx : xs.Pairwise (· < ·))
    (hy : ys.Pairwise (· < ·)) (hz : zs.Pairwise (· < ·)) (hdisjoint : xs.Disjoint ys)
    (hmem : ∀ i, i ∈ zs ↔ i ∈ xs ∨ i ∈ ys) : xs.merge ys = zs := by
  have hperm : (xs.merge ys).Perm zs := by
    refine (List.merge_perm_append _).trans ((List.perm_ext_iff_of_nodup ?_ hz.nodup).2 ?_)
    · exact List.Nodup.append hx.nodup hy.nodup hdisjoint
    · exact fun i ↦ List.mem_append.trans (hmem i).symm
  have hsorted : (xs.merge ys).Pairwise (· ≤ ·) :=
    (hx.imp Nat.le_of_lt).merge (hy.imp Nat.le_of_lt)
  exact hperm.eq_of_pairwise' hsorted (hz.imp Nat.le_of_lt)

namespace ScriptModule

variable {m : ScriptModule}

/-! ### Kinds of statements -/

/-- The statement at a position is of a kind. -/
def HasKind (m : ScriptModule) (i : ℕ) (kind : StatementKind) : Prop :=
  ∃ s, m.statements[i]? = some s ∧ s.kind = kind

theorem HasKind.unique {i : ℕ} {kind kind' : StatementKind} (h : m.HasKind i kind)
    (h' : m.HasKind i kind') : kind = kind' := by
  obtain ⟨s, hs, rfl⟩ := h
  obtain ⟨t, ht, rfl⟩ := h'
  rw [Option.some.inj (hs.symm.trans ht)]

/-- A statement can be part of the output unless it is a link or a list of exports. -/
theorem not_emittableAt_iff {i : ℕ} (hi : i < m.statements.length) :
    ¬ m.EmittableAt i ↔ m.HasKind i .importLink ∨ m.HasKind i .exportList := by
  have hs := List.getElem?_eq_getElem hi
  simp only [EmittableAt, HasKind, hs, Option.some.injEq, exists_eq_left']
  cases m.statements[i].kind <;> simp [StatementKind.isEmittable]

theorem lt_length_of_emittableAt {i : ℕ} (h : m.EmittableAt i) : i < m.statements.length := by
  obtain ⟨s, hs, -⟩ := h
  exact (List.getElem?_eq_some_iff.1 hs).1

/-- Links to other modules are not needed. -/
theorem Live.exists_statement {i : ℕ} (h : m.Live i) :
    ∃ s, m.statements[i]? = some s ∧ s.kind ≠ .importLink := by
  cases h with
  | start hstart =>
    obtain ⟨s, hs, hkind, -⟩ := hstart
    exact ⟨s, hs, hkind⟩
  | use _ _ hdeclares =>
    obtain ⟨s, hs, hkind, -⟩ := hdeclares
    exact ⟨s, hs, hkind⟩

/-- What is needed can be part of the output or is a list of exports. -/
theorem Live.emittableAt_or {i : ℕ} (h : m.Live i) :
    m.EmittableAt i ∨ m.HasKind i .exportList := by
  obtain ⟨s, hs, hkind⟩ := h.exists_statement
  by_cases hemit : m.EmittableAt i
  · exact Or.inl hemit
  · rcases (not_emittableAt_iff (List.getElem?_eq_some_iff.1 hs).1).1 hemit with hlink | hlist
    · exact absurd (hlink.unique ⟨s, hs, rfl⟩).symm hkind
    · exact Or.inr hlist

/-! ### What the modes keep -/

/-- The report holds what can be part of the output and is not needed. -/
theorem mem_divergingStatements_iff {i : ℕ} :
    i ∈ m.divergingStatements ↔ m.EmittableAt i ∧ ¬ m.Live i := by
  rw [divergingStatements, mem_emitted_iff, ← marked_reachable_iff]
  refine and_congr_right fun hemit ↦ ?_
  have hi : i < m.reachable.length := m.length_reachable ▸ lt_length_of_emittableAt hemit
  simp [Marked, List.getElem?_eq_getElem hi]

/-- **What turning selection off changes.** Let the mode that keeps all succeed. Then the mode that
keeps what is needed fails only for a name in a live list of exports. Where it succeeds, it keeps no
other statements, and an import that only it notes is used in a live list of exports and by nothing
that can be part of the output. -/
theorem select_reachability_exactly {globals : KnownGlobals} {all : Selection}
    (h : m.select ⟨.unconditional, globals⟩ = .ok all) :
    ((∃ needed, m.select ⟨.reachability, globals⟩ = .ok needed) ↔
      ∀ i name, m.Live i → m.HasKind i .exportList → m.Uses i name →
        ¬ m.Unresolved globals name) ∧
    ∀ needed, m.select ⟨.reachability, globals⟩ = .ok needed →
      needed.statements ⊆ all.statements ∧
      ∀ e ∈ needed.external.toList, e ∈ all.external.toList ∨
        (∃ i, m.Live i ∧ m.HasKind i .exportList ∧ m.Uses i e.localName) ∧
          ∀ i, m.EmittableAt i → ¬ m.Uses i e.localName := by
  refine ⟨?_, fun needed hneeded ↦ ⟨fun i hi ↦ ?_, fun e he ↦ ?_⟩⟩
  · rw [exists_select_eq_ok_iff]
    constructor
    · exact fun hneeded i name hlive _ huses ↦ hneeded i name hlive huses
    · intro hlists i name hlive huses
      rcases Live.emittableAt_or hlive with hemit | hlist
      · exact exists_select_eq_ok_iff.1 ⟨all, h⟩ i name hemit huses
      · exact hlists i name hlive hlist huses
  · have hemit := ((mem_statements_iff hneeded).1 hi).1
    exact (mem_statements_iff h).2 ⟨hemit, hemit⟩
  · obtain ⟨⟨i, hlive, huses⟩, himport⟩ := (mem_external_iff hneeded).1 he
    by_cases hall : ∃ i, m.EmittableAt i ∧ m.Uses i e.localName
    · exact Or.inl ((mem_external_iff h).2 ⟨hall, himport⟩)
    · rw [not_exists] at hall
      have hunused : ∀ i, m.EmittableAt i → ¬ m.Uses i e.localName := fun i ↦ not_and.1 (hall i)
      have hlist := (Live.emittableAt_or hlive).resolve_left fun hemit ↦ hunused i hemit huses
      exact Or.inr ⟨⟨i, hlive, hlist, huses⟩, hunused⟩

/-- All that can be part of the output of a module. -/
def catalogAll : Selection :=
  ⟨[1, 2, 3], .ofList [⟨"spare", "spare", "./spare"⟩, ⟨"console", "default", "./console"⟩,
    ⟨"item", "item", "./new"⟩]⟩

theorem select_catalogModule_unconditional :
    catalogModule.select ⟨.unconditional, ⟨[]⟩⟩ = .ok catalogAll := by
  decide

theorem select_reachability_exactly_catalog :
    catalogModule.select ⟨.unconditional, ⟨[]⟩⟩ = .ok catalogAll ∧
      (∃ i, catalogModule.Live i ∧ catalogModule.HasKind i .exportList ∧
        catalogModule.Uses i "unit") ∧
      ∀ i, catalogModule.EmittableAt i → ¬ catalogModule.Uses i "unit" := by
  obtain ⟨-, hnoted⟩ := (select_reachability_exactly select_catalogModule_unconditional).2
    catalogNeeded select_catalogModule
  have hunit := hnoted ⟨"unit", "*", "./unit"⟩ (by decide)
  exact ⟨select_catalogModule_unconditional, hunit.resolve_left (by decide)⟩

/-- A module that exports what it imports. -/
def relayModule : ScriptModule where
  path := ⟨"relay.js"⟩
  source := ""
  statements :=
    [⟨.importLink, ⟨0, 0⟩, .empty, .empty⟩, ⟨.exportList, ⟨0, 0⟩, .empty, .ofList ["part"]⟩]
  imports := OrderedMap.empty.insert "part" ⟨"part", "./part"⟩
  exports := .empty
  selected := none

/-- A module that exports what it does not have. -/
def strayModule : ScriptModule :=
  { relayModule with imports := .empty }

/-- Turning selection off loses an import, and a failure. -/
theorem select_unconditional_loses :
    (∃ all needed, relayModule.select ⟨.unconditional, ⟨[]⟩⟩ = .ok all ∧
      relayModule.select ⟨.reachability, ⟨[]⟩⟩ = .ok needed ∧
      ¬ needed.external.toList ⊆ all.external.toList) ∧
    ∃ all, strayModule.select ⟨.unconditional, ⟨[]⟩⟩ = .ok all ∧
      ∀ needed, strayModule.select ⟨.reachability, ⟨[]⟩⟩ ≠ .ok needed := by
  refine ⟨⟨⟨[], .empty⟩, ⟨[], .ofList [⟨"part", "part", "./part"⟩]⟩, by decide, by decide,
    by decide⟩, ⟨⟨[], .empty⟩, by decide, fun needed h ↦ ?_⟩⟩
  have hfails : strayModule.select ⟨.reachability, ⟨[]⟩⟩ =
      .error (.ofCause (.unresolvedName "relay.js" 1 "part")) := by decide
  cases hfails.symm.trans h

/-! ### What the modes divide -/

/-- One of three propositions holds and the others do not. -/
def ExactlyOne (p q r : Prop) : Prop :=
  (p ∧ ¬ q ∧ ¬ r) ∨ (¬ p ∧ q ∧ ¬ r) ∨ (¬ p ∧ ¬ q ∧ r)

/-- **The report of diverging statements is exact.** Let both modes succeed. Each statement is a
link or a list of exports, or is kept as needed, or is reported, and never two of these. What is
needed and what is reported are merged to what the other mode keeps, and looking into either
selection finds what it lists. -/
theorem select_divides_exactly {globals : KnownGlobals} {needed all : Selection}
    (hneeded : m.select ⟨.reachability, globals⟩ = .ok needed)
    (hall : m.select ⟨.unconditional, globals⟩ = .ok all) :
    (∀ i < m.statements.length,
      ExactlyOne (m.HasKind i .importLink ∨ m.HasKind i .exportList) (needed.contains i = true)
        (i ∈ m.divergingStatements)) ∧
    needed.statements.merge m.divergingStatements = all.statements ∧
    (∀ i, needed.contains i = true ↔ i ∈ needed.statements) ∧
    ∀ i, all.contains i = true ↔ i ∈ all.statements := by
  have hcontains : ∀ i, needed.contains i = true ↔ i ∈ needed.statements :=
    fun i ↦ Selection.contains_iff (pairwise_statements hneeded)
  have hmem : ∀ i, i ∈ needed.statements ↔ m.EmittableAt i ∧ m.Live i :=
    fun i ↦ mem_statements_iff hneeded
  have hmemAll : ∀ i, i ∈ all.statements ↔ m.EmittableAt i :=
    fun i ↦ (mem_statements_iff hall).trans (and_self_iff (a := m.EmittableAt i))
  refine ⟨fun i hi ↦ ?_, ?_, hcontains, fun i ↦ Selection.contains_iff (pairwise_statements hall)⟩
  · rw [ExactlyOne, ← not_emittableAt_iff hi, hcontains, hmem, mem_divergingStatements_iff]
    by_cases hemit : m.EmittableAt i <;> by_cases hlive : m.Live i <;> simp [hemit, hlive]
  · refine merge_eq_of_disjoint (pairwise_statements hneeded) (m.pairwise_emitted _)
      (pairwise_statements hall) (fun i hi hdiverging ↦ ?_) fun i ↦ ?_
    · exact (mem_divergingStatements_iff.1 hdiverging).2 ((hmem i).1 hi).2
    · rw [hmemAll, hmem, mem_divergingStatements_iff, ← and_or_left]
      exact (and_iff_left (em (m.Live i))).symm

theorem select_divides_exactly_catalog :
    catalogModule.select ⟨.reachability, ⟨[]⟩⟩ = .ok catalogNeeded ∧
      catalogModule.select ⟨.unconditional, ⟨[]⟩⟩ = .ok catalogAll ∧
      catalogNeeded.statements.merge catalogModule.divergingStatements = [1, 2, 3] ∧
      ∀ i, catalogNeeded.contains i = true ↔ i = 2 ∨ i = 3 := by
  obtain ⟨-, hmerge, hcontains, -⟩ :=
    select_divides_exactly select_catalogModule select_catalogModule_unconditional
  refine ⟨select_catalogModule, select_catalogModule_unconditional, hmerge, fun i ↦ ?_⟩
  rw [hcontains, catalogNeeded, List.mem_pair]

end ScriptModule

end AppletBundle.Script
