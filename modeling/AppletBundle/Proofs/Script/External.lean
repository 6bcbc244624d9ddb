import AppletBundle.Proofs.Ordered.Map
import AppletBundle.Proofs.Script.Resolution

/-!
# The imports that a selection notes

A selection notes the imports that its live statements use. Which these are is read off the uses of
names (`mem_external_iff`), and in which order they stand off the places of the uses
(`pairwise_external`).

What an import stands for depends on how the module was made: a name can be imported again, and then
the last import counts. `Built` says how modules are made, together with all imports that were added
on the way, and every module is made in such a way (`exists_built`). The main result is
`select_external_exactly`.
-/

namespace AppletBundle.Script.ScriptModule

/-! ### How modules are made -/

/-- A module is made by additions, with these imports in this order among them. -/
inductive Built : ScriptModule → List (String × ImportBinding) → Prop
  | empty (path : Path) (source : String) : Built (.empty path source) []
  | pushStatement {m : ScriptModule} {added : List (String × ImportBinding)} (h : Built m added)
      (s : Statement) : Built (m.pushStatement s) added
  | addImport {m : ScriptModule} {added : List (String × ImportBinding)} (h : Built m added)
      (localName : String) (b : ImportBinding) :
      Built (m.addImport localName b) (added ++ [(localName, b)])
  | addExport {m : ScriptModule} {added : List (String × ImportBinding)} (h : Built m added)
      (exported : String) (statement : ℕ) : Built (m.addExport exported statement) added
  | recordSelection {m : ScriptModule} {added : List (String × ImportBinding)} (h : Built m added)
      (selection : Selection) : Built (m.recordSelection selection) added

variable {m : ScriptModule} {added : List (String × ImportBinding)}

theorem Built.imports_eq (h : m.Built added) : m.imports = OrderedMap.empty.fill added := by
  induction h with
  | empty => rfl
  | pushStatement _ _ ih => exact ih
  | addImport _ localName b ih =>
    rw [OrderedMap.fill_concat, ← ih]
    rfl
  | addExport _ _ _ ih => exact ih
  | recordSelection _ _ ih => exact ih

/-- An imported name stands for what was added last under it. -/
theorem Built.get?_imports (h : m.Built added) (name : String) :
    m.imports.get? name = added.reverse.lookup name := by
  rw [h.imports_eq, OrderedMap.get?_fill]
  exact Option.or_none

theorem Built.pushStatements (h : m.Built added) (ss : List Statement) :
    ({ m with statements := m.statements ++ ss } : ScriptModule).Built added := by
  induction ss generalizing m with
  | nil => simpa using h
  | cons s ss ih =>
    have hrest := ih (h.pushStatement s)
    rwa [ScriptModule.pushStatement, List.append_assoc, List.singleton_append] at hrest

theorem Built.addImports (h : m.Built added) (es : List (String × ImportBinding)) :
    ({ m with imports := m.imports.fill es } : ScriptModule).Built (added ++ es) := by
  induction es generalizing m added with
  | nil => rwa [List.append_nil]
  | cons e es ih =>
    have hrest := ih (h.addImport e.1 e.2)
    rwa [List.append_assoc, List.singleton_append] at hrest

theorem Built.addExports (h : m.Built added) (es : List (String × ℕ)) :
    ({ m with exports := m.exports.fill es } : ScriptModule).Built added := by
  induction es generalizing m with
  | nil => exact h
  | cons e es ih => exact ih (h.addExport e.1 e.2)

/-- **Every module is made by additions.** -/
theorem exists_built (m : ScriptModule) : ∃ added, m.Built added := by
  have hbuilt := (((Built.empty m.path m.source).pushStatements m.statements).addImports
    m.imports.entries).addExports m.exports.entries
  refine ⟨[] ++ m.imports.entries, ?_⟩
  obtain ⟨path, source, statements, imports, exports, selected⟩ := m
  simp only [ScriptModule.empty, List.nil_append, OrderedMap.fill_entries] at hbuilt ⊢
  cases selected with
  | none => exact hbuilt
  | some selection => exact hbuilt.recordSelection selection

/-! ### Which imports are noted -/

variable {options : SelectOptions} {selection : Selection}

/-- Some use of a name in a live statement comes before all uses of another. -/
def UsedBefore (m : ScriptModule) (mode : SelectionMode) (name other : String) : Prop :=
  ∃ u, m.IsNameUse mode u ∧ u.name = name ∧
    ∀ v, m.IsNameUse mode v → v.name = other → u.place < v.place

/-- Imports are noted in the order in which their names are first used. -/
theorem pairwise_external (h : m.select options = .ok selection) :
    selection.external.toList.Pairwise fun a b ↦
      m.UsedBefore options.mode a.localName b.localName := by
  have hmem := fun e ↦ mem_external_iff h (e := e)
  obtain ⟨-, rfl⟩ := select_eq_ok_iff.1 h
  refine (OrderedSet.pairwise_ofList _).imp_of_mem ?_
  rintro a b - hb ⟨before, ⟨after, hsplit⟩, ha, hnot⟩
  -- The part of the noted imports that has `a` and not yet `b` comes of a part of the uses.
  obtain ⟨us, vs, huses, rfl, -⟩ := List.filterMap_eq_append_iff.1 hsplit.symm
  obtain ⟨u, hu, hneeded⟩ := List.mem_filterMap.1 ha
  have huse : u ∈ m.nameUses options.mode := huses ▸ List.mem_append_left vs hu
  refine ⟨u, m.mem_nameUses_iff.1 huse, (neededImport?_eq_some_iff.1 hneeded).1,
    fun v hv hname ↦ ?_⟩
  have hv' : v ∈ us ∨ v ∈ vs := List.mem_append.1 (huses ▸ m.mem_nameUses_iff.2 hv)
  have hlate : v ∉ us := fun hearly ↦ hnot (List.mem_filterMap.2
    ⟨v, hearly, neededImport?_eq_some_iff.2 ⟨hname, ((hmem b).1 hb).2⟩⟩)
  have hsorted := m.pairwise_nameUses options.mode
  rw [huses, List.pairwise_append] at hsorted
  exact hsorted.2.2 u hu v (hv'.resolve_left hlate)

/-- No name is before itself. -/
theorem UsedBefore.ne {mode : SelectionMode} {name other : String}
    (h : m.UsedBefore mode name other) : name ≠ other := by
  obtain ⟨u, hu, hname, hbefore⟩ := h
  rintro rfl
  exact lt_irrefl _ (hbefore u hu hname)

/-- **The noted imports are exact.** A selection by reachability notes one import for each imported
name that a live statement uses and no statement declares, whether the name is global as well or
not. It stands for what was added last under that name, however the module was made, and the imports
stand in the order in which the live statements first use their names. -/
theorem select_external_exactly {globals : KnownGlobals}
    (h : m.select ⟨.reachability, globals⟩ = .ok selection) :
    (∃ added, m.Built added) ∧
    (∀ added, m.Built added → ∀ name binding,
      ⟨name, binding⟩ ∈ selection.external.toList ↔
        (∃ i, m.Live i ∧ m.Uses i name) ∧ (∀ j, ¬ m.Declares j name) ∧
          added.reverse.lookup name = some binding) ∧
    (selection.external.toList.map ExternalImport.localName).Nodup ∧
    selection.external.toList.Pairwise fun a b ↦
      m.UsedBefore .reachability a.localName b.localName := by
  have hordered := pairwise_external h
  refine ⟨m.exists_built, fun added hm name binding ↦ ?_, ?_, hordered⟩
  · rw [← hm.get?_imports]
    exact mem_external_iff h
  · exact List.pairwise_map.2 (hordered.imp UsedBefore.ne)

/-- Imports of which one comes twice. -/
def catalogImports : List (String × ImportBinding) :=
  [("item", ⟨"item", "./old"⟩), ("unit", ⟨"*", "./unit"⟩), ("price", ⟨"price", "./price"⟩),
    ("console", ⟨"default", "./console"⟩), ("spare", ⟨"spare", "./spare"⟩),
    ("item", ⟨"item", "./new"⟩)]

/-- A module with these imports, of which one is global as well, one is declared by the module
itself, and one is used by a dead statement only. -/
def catalogModule : ScriptModule where
  path := ⟨"catalog.js"⟩
  source := ""
  statements :=
    [⟨.importLink, ⟨0, 0⟩, .empty, .empty⟩,
     ⟨.plain, ⟨0, 0⟩, .ofList ["dead"], .ofList ["spare"]⟩,
     ⟨.plain, ⟨0, 0⟩, .empty, .ofList ["console", "price"]⟩,
     ⟨.plain, ⟨0, 0⟩, .ofList ["price"], .ofList ["item", "console"]⟩,
     ⟨.exportList, ⟨0, 0⟩, .empty, .ofList ["item", "unit"]⟩]
  imports := .fill .empty catalogImports
  exports := .empty
  selected := none

theorem built_catalogModule : catalogModule.Built catalogImports :=
  ((Built.empty ⟨"catalog.js"⟩ "").pushStatements _).addImports catalogImports

/-- What is needed of the module. -/
def catalogNeeded : Selection :=
  ⟨[2, 3], .ofList [⟨"console", "default", "./console"⟩, ⟨"item", "item", "./new"⟩,
    ⟨"unit", "*", "./unit"⟩]⟩

theorem select_catalogModule :
    catalogModule.select ⟨.reachability, ⟨[]⟩⟩ = .ok catalogNeeded := by
  decide

theorem select_external_exactly_catalog :
    catalogModule.select ⟨.reachability, ⟨[]⟩⟩ = .ok catalogNeeded ∧
      catalogModule.Built catalogImports ∧
      catalogModule.UsedBefore .reachability "console" "item" ∧ ¬ catalogModule.Live 1 := by
  obtain ⟨-, hexact, -, hordered⟩ := select_external_exactly select_catalogModule
  refine ⟨select_catalogModule, built_catalogModule,
    (List.pairwise_cons.1 hordered).1 ⟨"item", "item", "./new"⟩ (by decide), fun hlive ↦ ?_⟩
  -- Were the second statement live, the import that it uses would have been noted.
  have hspare := (hexact _ built_catalogModule "spare" ⟨"spare", "./spare"⟩).2
    ⟨⟨1, hlive, _, rfl, by decide⟩, catalogModule.any_isDefinerOf_eq_false_iff.1 (by decide), rfl⟩
  exact absurd hspare (by decide)

end AppletBundle.Script.ScriptModule
