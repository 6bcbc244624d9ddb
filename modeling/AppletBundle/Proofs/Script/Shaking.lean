import AppletBundle.Proofs.Script.Modes
import AppletBundle.Script.Assembly

/-!
# Selecting from what is live

A module can be cut down to its live statements, which get new positions (`shaken`). Selecting from
the module that is left drops nothing more: it keeps all that can be part of the output, notes the
same imports, and puts the same text together.

* Position `k` of the new module stands for position `i` of the old one if
  `m.livePositions[k]? = some i`. Along these pairs the statements are the same, and so is whether
  they are exported, so everything that is left is live (`live_shaken`).
* A name that a live statement uses comes from the same place in both modules (`origin_shaken`),
  since all that declares it is live.
* Selection and assembly go through the live statements as a list (`map_name_nameUses`,
  `retainedTexts_emitted`), and this list is the same (`liveStatements_shaken`).

The main result is `select_shaken`.
-/

namespace AppletBundle.Script.ScriptModule

variable (m : ScriptModule)

/-! ### The live part of a module -/

/-- The live statements with their positions. -/
def liveEntries : List (Statement × ℕ) :=
  ((m.statements.zip m.reachable).zipIdx.filter fun p ↦ p.1.2).map fun p ↦ (p.1.1, p.2)

/-- The live statements in order. -/
def liveStatements : List Statement :=
  m.liveEntries.map Prod.fst

/-- The positions of the live statements in order. -/
def livePositions : List ℕ :=
  m.liveEntries.map Prod.snd

/-- The exports of live statements, with the places of these among the live ones. -/
def liveExports : List (String × ℕ) :=
  m.exports.entries.filterMap fun e ↦ (m.livePositions.idxOf? e.2).map (e.1, ·)

/-- The module that is made of the live statements. -/
def shaken : ScriptModule :=
  m.liveExports.foldl (fun m e ↦ m.addExport e.1 e.2) <|
    m.liveStatements.foldl pushStatement { empty m.path m.source with imports := m.imports }

theorem mem_liveEntries_iff {s : Statement} {i : ℕ} :
    (s, i) ∈ m.liveEntries ↔ m.statements[i]? = some s ∧ m.Live i := by
  simp only [liveEntries, List.mem_map, List.mem_filter, Prod.exists, Prod.mk.injEq,
    List.mem_zipIdx_iff_getElem?, List.getElem?_zip_eq_some, ← marked_reachable_iff]
  constructor
  · rintro ⟨s, l, i, ⟨⟨hs, hl⟩, rfl⟩, rfl, rfl⟩
    exact ⟨hs, hl⟩
  · rintro ⟨hs, hl⟩
    exact ⟨s, true, i, ⟨⟨hs, hl⟩, rfl⟩, rfl, rfl⟩

theorem nodup_livePositions : m.livePositions.Nodup := by
  have hsorted : m.livePositions.Pairwise (· < ·) := by
    rw [livePositions, liveEntries, List.map_map, List.pairwise_map]
    exact (pairwise_zipIdx _ 0).filter _
  exact hsorted.imp Nat.ne_of_lt

theorem foldl_pushStatement (ss : List Statement) :
    ss.foldl pushStatement m = { m with statements := m.statements ++ ss } := by
  induction ss generalizing m with
  | nil => rw [List.foldl_nil, List.append_nil]
  | cons s ss ih =>
    rw [List.foldl_cons, ih, pushStatement, List.append_assoc, List.singleton_append]

theorem foldl_addExport (es : List (String × ℕ)) :
    es.foldl (fun m e ↦ m.addExport e.1 e.2) m = { m with exports := m.exports.fill es } := by
  induction es generalizing m with
  | nil => rfl
  | cons e es ih => exact ih (m.addExport e.1 e.2)

theorem shaken_eq :
    m.shaken =
      ⟨m.path, m.source, m.liveStatements, m.imports, .fill .empty m.liveExports, none⟩ := by
  rw [shaken, foldl_pushStatement, foldl_addExport]
  rfl

theorem statements_shaken : m.shaken.statements = m.liveStatements := by
  rw [shaken_eq]

theorem nodup_keys_liveExports : (m.liveExports.map Prod.fst).Nodup := by
  have hkept : m.liveExports.map Prod.fst =
      (m.exports.entries.filter fun e ↦ (m.livePositions.idxOf? e.2).isSome).map Prod.fst := by
    rw [liveExports, List.map_filterMap, ← List.filterMap_eq_map, List.filterMap_filter]
    refine List.filterMap_congr fun e _ ↦ ?_
    cases m.livePositions.idxOf? e.2 <;> rfl
  rw [hkept]
  exact m.exports.nodup.sublist (List.filter_sublist.map _)

theorem entries_exports_shaken : m.shaken.exports.entries = m.liveExports := by
  rw [shaken_eq]
  exact OrderedMap.entries_fill_empty m.nodup_keys_liveExports

/-! ### What stands for what -/

/-- In a list without repetitions, an element has one place. -/
theorem idxOf?_eq_some_iff_of_nodup {as : List ℕ} (has : as.Nodup) {i k : ℕ} :
    as.idxOf? i = some k ↔ as[k]? = some i := by
  rw [List.idxOf?_eq_some_iff, List.getElem?_eq_some_iff]
  refine exists_congr fun hk ↦ and_iff_left_of_imp ?_
  rintro rfl j hjk hj
  exact absurd ((has.getElem_inj_iff).1 hj) (Nat.ne_of_lt hjk)

variable {m} {i j k : ℕ} {name : String}

theorem getElem?_shaken (hk : m.livePositions[k]? = some i) :
    m.shaken.statements[k]? = m.statements[i]? := by
  rw [livePositions, List.getElem?_map, Option.map_eq_some_iff] at hk
  obtain ⟨⟨s, i⟩, he, rfl⟩ := hk
  rw [statements_shaken, liveStatements, List.getElem?_map, he, Option.map_some,
    (m.mem_liveEntries_iff.1 (List.mem_of_getElem? he)).1]

theorem Live.exists_position (h : m.Live i) : ∃ k : ℕ, m.livePositions[k]? = some i := by
  obtain ⟨s, hs, -⟩ := h.exists_statement
  exact List.mem_iff_getElem?.1 (List.mem_map_of_mem (m.mem_liveEntries_iff.2 ⟨hs, h⟩))

theorem exists_live_of_lt (hk : k < m.shaken.statements.length) :
    ∃ i, m.livePositions[k]? = some i ∧ m.Live i := by
  rw [statements_shaken, liveStatements, List.length_map] at hk
  have he := List.getElem?_eq_getElem hk
  refine ⟨m.liveEntries[k].2, ?_, (m.mem_liveEntries_iff.1 (List.mem_of_getElem? he)).2⟩
  rw [livePositions, List.getElem?_map, he]
  rfl

theorem mem_values_shaken (hk : m.livePositions[k]? = some i) (hi : i ∈ m.exports.values) :
    k ∈ m.shaken.exports.values := by
  obtain ⟨e, he, rfl⟩ := List.mem_map.1 hi
  rw [OrderedMap.values, entries_exports_shaken]
  refine List.mem_map.2 ⟨(e.1, k), List.mem_filterMap.2 ⟨e, he, ?_⟩, rfl⟩
  rw [(idxOf?_eq_some_iff_of_nodup m.nodup_livePositions).2 hk]
  rfl

/-- What is needed from the start stays so. -/
theorem Starts.shaken (h : m.Starts i) (hk : m.livePositions[k]? = some i) : m.shaken.Starts k := by
  obtain ⟨s, hs, hkind, hneeded⟩ := h
  exact ⟨s, (getElem?_shaken hk).trans hs, hkind, hneeded.imp_left (mem_values_shaken hk)⟩

theorem uses_shaken_iff (hk : m.livePositions[k]? = some i) :
    m.shaken.Uses k name ↔ m.Uses i name := by
  rw [Uses, getElem?_shaken hk, Uses]

theorem declares_shaken_iff (hk : m.livePositions[k]? = some i) :
    m.shaken.Declares k name ↔ m.Declares i name := by
  rw [Declares, getElem?_shaken hk, Declares]

/-- What a live statement needs is live in the new module as well. -/
theorem Live.shaken (h : m.Live i) (hk : m.livePositions[k]? = some i) : m.shaken.Live k := by
  induction h generalizing k with
  | start h => exact .start (h.shaken hk)
  | use hi hu hd ih =>
    obtain ⟨l, hl⟩ := hi.exists_position
    exact (ih hl).use ((uses_shaken_iff hl).2 hu) ((declares_shaken_iff hk).2 hd)

/-- **Everything that is left is live.** -/
theorem live_shaken (hk : k < m.shaken.statements.length) : m.shaken.Live k := by
  obtain ⟨i, hi, hlive⟩ := exists_live_of_lt hk
  exact hlive.shaken hi

/-! ### The live statements as a list -/

variable (m) in
theorem liveStatements_eq :
    m.liveStatements = ((m.statements.zip m.reachable).filter Prod.snd).map Prod.fst := by
  rw [liveStatements, liveEntries, List.map_map]
  conv_rhs => rw [← List.zipIdx_map_fst 0 (m.statements.zip m.reachable), List.filter_map,
    List.map_map]
  rfl

theorem liveStatements_shaken : m.shaken.liveStatements = m.liveStatements := by
  have hmarks : ∀ p ∈ m.shaken.statements.zip m.shaken.reachable, p.2 = true := by
    rintro ⟨s, l⟩ hp
    obtain ⟨k, hk⟩ := List.mem_iff_getElem?.1 hp
    obtain ⟨hs, hl⟩ := List.getElem?_zip_eq_some.1 hk
    have hlive := live_shaken (List.getElem?_eq_some_iff.1 hs).1
    exact Option.some.inj (hl.symm.trans (m.shaken.marked_reachable_iff.2 hlive))
  rw [liveStatements_eq, List.filter_eq_self.2 hmarks,
    List.map_fst_zip m.shaken.length_reachable.ge, statements_shaken]

theorem flatMap_ite_nil {α β : Type} (p : α → Bool) (f : α → List β) (as : List α) :
    (as.flatMap fun a ↦ if p a then f a else []) = (as.filter p).flatMap f := by
  induction as with
  | nil => rfl
  | cons a as ih =>
    rw [List.flatMap_cons, ih, List.filter_cons]
    split <;> rfl

variable (m)

/-- The names that live statements use, one statement after the other. -/
theorem map_name_nameUses : (m.nameUses .reachability).map NameUse.name =
    m.liveStatements.flatMap fun s ↦ s.depends.toList := by
  have huses : m.nameUses .reachability = m.liveEntries.flatMap fun e ↦ e.1.nameUses e.2 := by
    rw [nameUses, usesFrom, flatMap_ite_nil, liveEntries, List.flatMap_map]
    rfl
  rw [huses, List.map_flatMap, liveStatements, List.flatMap_map]
  refine List.flatMap_congr fun e _ ↦ ?_
  rw [Statement.nameUses, List.map_map]
  exact List.zipIdx_map_fst 0 e.1.depends.toList

/-- What is put together are the texts of the live statements that can be part of the output. -/
theorem retainedTexts_emitted : m.retainedTexts (m.emitted m.reachable) =
    (m.liveStatements.filter fun s ↦ s.kind.isEmittable).filterMap m.retainedText? := by
  have hemitted : m.emitted m.reachable =
      (m.liveEntries.filter fun e ↦ e.1.kind.isEmittable).map Prod.snd := by
    rw [emitted, liveEntries, List.filter_map, List.filter_filter, List.map_map]
    simp only [Function.comp_def, Bool.and_comm]
  rw [retainedTexts, hemitted, List.filterMap_map, liveStatements, List.filter_map]
  congr 1
  rw [← List.filterMap_eq_map]
  refine List.filterMap_congr fun e he ↦ ?_
  exact (m.mem_liveEntries_iff.1 (List.mem_of_mem_filter he)).1

variable {m}

/-! ### Selecting again -/

/-- A name that a live statement uses is declared by the new module if it was by the old one. -/
theorem exists_declares_shaken_iff (hi : m.Live i) (hu : m.Uses i name) :
    (∃ l, m.shaken.Declares l name) ↔ ∃ j, m.Declares j name := by
  constructor
  · rintro ⟨l, hd⟩
    obtain ⟨s, hs, -⟩ := id hd
    obtain ⟨j, hj, -⟩ := exists_live_of_lt (List.getElem?_eq_some_iff.1 hs).1
    exact ⟨j, (declares_shaken_iff hj).1 hd⟩
  · rintro ⟨j, hd⟩
    obtain ⟨l, hl⟩ := (hi.use hu hd).exists_position
    exact ⟨l, (declares_shaken_iff hl).2 hd⟩

/-- **Names come from where they came from.** -/
theorem origin_shaken (globals : KnownGlobals) (hi : m.Live i) (hu : m.Uses i name) :
    m.shaken.origin globals name = m.origin globals name := by
  have hdefined : m.shaken.statements.any (·.isDefinerOf name) =
      m.statements.any (·.isDefinerOf name) := by
    rw [Bool.eq_iff_iff, any_isDefinerOf_iff, any_isDefinerOf_iff]
    exact exists_declares_shaken_iff hi hu
  have himports : m.shaken.imports = m.imports := by rw [shaken_eq]
  rw [origin, hdefined, himports, origin]

theorem exists_uses_of_mem (h : name ∈ m.liveStatements.flatMap fun s ↦ s.depends.toList) :
    ∃ i, m.Live i ∧ m.Uses i name := by
  obtain ⟨s, hs, hname⟩ := List.mem_flatMap.1 h
  obtain ⟨⟨s, i⟩, he, rfl⟩ := List.mem_map.1 hs
  obtain ⟨hget, hlive⟩ := m.mem_liveEntries_iff.1 he
  exact ⟨i, hlive, s, hget, hname⟩

/-- The imports that are needed are the same, in the same order. -/
theorem filterMap_neededImport?_shaken (globals : KnownGlobals) :
    (m.shaken.nameUses .reachability).filterMap (m.shaken.neededImport? globals) =
      (m.nameUses .reachability).filterMap (m.neededImport? globals) := by
  -- Whether a use needs an import depends on the name alone.
  have hnames : ∀ n : ScriptModule, (n.nameUses .reachability).filterMap (n.neededImport? globals) =
      (n.liveStatements.flatMap fun s ↦ s.depends.toList).filterMap
        fun name ↦ n.neededImport? globals ⟨0, 0, name⟩ := by
    intro n
    rw [← map_name_nameUses, List.filterMap_map]
    rfl
  rw [hnames, hnames, liveStatements_shaken]
  refine List.filterMap_congr fun name hname ↦ ?_
  obtain ⟨i, hi, hu⟩ := exists_uses_of_mem hname
  rw [neededImport?, neededImport?, origin_shaken globals hi hu]

/-- **Selecting again changes nothing.** If a module is cut down to what is live in it, selection
succeeds again, keeps everything that can be part of the output, notes the same imports in the same
order, and what it keeps is put together to the same text. -/
theorem select_shaken {globals : KnownGlobals} {selection : Selection}
    (h : m.select ⟨.reachability, globals⟩ = .ok selection) :
    ∃ again, m.shaken.select ⟨.reachability, globals⟩ = .ok again ∧
      (∀ k, k ∈ again.statements ↔ m.shaken.EmittableAt k) ∧
      again.external = selection.external ∧
      m.shaken.assemble? again.statements = m.assemble? selection.statements := by
  have hresolved : ∀ k name, m.shaken.Live k → m.shaken.Uses k name →
      ¬ m.shaken.Unresolved globals name := by
    intro k name hlive hu
    obtain ⟨s, hs, -⟩ := hlive.exists_statement
    obtain ⟨i, hi, hlive'⟩ := exists_live_of_lt (List.getElem?_eq_some_iff.1 hs).1
    have hu' := (uses_shaken_iff hi).1 hu
    rw [← origin_eq_unresolved_iff, origin_shaken globals hlive' hu', origin_eq_unresolved_iff]
    exact exists_select_eq_ok_iff.1 ⟨selection, h⟩ i name hlive' hu'
  have hselects : ∃ again, m.shaken.select ⟨.reachability, globals⟩ = .ok again :=
    exists_select_eq_ok_iff.2 hresolved
  obtain ⟨again, hagain⟩ := hselects
  refine ⟨again, hagain, fun k ↦ ?_, ?_, ?_⟩
  · rw [mem_statements_iff hagain]
    exact and_iff_left_of_imp fun hemit ↦ live_shaken (lt_length_of_emittableAt hemit)
  · obtain ⟨-, rfl⟩ := select_eq_ok_iff.1 h
    obtain ⟨-, rfl⟩ := select_eq_ok_iff.1 hagain
    exact congrArg OrderedSet.ofList (filterMap_neededImport?_shaken globals)
  · have htext : m.shaken.retainedText? = m.retainedText? := by
      rw [shaken_eq]
      rfl
    have hstatements := (select_eq_ok h).1
    have hstatements' := (select_eq_ok hagain).1
    rw [live] at hstatements hstatements'
    rw [assemble?, assemble?, hstatements, hstatements', retainedTexts_emitted,
      retainedTexts_emitted, liveStatements_shaken, htext]

/-- A module with two declarations that need each other, of which one is exported, and a dead one
between them. -/
def loopModule : ScriptModule where
  path := ⟨"loop.js"⟩
  source := "export let a = b;let dead = b, near;let b = [a, far];export { b };"
  statements :=
    [⟨.exportWrapper 7, ⟨0, 17⟩, .ofList ["a"], .ofList ["b"]⟩,
     ⟨.plain, ⟨17, 36⟩, .ofList ["dead", "near"], .ofList ["b"]⟩,
     ⟨.plain, ⟨36, 53⟩, .ofList ["b"], .ofList ["a", "far"]⟩,
     ⟨.exportList, ⟨53, 66⟩, .empty, .ofList ["b"]⟩]
  imports := .fill .empty [("far", ⟨"far", "./far"⟩)]
  exports := .fill .empty [("a", 0), ("b", 2)]
  selected := none

theorem select_shaken_loop :
    loopModule.select ⟨.reachability, ⟨[]⟩⟩ = .ok ⟨[0, 2], .ofList [⟨"far", "far", "./far"⟩]⟩ ∧
      loopModule.shaken.exports.values = [0, 1] ∧
      ∃ again, loopModule.shaken.select ⟨.reachability, ⟨[]⟩⟩ = .ok again ∧
        2 ∉ again.statements ∧
        loopModule.shaken.assemble? again.statements =
          some "let a = b;\nlet b = [a, far];" := by
  have hselect : loopModule.select ⟨.reachability, ⟨[]⟩⟩ =
      .ok ⟨[0, 2], .ofList [⟨"far", "far", "./far"⟩]⟩ := by decide
  obtain ⟨again, hagain, hstatements, -, htext⟩ := select_shaken hselect
  refine ⟨hselect, by decide, again, hagain, ?_, htext.trans (by decide)⟩
  rw [hstatements]
  rintro ⟨s, hs, hemit⟩
  exact absurd hemit (by rw [← Option.some.inj hs]; decide)

end AppletBundle.Script.ScriptModule
