import AppletBundle.Proofs.Asset.Addition
import AppletBundle.Proofs.Project.Repeats
import AppletBundle.Proofs.Project.Unfolding

/-!
# The graph of a project

Every page of the app is new when it is loaded, or loading fails, so different pages have different
bases. With what is declared below them the pages are appended to the app one after the other
(`exists_grows_of_load`), and what is known of the appended trees holds of all assets of the graph
(`Loaded`). `load_unfolds` adds that repeated declarations make no difference.
-/

namespace AppletBundle

open AssetTree

namespace Project

open AssetGraph

variable {p : Project}

/-! ### Assets and their declarations -/

/-- The assets with some numbers are what is declared, in the same order. -/
def Lists (p : Project) (g : AssetGraph) (ids : List AssetId) (ds : List Declaration) : Prop :=
  List.Forall₂ (fun id d ↦ ∃ a, g.get? id = some a ∧ p.Makes d a) ids ds

/-- The graph has what the manifests declare, each part under the one that declares it, and numbers
go down before they go on. -/
structure Loaded (p : Project) (g : AssetGraph) : Prop where
  root : g.root = some 0
  app : ∃ m app, p.appManifest = .ok m ∧ g.get? 0 = some app ∧ p.Makes (.app, appBase) app ∧
    p.Lists g app.children.values (pagesOf m) ∧ (m.pages.map pageBase).Nodup
  unit : ∀ {id a}, id ≠ 0 → g.get? id = some a → ∃ m, p.unitManifest a.path = .ok m ∧
    p.Lists g a.children.values (componentsOf a.path m) ∧
    ((componentsOf a.path m).map Prod.snd).Nodup
  preOrder : ∃ t, g.tree? 0 = some t ∧ t.preOrder.map Asset.id = List.range g.size

namespace Unrolls

variable {g : AssetGraph} {ids : List AssetId} {ds : List Declaration} {ts : List AssetTree}

theorem lists (h : p.Unrolls ds ts) (hts : g.Unfolds ids ts) : p.Lists g ids ds := by
  induction h generalizing ids with
  | nil =>
    cases hts
    exact .nil
  | cons ha _ _ _ _ ih =>
    cases hts with
    | cons hget _ hrest => exact .cons ⟨_, hget, ha⟩ (ih hrest)

/-- The children of every asset in the trees are what is declared at its base. -/
theorem lists_of_mem (h : p.Unrolls ds ts) (hts : g.Unfolds ids ts) {a : Asset}
    (ha : a ∈ preOrderAll ts) :
    ∃ m, p.unitManifest a.path = .ok m ∧ p.Lists g a.children.values (componentsOf a.path m) := by
  induction h generalizing ids with
  | nil => exact absurd ha List.not_mem_nil
  | cons hb hm hbelow _ ih ihs =>
    cases hts with
    | cons _ hunder hrest =>
      rw [preOrderAll, preOrder, List.cons_append, List.mem_cons, List.mem_append] at ha
      rcases ha with rfl | ha | ha
      · rw [hb.path]
        exact ⟨_, hm, hbelow.lists hunder⟩
      · exact ih hunder ha
      · exact ihs hrest ha

end Unrolls

/-! ### Pages -/

/-- **A page that is loaded** is new below its app, and is appended with all below it. -/
theorem grows_of_loadPage (hinj : Set.InjOn contentIdentity p.keys) {g g' : AssetGraph}
    {app : AssetId} {above : Asset} {route : String} (hbase : p.Reaches (pageBase route))
    (hg : g.Linked) (habove : g.get? app = some above) (h : p.loadPage app g route = .ok g') :
    above.children.get? (contentIdentity (keyOf (pageBase route))) = none ∧
      ∃ t, Grows g app g' [t] ∧ p.Unrolls [(.page route, pageBase route)] [t] := by
  rw [loadPage] at h
  obtain ⟨siblings, hsiblings, h⟩ := Outcome.bind_eq_ok.1 h
  obtain ⟨⟨page, g₁⟩, hadd, h⟩ := Outcome.bind_eq_ok.1 h
  have hkey := get?_eq_none_of_addChild rfl habove hadd
  rw [addChild_eq_attach (by simp) habove hkey] at hadd
  cases hadd
  have hfilled := filled_of_loadComponents hinj hbase (hg.attach habove hkey)
    ((get?_attach_eq_some_iff habove).2 (.inr (.inr ⟨rfl, rfl⟩))) rfl h
  exact ⟨hkey, Filled.grows_of_attach hsiblings habove hkey hfilled⟩

/-- The graph of an app alone. -/
def appAlone (siblings : SiblingModules) : AssetGraph :=
  AssetGraph.empty.withApp (contentIdentity appBase.text) appBase siblings

theorem exists_grows_of_load (hinj : Set.InjOn contentIdentity p.keys) {g : AssetGraph}
    (h : p.load = .ok g) :
    ∃ m siblings ts, p.appManifest = .ok m ∧ p.siblings appBase = .ok siblings ∧
      Grows (appAlone siblings) 0 g ts ∧ p.Unrolls (pagesOf m) ts ∧
      (m.pages.map pageBase).Nodup := by
  rw [load] at h
  obtain ⟨m, hm, h⟩ := Outcome.bind_eq_ok.1 h
  obtain ⟨siblings, hsiblings, h⟩ := Outcome.bind_eq_ok.1 h
  obtain ⟨⟨app, g₀⟩, hadd, h⟩ := Outcome.bind_eq_ok.1 h
  have hlinked := Linked.empty.addApp hadd
  rw [addApp_eq_withApp rfl] at hadd
  cases hadd
  refine ⟨m, siblings, ?_⟩
  suffices ∃ ts, Grows (appAlone siblings) 0 g ts ∧ p.Unrolls (pagesOf m) ts ∧
      (m.pages.map pageBase).Nodup by
    obtain ⟨ts, hts⟩ := this
    exact ⟨ts, hm, hsiblings, hts⟩
  refine Outcome.foldlM_induction (P := fun routes g ↦
    ∃ ts, Grows (appAlone siblings) 0 g ts ∧
      p.Unrolls (routes.map fun route ↦ (.page route, pageBase route)) ts ∧
      (routes.map pageBase).Nodup) ⟨[], .refl hlinked 0, .nil, List.nodup_nil⟩ ?_ h
  rintro routes route g₁ g₂ hroute ⟨ts, hgrows, hunrolls, hnodup⟩ hload
  obtain ⟨children, hget, hentries⟩ := hgrows.top rfl
  obtain ⟨hkey, t, hgrows', hunrolls'⟩ :=
    grows_of_loadPage hinj (.page hm hroute) hgrows.linked hget hload
  refine ⟨ts ++ [t], hgrows.trans Nat.zero_lt_one hgrows', ?_, ?_⟩
  · rw [List.map_append]
    exact hunrolls.append hunrolls'
  · rw [List.map_append, List.nodup_append_comm]
    refine List.nodup_cons.2 ⟨fun hmem ↦ ?_, hnodup⟩
    -- a base that has been there is among the children by its identity
    refine OrderedMap.get?_eq_none_iff.1 hkey ?_
    have hidentities : children.entries.map Prod.fst =
        routes.map fun route ↦ contentIdentity (keyOf (pageBase route)) := by
      have hmap := hunrolls.map_identity
      simp only [List.map_map, Function.comp_def] at hmap
      rw [hentries, ← hmap]
      exact List.map_map
    obtain ⟨route', hroute', hsame⟩ := List.mem_map.1 hmem
    rw [hidentities, ← hsame]
    exact List.mem_map.2 ⟨route', hroute', rfl⟩

/-! ### Projects -/

theorem keyOf_appBase : keyOf appBase = appBase.text := by decide +kernel

/-- The assets of the graph of a project are the app and those of its pages' trees, which are
numbered in pre-order. -/
theorem exists_unrolls_of_load (hinj : Set.InjOn contentIdentity p.keys) {g : AssetGraph}
    (h : p.load = .ok g) :
    ∃ m app ts, p.appManifest = .ok m ∧ g.get? 0 = some app ∧ p.Makes (.app, appBase) app ∧
      g.Unfolds app.children.values ts ∧ p.Unrolls (pagesOf m) ts ∧
      (m.pages.map pageBase).Nodup ∧
      (preOrderAll ts).map Asset.id = List.range' 1 (g.size - 1) ∧
      ∀ {id a}, id ≠ 0 → g.get? id = some a → a ∈ preOrderAll ts := by
  obtain ⟨m, siblings, ts, hm, hsiblings, hgrows, hunrolls, hnodup⟩ := exists_grows_of_load hinj h
  obtain ⟨children, happ, hentries⟩ := hgrows.top rfl
  have hunfolds : g.Unfolds children.values ts := by
    rw [values_of_entries_eq hentries]
    exact hgrows.unfolds
  have hnumbers : (preOrderAll ts).map Asset.id = List.range' 1 (g.size - 1) := hgrows.numbers
  have hsize : g.size = (g.size - 1) + 1 := (Nat.sub_add_cancel hgrows.size_le).symm
  refine ⟨m, _, ts, hm, happ, ?_, hunfolds, hunrolls, hnodup, hnumbers, ?_⟩
  · exact ⟨rfl, rfl, congrArg contentIdentity keyOf_appBase.symm, hsiblings⟩
  · intro id a hid ha
    have hmem : id ∈ (preOrderAll ts).map Asset.id := by
      rw [hnumbers, List.mem_range'_1, Nat.add_comm, ← hsize]
      exact ⟨Nat.one_le_iff_ne_zero.2 hid, lt_size_of_get? ha⟩
    obtain ⟨b, hb, rfl⟩ := List.mem_map.1 hmem
    rwa [← Option.some.inj ((hunfolds.get?_of_mem_preOrder hgrows.linked hb).symm.trans ha)]

theorem loaded_of_load (hinj : Set.InjOn contentIdentity p.keys) {g : AssetGraph}
    (h : p.load = .ok g) : p.Loaded g := by
  obtain ⟨_, _, _, _, _, hgrows, _⟩ := exists_grows_of_load hinj h
  obtain ⟨m, app, ts, hm, happ, hmakes, hunfolds, hunrolls, hnodup, hnumbers, hmem⟩ :=
    exists_unrolls_of_load hinj h
  refine ⟨hgrows.root_eq, ⟨m, app, hm, happ, hmakes, hunrolls.lists hunfolds, hnodup⟩, ?_, ?_⟩
  · intro id a hid ha
    obtain ⟨m, hm, hlists⟩ := hunrolls.lists_of_mem hunfolds (hmem hid ha)
    exact ⟨m, hm, hlists, nodup_firstsOfBase _⟩
  · obtain ⟨us, htree, hus⟩ := hgrows.linked.exists_tree?_eq happ
    obtain rfl := hunfolds.unique hus
    have hsize : g.size = (g.size - 1) + 1 := (Nat.sub_add_cancel hgrows.size_le).symm
    refine ⟨_, htree, ?_⟩
    rw [AssetTree.preOrder, List.map_cons, hnumbers, hsize, List.range_eq_range', List.range'_succ,
      hgrows.linked.id_eq happ]
    rfl

/-- **The graph of a project unfolds its manifests**, and does not depend on repeated
declarations. -/
theorem load_unfolds (p : Project) (hinj : Set.InjOn contentIdentity p.keys) {g : AssetGraph}
    (h : p.load = .ok g) : p.Loaded g ∧ ∀ q, p.Spares q → q.load = .ok g :=
  ⟨loaded_of_load hinj h, fun _ hq ↦ (hq.load_eq_ok_iff g).2 h⟩

/-- A project whose app has one page, a shelf, with the components that are given. -/
def shelfWith (components : String) : Project where
  root := ⟨""⟩
  extensions := .standard
  files := ⟨[(["app.json"], .file (.text "\x7b\"pages\": [\"/shelf\"]\x7d")),
    (["shelf.json"], .file (.text ("\x7b\"usingComponents\": \x7b" ++ components ++ "\x7d\x7d"))),
    (["shelf.wxml"], .file (.text "<card/>")), (["card.wxss"], .file (.text ""))], []⟩

/-- A shelf that uses a card under two tags. -/
def shelf : Project :=
  shelfWith "\"card\": \"card\", \"tile\": \"./card\""

/-- A shelf that uses a card under one. -/
def plainShelf : Project :=
  shelfWith "\"card\": \"card\""

theorem entries_shelf : (shelf.unitManifest ⟨"shelf"⟩).map (fun m ↦ m.usingComponents.entries) =
    .ok [("card", "card"), ("tile", "./card")] := by decide +kernel

theorem unitManifest_card : shelf.unitManifest ⟨"card"⟩ = .ok .empty := by
  rw [unitManifest, if_neg (by decide +kernel)]

theorem eq_of_reaches_shelf {base : Path} (h : shelf.Reaches base) :
    base = ⟨"shelf"⟩ ∨ base = ⟨"card"⟩ := by
  have hmem : base ∈ [(⟨"shelf"⟩ : Path), ⟨"card"⟩] :=
    h.mem_of_closed (by decide +kernel) (by decide +kernel)
  simpa using hmem

/-- The second tag is left out. -/
theorem spares_plainShelf : shelf.Spares plainShelf where
  appManifest := by
    have hsource : plainShelf.readSource (shelf.root.join appManifestName) =
        shelf.readSource (shelf.root.join appManifestName) := by decide +kernel
    exact congrArg (· >>= fun source ↦
      parsed (shelf.root.join appManifestName) (AppManifest.parse? source)) hsource
  files := rfl
  siblings base hbase := by
    have hsources : ∀ kind, plainShelf.sourceModule base kind = shelf.sourceModule base kind := by
      rcases hbase with rfl | hbase
      · rintro (_ | _ | _) <;> decide +kernel
      · rcases eq_of_reaches_shelf hbase with rfl | rfl <;> rintro (_ | _ | _) <;> decide +kernel
    simp only [Project.siblings, hsources]
  unitManifest base hbase := by
    rcases eq_of_reaches_shelf hbase with rfl | rfl
    · have hplain : (plainShelf.unitManifest ⟨"shelf"⟩).map (fun m ↦ m.usingComponents.entries) =
          .ok [("card", "card")] := by decide +kernel
      obtain ⟨m, hm, hentries⟩ := Outcome.map_eq_ok.1 entries_shelf
      obtain ⟨m', hm', hentries'⟩ := Outcome.map_eq_ok.1 hplain
      refine .inr ⟨m, m', hm, hm', ?_⟩
      rw [hentries, hentries']
      have hcard : ∀ place ∈ ["card", "./card"],
          resolveComponent? ⟨"shelf"⟩ place = some ⟨"card"⟩ := by decide +kernel
      have hfirst := hcard "card" List.mem_cons_self
      refine .keep (.drop (hcard "./card" (by decide)) ?_ .nil)
      rw [hfirst]
      exact List.mem_singleton.2 rfl
    · refine .inl (Eq.trans ?_ unitManifest_card.symm)
      rw [unitManifest, if_neg (by decide +kernel)]

theorem load_unfolds_shelf : ∃ g, shelf.load = .ok g ∧ Set.InjOn contentIdentity shelf.keys ∧
    shelf.Loaded g ∧ shelf.Spares plainShelf ∧ plainShelf.load = .ok g ∧ g.size = 3 := by
  have hinj : Set.InjOn contentIdentity shelf.keys := by
    have hne : contentIdentity (keyOf ⟨"shelf"⟩) ≠ contentIdentity (keyOf ⟨"card"⟩) := by
      decide +kernel
    rintro _ ⟨base, hbase, rfl⟩ _ ⟨base', hbase', rfl⟩ heq
    rcases eq_of_reaches_shelf hbase with rfl | rfl <;>
      rcases eq_of_reaches_shelf hbase' with rfl | rfl
    · rfl
    · exact absurd heq hne
    · exact absurd heq.symm hne
    · rfl
  have hsize : shelf.load.map AssetGraph.size = .ok 3 := by decide +kernel
  obtain ⟨g, hload, hsize⟩ := Outcome.map_eq_ok.1 hsize
  obtain ⟨hloaded, hrepeats⟩ := load_unfolds shelf hinj hload
  exact ⟨g, hload, hinj, hloaded, spares_plainShelf, hrepeats plainShelf spares_plainShelf, hsize⟩

end Project

end AppletBundle
