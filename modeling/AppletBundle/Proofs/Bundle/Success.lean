import AppletBundle.Proofs.Asset.Admission
import AppletBundle.Proofs.Bundle.Failing
import AppletBundle.Proofs.Bundle.Record

/-!
# Packaging that succeeds

What a run that succeeds leaves behind is said in `AssetGraph.package_publishes`: the outputs in the
graph, the written files, and the record of the build with the files of the app and the manifest of
the pages. All four are made from the outputs of the assets, `out`, and agree in them.

The walk lists outputs, and since every asset is in the tree once, what is listed for an asset is
what it holds (`Built.outputOf?_of_spread`). Files and record are those of a walk that succeeds
(`packageTree_recording`); pages have to differ in their routes, under which the manifest keeps
them.
-/

namespace AppletBundle

open AssetTree

/-! ### Outputs -/

namespace Packagers

variable {p : Packagers}

/-- Packaging `a` succeeds, and the last argument is its output in the end: its own for a component
and for the app, that of the bundle for a page. -/
inductive Completes (p : Packagers) (g : AssetGraph) (a : Asset) : Output → Prop
  | component (hk : a.IsComponent) (h : p.Packages a) : Completes p g a (p.ownOutput a)
  | page (hk : a.IsPage) (h : p.Packages a) {ts : List AssetTree}
      (hts : g.Unfolds a.children.values ts) :
      Completes p g a (p.bundleOutput a (postOrderAll ts))
  | app (hk : a.kind = .app) {own : PackagedAsset} (h : (p.packageApp a).result = .ok own) :
      Completes p g a own.output

theorem map_fst_outputsOfPage (pages : List AssetTree) :
    (pages.flatMap p.outputsOfPage).map Prod.fst = (postOrderAll pages).map Asset.id := by
  induction pages with
  | nil => rfl
  | cons t pages ih =>
    obtain ⟨page, ts⟩ := t
    rw [List.flatMap_cons, postOrderAll, postOrder, outputsOfPage]
    simp only [List.map_append, List.map_map, ih, List.map_singleton]
    rfl

/-- All below the app is listed with the output that it has in the end. -/
theorem exists_mem_outputsOfPage {g : AssetGraph} {pages : List AssetTree} {ids : List AssetId}
    (hun : g.Unfolds ids pages)
    (hpages : ∀ page ts, .node page ts ∈ pages → p.PackagesPage page (postOrderAll ts))
    {a : Asset} (ha : a ∈ postOrderAll pages) :
    ∃ o, (a.id, o) ∈ pages.flatMap p.outputsOfPage ∧ p.Completes g a o := by
  obtain ⟨⟨page, ts⟩, ht, hmem⟩ := mem_postOrderAll.1 ha
  have hspec := hpages page ts ht
  rcases mem_postOrder.1 hmem with hmem | rfl
  · obtain ⟨hcomponent, hpackages⟩ := hspec.below a hmem
    refine ⟨p.ownOutput a, List.mem_flatMap.2 ⟨_, ht, ?_⟩, .component hcomponent hpackages⟩
    exact List.mem_append_left _ (List.mem_map.2 ⟨a, hmem, rfl⟩)
  · obtain ⟨-, -, -, hts⟩ := hun.get?_of_node_mem ht
    refine ⟨_, List.mem_flatMap.2 ⟨_, ht, ?_⟩, .page hspec.isPage hspec.own hts⟩
    exact List.mem_append_right _ (List.mem_singleton.2 rfl)

end Packagers

namespace AssetGraph

/-- Entries of pages have the routes of these. -/
theorem map_route_eq_pageRoutes {pages : List AssetTree} {entries : List ManifestEntry}
    {place? : AssetTree → ModuleKind → Option Path}
    (h : List.Forall₂ (fun t e ↦ ManifestEntry.Describes e t.asset (place? t)) pages entries) :
    entries.map ManifestEntry.route = pageRoutes (pages.map AssetTree.asset) := by
  induction h with
  | nil => rfl
  | @cons t e pages entries he _ ih =>
    rw [List.map_cons, List.map_cons, pageRoutes, List.filterMap_cons, he.kind, ih]
    rfl

/-- What a run that succeeds leaves behind: `files` are those it has written, and `out` gives the
output with which each asset ends. -/
structure Published {σ : Type} (p : Packagers) (g : AssetGraph) (outDir : Path) (app : Asset)
    (pages : List Asset) (out : AssetId → Output) (files : List BundleFile) (run : Packaging σ) :
    Prop where
  outputs : ∀ id a, g.get? id = some a →
    run.graph.outputOf? id = some (out id) ∧ p.Completes g a (out id)
  /-- The writes: for every page and for the app, one file for each kind with text, and no other. -/
  files_eq : files = (pages ++ [app]).flatMap fun a ↦
    Writer.slotFiles outDir a (out a.id) ModuleKind.all
  apart : files.Pairwise fun file file' ↦ file.path.components ≠ file'.path.components
  runtime : run.context.runtimeModules =
    [ModuleKind.style, .script].filterMap (Writer.writtenPlace? files outDir app (out app.id))
  /-- One entry for each page, under its route. -/
  manifest : List.Forall₂ (fun page entry ↦ entry.1 = entry.2.route ∧
      entry.2.Describes page (Writer.writtenPlace? files outDir page (out page.id)))
    pages run.context.manifest.entries

section package

variable {p : Packagers} {g : AssetGraph} {app : Asset} {pages : List AssetTree} {σ : Type}
  {w : Writer σ} {outDir : Path} {s : σ}

/-- What a tree lists for its assets is what they hold. -/
theorem Built.outputOf?_of_spread (hg : g.Built) (h : g.Spread app pages)
    {assets : List PackagedAsset} {o : Output}
    (hassets : assets.map Packagers.numbered = pages.flatMap p.outputsOfPage ++ [(app.id, o)])
    (modules : List (AssetId × Script.ScriptModule)) {x : AssetId × Output}
    (hx : x ∈ assets.map Packagers.numbered) :
    ((g.setModules modules).setPackaged assets).outputOf? x.1 = some x.2 := by
  have hkeys : (assets.map Packagers.numbered).map Prod.fst =
      (postOrderAll pages ++ [app]).map Asset.id := by
    rw [hassets, List.map_append, Packagers.map_fst_outputsOfPage, List.map_append]
    rfl
  have hnodup : ((assets.map Packagers.numbered).map Prod.fst).Nodup :=
    hkeys ▸ hg.nodup_of_spread h
  have hkey : x.1 ∈ (postOrderAll pages ++ [app]).map Asset.id := hkeys ▸ List.mem_map_of_mem hx
  obtain ⟨a, ha, hid⟩ := List.mem_map.1 hkey
  have hget := hg.linked.get?_of_spread h a ha
  rw [hid] at hget
  obtain ⟨b, hb⟩ : ∃ b, (g.setModules modules).get? x.1 = some b :=
    exists_get?_foldl_modify _ _ modules hget
  exact outputOf?_setPackaged hb hx fun y hy heq ↦
    congrArg Prod.snd (List.inj_on_of_nodup_map hnodup hy hx heq)

/-- A run that succeeds is a walk that succeeds, also for the writer that records. -/
theorem Built.exists_walk (hg : g.Built) {context : BuildContext}
    (h : (g.package p w outDir context s).result = .ok ()) :
    ∃ app pages assets records modules, g.Spread app pages ∧ WellPlaced pages ∧
      (packageTree p w.recording outDir app pages (s, [])).result = .ok (assets, records) ∧
      (g.package p w outDir context s).graph = (g.setModules modules).setPackaged assets ∧
      (g.package p w outDir context s).context = context.recordAll records ∧
      g.filesOfRun p w outDir context s =
        (packageTree p w.recording outDir app pages (s, [])).state.2 := by
  obtain ⟨app, pages, hspread, hplaced, hrun⟩ :=
    hg.package_eq (p := p) (package_eq_ok h).1 outDir context
  have hsame := w.simulates_recording.packageTree p outDir app pages (s := s) (t := (s, [])) rfl
  rw [hrun] at h
  rcases hresult : (packageTree p w outDir app pages s).result with f | ⟨assets, records⟩
  · rw [hresult] at h
    cases h
  refine ⟨app, pages, assets, records, (packageTree p w outDir app pages s).modules, hspread,
    hplaced, hsame.result ▸ hresult, ?_, ?_, ?_⟩
  · rw [hrun, hresult]
    rfl
  · rw [hrun, hresult]
    rfl
  · rw [filesOfRun, hrun, state_conclude]

/-- The tree of a page is one of those that are packaged. -/
theorem Built.node_mem_of_spread (hg : g.Built) (hv : g.validate = .ok ())
    (hspread : g.Spread app pages) (hplaced : WellPlaced pages) {id : AssetId} {page : Asset}
    (hpage : g.get? id = some page) (hk : page.IsPage) {ts : List AssetTree}
    (hts : g.Unfolds page.children.values ts) : .node page ts ∈ pages := by
  obtain ⟨route, hk⟩ := hk
  have hbundle : page ∈ pages.map AssetTree.asset ++ [app] :=
    (hg.mem_bundles_iff hv hspread hplaced).2
      ⟨List.mem_of_getElem? hpage, congrArg AssetKind.isBundle hk⟩
  rcases List.mem_append.1 hbundle with hmem | hmem
  · obtain ⟨⟨page', ts'⟩, ht, rfl⟩ := List.mem_map.1 hmem
    obtain ⟨-, -, -, hts'⟩ := hspread.pages.get?_of_node_mem ht
    rwa [hts.unique hts']
  · rw [List.mem_singleton.1 hmem, hspread.kind] at hk
    cases hk

/-- After a run that succeeds, a page has the output of its bundle, and what is below it has its
own. -/
theorem Built.outputOf?_page (hg : g.Built) {context : BuildContext}
    (h : (g.package p w outDir context s).result = .ok ()) {id : AssetId} {page : Asset}
    (hpage : g.get? id = some page) (hk : page.IsPage) {ts : List AssetTree}
    (hts : g.Unfolds page.children.values ts) :
    (g.package p w outDir context s).graph.outputOf? id =
        some (p.bundleOutput page (postOrderAll ts)) ∧
      ∀ a ∈ postOrderAll ts, a.IsComponent ∧
        (g.package p w outDir context s).graph.outputOf? a.id = some (p.ownOutput a) := by
  obtain ⟨app, pages, assets, records, modules, hspread, hplaced, hwalk, hgraph, -⟩ :=
    hg.exists_walk h
  obtain ⟨hpages, o, hassets⟩ := packageTree_spec hwalk
  have hmem := hg.node_mem_of_spread (package_eq_ok h).1 hspread hplaced hpage hk hts
  have hlisted : ∀ x ∈ p.outputsOfPage (.node page ts),
      (g.package p w outDir context s).graph.outputOf? x.1 = some x.2 := by
    intro x hx
    rw [hgraph]
    exact hg.outputOf?_of_spread hspread hassets modules
      (hassets ▸ List.mem_append_left _ (List.mem_flatMap.2 ⟨_, hmem, hx⟩))
  refine ⟨?_, fun a ha ↦ ⟨((hpages page ts hmem).below a ha).1, ?_⟩⟩
  · rw [← hg.linked.id_eq hpage]
    exact hlisted _ (p.mem_outputsOfPage (.node page ts))
  · exact hlisted (a.id, p.ownOutput a) (List.mem_append_left _ (List.mem_map.2 ⟨a, ha, rfl⟩))

/-- In a run that succeeds, packaging succeeds for a page and all below it. -/
theorem Built.packagesPage (hg : g.Built) {context : BuildContext}
    (h : (g.package p w outDir context s).result = .ok ()) {id : AssetId} {page : Asset}
    (hpage : g.get? id = some page) (hk : page.IsPage) {ts : List AssetTree}
    (hts : g.Unfolds page.children.values ts) : p.PackagesPage page (postOrderAll ts) := by
  obtain ⟨app, pages, assets, records, modules, hspread, hplaced, hwalk, -⟩ := hg.exists_walk h
  exact (packageTree_spec hwalk).1 page ts
    (hg.node_mem_of_spread (package_eq_ok h).1 hspread hplaced hpage hk hts)

/-- A walk that succeeds lists every asset with the output that it has in the end. -/
theorem Built.exists_mem_of_walk (hg : g.Built) (hv : g.validate = .ok ()) (h : g.Spread app pages)
    (hpages : ∀ page ts, .node page ts ∈ pages → p.PackagesPage page (postOrderAll ts))
    {own : PackagedAsset} (hown : (p.packageApp app).result = .ok own) {id : AssetId} {a : Asset}
    (ha : g.get? id = some a) :
    ∃ o, (id, o) ∈ pages.flatMap p.outputsOfPage ++ [(app.id, own.output)] ∧
      p.Completes g a o := by
  rw [← hg.linked.id_eq ha]
  rcases List.mem_append.1 (hg.mem_of_spread hv h ha) with hmem | hmem
  · obtain ⟨o, ho, hcompletes⟩ := Packagers.exists_mem_outputsOfPage h.pages hpages hmem
    exact ⟨o, List.mem_append_left _ ho, hcompletes⟩
  · rw [List.mem_singleton.1 hmem]
    exact ⟨own.output, List.mem_append_right _ (List.mem_singleton.2 rfl), .app h.kind hown⟩

/-- The output that is listed last is that of the asset that is packaged last. -/
theorem output_eq_of_getLast? {assets : List PackagedAsset} {own : PackagedAsset}
    {listed : List (AssetId × Output)} {id : AssetId} {o : Output}
    (hassets : assets.map Packagers.numbered = listed ++ [(id, o)])
    (hlast : assets.getLast? = some own) : own.output = o := by
  have hnumbered : (assets.map Packagers.numbered).getLast? = some (Packagers.numbered own) := by
    rw [List.getLast?_map, hlast, Option.map_some]
  rw [hassets, List.getLast?_concat] at hnumbered
  exact (congrArg Prod.snd (Option.some.inj hnumbered)).symm

/-- The files of the pages and of the app are those of the outputs with which they end. -/
theorem flatMap_pageFiles_append {out : AssetId → Output} {o : Output} (happ : out app.id = o)
    (hpage : ∀ t ∈ pages, out t.asset.id = p.outputOfPage t) :
    pages.flatMap (p.pageFiles outDir) ++ Writer.slotFiles outDir app o ModuleKind.all =
      (pages.map AssetTree.asset ++ [app]).flatMap fun a ↦
        Writer.slotFiles outDir a (out a.id) ModuleKind.all := by
  rw [List.flatMap_append, List.flatMap_map, List.flatMap_singleton, happ]
  refine congrArg (· ++ _) (List.flatMap_congr fun t ht ↦ ?_)
  rw [p.pageFiles_eq, hpage t ht]

/-- **Packaging that succeeds** leaves every asset with its output, and publishes the app and the
pages: their files, the list of the app's and the manifest of the pages'. -/
theorem package_publishes (hg : g.Built)
    (hnames : ∀ a ∈ g.nodes, a.kind.isBundle → '/' ∉ a.identity.toList)
    (hroutes : (pageRoutes g.nodes).Nodup)
    (h : (g.package p w outDir .empty s).result = .ok ()) :
    ∃ app pages out, g.Spread app pages ∧
      ((pages.map AssetTree.asset ++ [app]).map Asset.id).Nodup ∧
      (∀ a, a ∈ pages.map AssetTree.asset ++ [app] ↔ a ∈ g.nodes ∧ a.kind.isBundle) ∧
      Published p g outDir app (pages.map AssetTree.asset) out
        (g.filesOfRun p w outDir .empty s) (g.package p w outDir .empty s) := by
  have hv := (package_eq_ok h).1
  obtain ⟨app, pages, assets, records, modules, hspread, hplaced, hwalk, hgraph, hcontext,
    hfiles⟩ := hg.exists_walk h
  have hbundles := fun a ↦ hg.mem_bundles_iff hv hspread hplaced (a := a)
  have hname : ∀ a ∈ pages.map AssetTree.asset ++ [app], '/' ∉ a.identity.toList := fun a ha ↦
    hnames a ((hbundles a).1 ha).1 ((hbundles a).1 ha).2
  have hids : ((pages.map AssetTree.asset ++ [app]).map Asset.id).Nodup :=
    (((sublist_postOrderAll pages).append (List.Sublist.refl [app])).map Asset.id).nodup
      (hg.nodup_of_spread hspread)
  obtain ⟨own, entries, hown, hlast, hstate, hentries, rfl⟩ :=
    packageTree_recording (hname app (List.mem_append_right _ (List.mem_singleton.2 rfl)))
      (fun t ht ↦ hname _ (List.mem_append_left _ (List.mem_map_of_mem ht))) hwalk
  obtain ⟨hpages, o, hassets⟩ := packageTree_spec hwalk
  obtain rfl : own.output = o := output_eq_of_getLast? hassets hlast
  let out := fun id ↦ ((g.package p w outDir .empty s).graph.outputOf? id).getD .empty
  have hlisted : ∀ x ∈ pages.flatMap p.outputsOfPage ++ [(app.id, own.output)],
      (g.package p w outDir .empty s).graph.outputOf? x.1 = some x.2 := by
    intro x hx
    rw [hgraph]
    exact hg.outputOf?_of_spread hspread hassets modules (hassets ▸ hx)
  have hout : ∀ x ∈ pages.flatMap p.outputsOfPage ++ [(app.id, own.output)], out x.1 = x.2 :=
    fun x hx ↦ congrArg (Option.getD · .empty) (hlisted x hx)
  have happ : out app.id = own.output :=
    hout _ (List.mem_append_right _ (List.mem_singleton.2 rfl))
  have hpage : ∀ t ∈ pages, out t.asset.id = p.outputOfPage t := fun t ht ↦
    hout _ (List.mem_append_left _ (List.mem_flatMap.2 ⟨t, ht, p.mem_outputsOfPage t⟩))
  have hfiles_eq : g.filesOfRun p w outDir .empty s =
      (pages.map AssetTree.asset ++ [app]).flatMap fun a ↦
        Writer.slotFiles outDir a (out a.id) ModuleKind.all := by
    rw [hfiles, hstate, List.nil_append]
    exact flatMap_pageFiles_append happ hpage
  have hplace : ∀ a ∈ pages.map AssetTree.asset ++ [app],
      Writer.writtenPlace? (g.filesOfRun p w outDir .empty s) outDir a (out a.id) =
        Writer.slotPlace? a (out a.id) :=
    fun a ha ↦ hfiles_eq ▸ Writer.writtenPlace?_eq ha
  have happmem : app ∈ pages.map AssetTree.asset ++ [app] :=
    List.mem_append_right _ (List.mem_singleton.2 rfl)
  have hpagemem : ∀ t ∈ pages, t.asset ∈ pages.map AssetTree.asset ++ [app] := fun t ht ↦
    List.mem_append_left _ (List.mem_map_of_mem ht)
  have hidentities := nodup_map_identity (.of_map _ hids) (fun a ha ↦ (hbundles a).1 ha) hv
  have hentryRoutes : (entries.map ManifestEntry.route).Nodup := by
    rw [map_route_eq_pageRoutes hentries]
    refine nodup_filterMap_of_subset ?_ (fun a ha ↦ ?_) hroutes
    · exact .of_map Asset.id ((List.sublist_append_left _ [app]).map Asset.id |>.nodup hids)
    · exact ((hbundles a).1 (List.mem_append_left _ ha)).1
  obtain ⟨hruntime, hmanifest⟩ := BuildContext.recordAll_bundles
    (Writer.pairwise_slotPlace? (hname app happmem) own.output) hentryRoutes
  refine ⟨app, pages, out, hspread, hids, hbundles, ?_, hfiles_eq, ?_, ?_, ?_⟩
  · intro id a ha
    obtain ⟨o, ho, hcompletes⟩ := hg.exists_mem_of_walk hv hspread hpages hown ha
    have hid : out id = o := hout _ ho
    rw [hid]
    exact ⟨hlisted _ ho, hcompletes⟩
  · rw [hfiles_eq]
    exact Writer.pairwise_components_slotFiles out hname hidentities
  · rw [hcontext, hruntime, hplace app happmem, happ]
  · rw [hcontext, hmanifest, List.forall₂_map_left_iff, List.forall₂_map_right_iff]
    refine ((List.forall₂_and_left pages entries).2 ⟨fun t ht ↦ ht, hentries⟩).imp ?_
    rintro t e ⟨ht, hdescribes⟩
    rw [hplace _ (hpagemem t ht), hpage t ht]
    exact ⟨rfl, hdescribes⟩

end package

/-- The shop has no file of its own, and its one page a style and markup. -/
theorem package_publishes_shelf :
    let run := shelfGraph.package verbatim memoryWriter ⟨"out"⟩ .empty []
    let files := shelfGraph.filesOfRun verbatim memoryWriter ⟨"out"⟩ .empty []
    run.result = .ok () ∧
      (∃ app pages out, shelfGraph.Spread app pages ∧
        Published verbatim shelfGraph ⟨"out"⟩ app (pages.map AssetTree.asset) out files run) ∧
      files =
        [⟨⟨"out/shelf.css"⟩, .style, "button\ncard\nshelf\n"⟩,
         ⟨⟨"out/shelf.jsx"⟩, .markup, "const $shelf = s\n\n"⟩] ∧
      run.context.manifest.entries =
        [("/", ⟨"/", "shelf", none, some ⟨"shelf.css"⟩, some ⟨"shelf.jsx"⟩⟩)] := by
  intro run files
  have h : run.result = .ok () := by decide +kernel
  have hnames : ∀ a ∈ shelfGraph.nodes, a.kind.isBundle → '/' ∉ a.identity.toList := by
    decide +kernel
  have hroutes : (pageRoutes shelfGraph.nodes).Nodup := by decide +kernel
  obtain ⟨app, pages, out, hspread, -, -, hpublished⟩ :=
    package_publishes built_shelfGraph hnames hroutes h
  exact ⟨h, ⟨app, pages, out, hspread, hpublished⟩, by decide +kernel, by decide +kernel⟩

end AssetGraph

end AppletBundle
