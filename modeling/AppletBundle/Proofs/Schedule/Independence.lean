import AppletBundle.Proofs.Bundle.Agreement
import AppletBundle.Proofs.Bundle.Failing
import AppletBundle.Proofs.Schedule.LeftToRight

/-!
# Schedules do not matter

`AssetGraph.package_schedules`: however the work on siblings is ordered, packaging a valid graph
comes to an end, and to the same end: the same result, outputs, imports and record of the build, and
the same files, only in another order. The files of a page are those of its tree, so they are the
same in two graphs that agree on it.

The schedules are those of `AssetGraph.packagingJob`. Each of them comes to what the one from left
to right comes to (`Job.eq_run_of_steps`), and that one is packaging (`Packagers.performs_treeJob`).
-/

namespace AppletBundle

open AssetTree Packagers

/-- The files that have been written of the bundle of an asset. -/
def Shared.filesOf {σ : Type} (x : Shared σ) (owner : AssetId) : List BundleFile :=
  (x.written.filter fun y ↦ y.1 = owner).map Prod.snd

namespace AssetGraph

variable {σ : Type} {g : AssetGraph} {p : Packagers} {w : Writer σ}
  {verdict : BundleFile → Outcome Unit} {outDir : Path} {context : BuildContext} {s : σ}
  {app : Asset} {pages : List AssetTree}

/-! ### Schedules of packaging -/

/-- The job of packaging a graph. -/
def packagingJob (g : AssetGraph) (p : Packagers) (outDir : Path) :
    PackagingJob (List PackagedAsset × List BundleRecord) :=
  match g.validate, g.root.bind g.tree? with
  | .error f, _ => .done (.error f)
  | .ok (), none => .done (invalid "<root>" "the tree has no app")
  | .ok (), some (.node app pages) => p.treeJob outDir app pages

/-- A schedule of packaging a graph, up to some point of it. -/
def Schedule (g : AssetGraph) (p : Packagers) (w : Writer σ) (outDir : Path) (s : σ)
    (x : Shared σ × PackagingJob (List PackagedAsset × List BundleRecord)) : Prop :=
  Job.Steps (serve p w) (⟨g, [], s⟩, g.packagingJob p outDir) x

theorem packagingJob_of_spread (hg : g.Linked) (hv : g.validate = .ok ()) (h : g.Spread app pages) :
    g.packagingJob p outDir = p.treeJob outDir app pages := by
  rw [packagingJob, hv, hg.tree?_of_spread h]

/-- **The end of every schedule** is that of the one from left to right. -/
theorem Built.end_of_schedule (hg : g.Built) (hv : g.validate = .ok ()) (hw : w.Decides verdict)
    (h : g.Spread app pages) {final : Shared σ}
    {result : Outcome (List PackagedAsset × List BundleRecord)}
    (hs : g.Schedule p w outDir s (final, .done result)) :
    result = (p.treeWork verdict outDir app pages).result ∧
      final.graph = g.setModules (p.treeWork verdict outDir app pages).modules ∧
      (↑final.written : Multiset (AssetId × BundleFile)) =
        ↑(p.filesOfTree verdict outDir app pages) := by
  have hplaced : WellPlaced pages := by
    obtain ⟨app', pages', hspread', hplaced', -⟩ := hg.exists_spread hv
    obtain ⟨-, rfl⟩ := hg.linked.spread_unique h hspread'
    exact hplaced'
  have hnodup := hg.nodup_of_spread h
  have hbelow : ((postOrderAll pages).map Asset.id).Nodup := by
    rw [List.map_append, List.nodup_append] at hnodup
    exact hnodup.1
  rw [Schedule, packagingJob_of_spread hg.linked hv h] at hs
  have hrun := Job.eq_run_of_steps (confined_treeJob hbelow).independent
    (Job.Steps.view (hw.views p) hs)
  have hperforms : Performs p verdict _ (p.treeJob outDir app pages) _ _ :=
    performs_treeJob hplaced hnodup
  have hleft := hperforms.run g 0 (hg.linked.get?_of_spread h)
  rw [Multiset.zero_add] at hleft
  obtain ⟨hresult, hstate⟩ := Prod.mk.inj (hrun.symm.trans hleft)
  obtain ⟨hgraph, hfiles⟩ := Prod.mk.inj hstate
  exact ⟨hresult, hgraph, hfiles⟩

/-- Packaging is what the tree comes to, with its conclusion. -/
theorem Built.package_eq_of_spread (hg : g.Built) (hv : g.validate = .ok ())
    (hw : w.Decides verdict) (h : g.Spread app pages) (outDir : Path) (context : BuildContext)
    (s : σ) :
    ∃ state, g.package p w outDir context s =
      conclude (p.treeWork verdict outDir app pages).result
        (g.setModules (p.treeWork verdict outDir app pages).modules) context state := by
  obtain ⟨app', pages', hspread, -, hrun⟩ := hg.package_eq (p := p) hv outDir context
  obtain ⟨rfl, rfl⟩ := hg.linked.spread_unique h hspread
  have hrecorded := w.simulates_recording.packageTree p outDir app pages (s := s) (t := (s, [])) rfl
  have hdecided := hw.simulates_deciding.packageTree p outDir app pages (s := (s, [])) (t := []) rfl
  refine ⟨(packageTree p w outDir app pages s).state, ?_⟩
  rw [hrun, hrecorded.result, hrecorded.modules, hdecided.result, hdecided.modules]
  rfl

/-- The files of a run are those of the tree. -/
theorem Built.filesOfRun_eq_of_spread (hg : g.Built) (hv : g.validate = .ok ())
    (hw : w.Decides verdict) (h : g.Spread app pages) (outDir : Path) (context : BuildContext)
    (s : σ) :
    g.filesOfRun p w outDir context s = (p.filesOfTree verdict outDir app pages).map Prod.snd := by
  obtain ⟨app', pages', hspread, -, hfiles⟩ := hg.run_eq (p := p) hw hv outDir context s
  obtain ⟨rfl, rfl⟩ := hg.linked.spread_unique h hspread
  have howner : ∀ (owner : AssetId) files, (ofOwner owner files).map Prod.snd = files := by
    intro owner files
    rw [ofOwner, List.map_map]
    exact List.map_id files
  rw [hfiles, writtenFiles, filesOfTree, filesOfPages, List.map_append, List.map_flatMap, howner]
  simp only [howner]

/-! ### The files of one page -/

theorem filter_ofOwner_self (owner : AssetId) (files : List BundleFile) :
    ((ofOwner owner files).filter fun y ↦ y.1 = owner).map Prod.snd = files := by
  have hall : ∀ y ∈ ofOwner owner files, decide (y.1 = owner) := by
    intro y hy
    obtain ⟨file, -, rfl⟩ := List.mem_map.1 hy
    exact decide_eq_true rfl
  rw [List.filter_eq_self.2 hall, ofOwner, List.map_map]
  exact List.map_id files

theorem filter_ofOwner_of_ne {owner i : AssetId} (h : owner ≠ i) (files : List BundleFile) :
    ((ofOwner owner files).filter fun y ↦ y.1 = i) = [] := by
  refine List.filter_eq_nil_iff.2 fun y hy ↦ ?_
  obtain ⟨file, -, rfl⟩ := List.mem_map.1 hy
  simpa using h

/-- The files that have the number of a page are its own. -/
theorem filter_filesOfPages {page : AssetTree} (hpage : page ∈ pages)
    (h : (pages.map fun t ↦ t.asset.id).Nodup) :
    ((p.filesOfPages verdict outDir pages).filter fun y ↦ y.1 = page.asset.id).map Prod.snd =
      p.writtenOfPage verdict outDir page := by
  induction pages with
  | nil => exact absurd hpage List.not_mem_nil
  | cons t pages ih =>
    rw [List.map_cons, List.nodup_cons] at h
    obtain ⟨hfresh, hnodup⟩ := h
    have hcons : p.filesOfPages verdict outDir (t :: pages) =
        ofOwner t.asset.id (p.writtenOfPage verdict outDir t) ++
          p.filesOfPages verdict outDir pages := List.flatMap_cons
    rw [hcons, List.filter_append, List.map_append]
    rcases List.mem_cons.1 hpage with rfl | hpage
    · have hothers : (p.filesOfPages verdict outDir pages).filter
          (fun y ↦ y.1 = page.asset.id) = [] := by
        refine List.filter_eq_nil_iff.2 fun y hy ↦ ?_
        obtain ⟨u, hu, hyu⟩ := List.mem_flatMap.1 hy
        obtain ⟨file, -, rfl⟩ := List.mem_map.1 hyu
        have hne : u.asset.id ≠ page.asset.id := fun hid ↦ hfresh (hid ▸ List.mem_map_of_mem hu)
        simpa using hne
      rw [hothers, filter_ofOwner_self, List.map_nil, List.append_nil]
    · have hne : t.asset.id ≠ page.asset.id := by
        intro hid
        exact hfresh (hid ▸ List.mem_map_of_mem hpage)
      rw [filter_ofOwner_of_ne hne, List.map_nil, List.nil_append]
      exact ih hpage hnodup

/-- **What a schedule writes for a page is what the page comes to by itself.** -/
theorem Built.filesOf_page (hg : g.Built) (hv : g.validate = .ok ()) (hw : w.Decides verdict)
    (h : g.Spread app pages) {page : AssetTree} (hpage : page ∈ pages) {final : Shared σ}
    {result : Outcome (List PackagedAsset × List BundleRecord)}
    (hs : g.Schedule p w outDir s (final, .done result)) :
    (final.filesOf page.asset.id).Perm (p.writtenOfPage verdict outDir page) := by
  obtain ⟨-, -, hfiles⟩ := hg.end_of_schedule hv hw h hs
  have hperm := ((Multiset.coe_eq_coe.1 hfiles).filter fun y ↦ y.1 = page.asset.id).map Prod.snd
  have hnodup := hg.nodup_of_spread h
  rw [List.map_append, List.nodup_append] at hnodup
  have hids : (pages.map fun t ↦ t.asset.id).Nodup := by
    have hsub := (sublist_postOrderAll pages).map Asset.id
    rw [List.map_map] at hsub
    exact hsub.nodup hnodup.1
  have happ : app.id ≠ page.asset.id := by
    intro hid
    have hmem : page.asset ∈ postOrderAll pages :=
      (sublist_postOrderAll pages).subset (List.mem_map_of_mem hpage)
    exact hnodup.2.2 _ (List.mem_map_of_mem hmem) _ (List.mem_singleton.2 rfl) hid.symm
  rw [filesOfTree, List.filter_append, List.map_append, filter_filesOfPages hpage hids,
    filter_ofOwner_of_ne happ, List.map_nil, List.append_nil] at hperm
  exact hperm

/-! ### All schedules -/

/-- The end of a schedule is that of packaging: the same result, the same graph with its outputs and
imports, the same record of the build and the same files. -/
structure EndsAs (g : AssetGraph) (p : Packagers) (w : Writer σ) (outDir : Path)
    (context : BuildContext) (s : σ) (final : Shared σ)
    (outcome : Outcome (List PackagedAsset × List BundleRecord)) : Prop where
  files : (final.written.map Prod.snd).Perm (g.filesOfRun p w outDir context s)
  result : (conclude outcome final.graph context final.state).result =
    (g.package p w outDir context s).result
  graph : (conclude outcome final.graph context final.state).graph =
    (g.package p w outDir context s).graph
  context : (conclude outcome final.graph context final.state).context =
    (g.package p w outDir context s).context

theorem Built.endsAs (hg : g.Built) (hv : g.validate = .ok ()) (hw : w.Decides verdict)
    (context : BuildContext) {final : Shared σ}
    {result : Outcome (List PackagedAsset × List BundleRecord)}
    (hs : g.Schedule p w outDir s (final, .done result)) :
    g.EndsAs p w outDir context s final result := by
  obtain ⟨app, pages, hspread, -⟩ := hg.exists_spread hv
  obtain ⟨rfl, hgraph, hfiles⟩ := hg.end_of_schedule hv hw hspread hs
  obtain ⟨state, hpackage⟩ := hg.package_eq_of_spread (p := p) hv hw hspread outDir context s
  have hrun := hg.filesOfRun_eq_of_spread (p := p) hv hw hspread outDir context s
  rw [← hgraph] at hpackage
  have hfiles' := (Multiset.coe_eq_coe.1 hfiles).map Prod.snd
  rw [← hrun] at hfiles'
  refine ⟨hfiles', ?_, ?_, ?_⟩ <;> rw [hpackage] <;>
    rcases (p.treeWork verdict outDir app pages).result with f | ⟨assets, records⟩ <;> rfl

/-- A tree is that of a page of a graph. -/
def HasPage (g : AssetGraph) (page : AssetTree) : Prop :=
  ∃ app pages, g.Spread app pages ∧ page ∈ pages

/-- **Packaging does not depend on the order in which siblings are worked on.** Every schedule ends,
wherever it has got to, and it ends as packaging does. The files it writes for a page depend on what
is below that page alone: they are the same for a page of another graph that agrees with it. -/
theorem package_schedules (hg : g.Built) (hv : g.validate = .ok ()) (hw : w.Decides verdict)
    (outDir : Path) (context : BuildContext) (s : σ) :
    (∀ x, g.Schedule p w outDir s x → Acc (fun z y ↦ Job.StepOf (serve p w) y z) x ∧
      ∃ final result, Job.Steps (serve p w) x (final, .done result)) ∧
    (∀ final result, g.Schedule p w outDir s (final, .done result) →
      g.EndsAs p w outDir context s final result) ∧
    ∀ (τ : Type) (g' : AssetGraph) (w' : Writer τ) (s' : τ), g'.Built → g'.validate = .ok () →
      w'.Decides verdict → ∀ page page', g.HasPage page → g'.HasPage page' →
        p.Agree [page] [page'] → ∀ final result final' result',
          g.Schedule p w outDir s (final, .done result) →
          g'.Schedule p w' outDir s' (final', .done result') →
            (final.filesOf page.asset.id).Perm (final'.filesOf page'.asset.id) := by
  refine ⟨fun x _ ↦ ⟨Job.acc_step _ x, ?_⟩, fun final result hs ↦ hg.endsAs hv hw context hs, ?_⟩
  · exact ⟨_, _, Job.steps_run x.2 x.1⟩
  · rintro τ g' w' s' hg' hv' hw' page page' ⟨app, pages, hspread, hpage⟩
      ⟨app', pages', hspread', hpage'⟩ hagree final result final' result' hs hs'
    have hfiles := hg.filesOf_page hv hw hspread hpage hs
    have hfiles' := hg'.filesOf_page hv' hw' hspread' hpage' hs'
    rw [hagree.writtenOfPage_eq verdict outDir] at hfiles
    exact hfiles.trans hfiles'.symm

/-- A page that lies before the shelf. -/
def counter : Asset :=
  ⟨1, .page "/counter", "counter", ⟨"counter"⟩,
    { styled "counter" with markup := some ⟨⟨"counter.html"⟩, "c"⟩ }, .empty, some 0, .empty,
    .empty⟩

/-- The shelf where it comes after another page. -/
def shelf' : Asset :=
  { shelf with id := 2, children := (OrderedMap.empty.insert "card" 3).insert "button" 5 }

def card' : Asset :=
  { card with id := 3, children := OrderedMap.empty.insert "button" 4, parent := some 2 }

/-- The shelf and what is below it, after another page. -/
def shopGraph : AssetGraph where
  nodes :=
    [⟨0, .app, "shop", ⟨"shop"⟩, .empty,
      (OrderedMap.empty.insert "counter" 1).insert "shelf" 2, none, .empty, .empty⟩,
     counter, shelf', card', button 4 3, button 5 2]
  root := some 0

theorem built_shopGraph : shopGraph.Built := by
  have hshop := Built.addApp .empty
    (rfl : AssetGraph.empty.addApp "shop" ⟨"shop"⟩ .empty = .ok (0, _))
  have hcounter := hshop.addChild
    (rfl : addChild _ 0 counter.kind "counter" ⟨"counter"⟩ counter.siblings = .ok (1, _))
  have hshelf := hcounter.addChild
    (rfl : addChild _ 0 shelf.kind "shelf" ⟨"shelf"⟩ shelf.siblings = .ok (2, _))
  have hcard := hshelf.addChild
    (rfl : addChild _ 2 card.kind "card" ⟨"card"⟩ card.siblings = .ok (3, _))
  have hinner := hcard.addChild
    (rfl : addChild _ 3 (button 4 3).kind "button" ⟨"button"⟩ (styled "button") = .ok (4, _))
  exact hinner.addChild
    (rfl : addChild _ 2 (button 5 2).kind "button" ⟨"button"⟩ (styled "button") =
      .ok (5, shopGraph))

/-- A verdict that refuses the style of the counter. -/
def refusesCounter (file : BundleFile) : Outcome Unit :=
  if file.path = ⟨"out/counter.css"⟩ then .error (.ofCause (.other "refused")) else .ok ()

/-- The shelf is written however the work on the counter is ordered, and whatever comes of it. -/
theorem package_schedules_shelf :
    let w := Writer.deciding refusesCounter
    shelfGraph.Built ∧ shelfGraph.validate = .ok () ∧ w.Decides refusesCounter ∧
      shopGraph.Built ∧ shopGraph.validate = .ok () ∧
      (shelfGraph.package verbatim w ⟨"out"⟩ .empty []).result = .ok () ∧
      (shopGraph.package verbatim w ⟨"out"⟩ .empty []).result.isOk = false ∧
      ∃ final outcome final' outcome',
        shelfGraph.Schedule verbatim w ⟨"out"⟩ [] (final, .done outcome) ∧
        shopGraph.Schedule verbatim w ⟨"out"⟩ [] (final', .done outcome') ∧
        (final.written.map Prod.snd).Perm
          [⟨⟨"out/shelf.css"⟩, .style, "button\ncard\nshelf\n"⟩,
            ⟨⟨"out/shelf.jsx"⟩, .markup, "const $shelf = s\n\n"⟩] ∧
        (final.filesOf 1).Perm (final'.filesOf 2) := by
  intro w
  have hw : w.Decides refusesCounter := fun _ _ ↦ rfl
  have hvalid : shelfGraph.validate = .ok () := by decide +kernel
  have hvalid' : shopGraph.validate = .ok () := by decide +kernel
  obtain ⟨hends, hend, hpages⟩ := package_schedules (p := verbatim) built_shelfGraph hvalid hw
    ⟨"out"⟩ .empty []
  obtain ⟨-, final, outcome, hs⟩ := hends _ .refl
  obtain ⟨hends', -, -⟩ := package_schedules (p := verbatim) built_shopGraph hvalid' hw
    ⟨"out"⟩ .empty []
  obtain ⟨-, final', outcome', hs'⟩ := hends' _ .refl
  refine ⟨built_shelfGraph, hvalid, hw, built_shopGraph, hvalid', ?_, ?_, final, outcome, final',
    outcome', hs, hs', ?_, ?_⟩
  · decide +kernel
  · decide +kernel
  · have hfiles := (hend final outcome hs).files
    have hrun : shelfGraph.filesOfRun verbatim w ⟨"out"⟩ .empty [] =
        [⟨⟨"out/shelf.css"⟩, .style, "button\ncard\nshelf\n"⟩,
          ⟨⟨"out/shelf.jsx"⟩, .markup, "const $shelf = s\n\n"⟩] := by decide +kernel
    exact hrun ▸ hfiles
  · have hpage : shelfGraph.HasPage
        (.node shelf [.node card [.node (button 3 2) []], .node (button 4 1) []]) :=
      ⟨_, _, ⟨⟨0, rfl, rfl⟩, rfl, .cons rfl unfolds_shelf .nil⟩, List.mem_cons_self⟩
    have hpage' : shopGraph.HasPage (.node shelf' [.node card' [.node (button 4 3) []],
        .node (button 5 2) []]) := by
      have hbelow : shopGraph.Unfolds shelf'.children.values
          [.node card' [.node (button 4 3) []], .node (button 5 2) []] :=
        .cons rfl (.cons rfl .nil .nil) (.cons rfl .nil .nil)
      exact ⟨_, _, ⟨⟨0, rfl, rfl⟩, rfl, .cons rfl .nil (.cons rfl hbelow .nil)⟩,
        List.mem_cons_of_mem _ List.mem_cons_self⟩
    have halike : ∀ {a b : Asset}, a.kind = b.kind → a.identity = b.identity → a.path = b.path →
        a.siblings = b.siblings → verbatim.Alike a b := fun hkind hidentity hpath hsiblings ↦
      ⟨hkind, hidentity, hpath, hsiblings, rfl, rfl, rfl⟩
    have hbutton : verbatim.Agree [.node (button 4 1) []] [.node (button 5 2) []] :=
      .cons (halike rfl rfl rfl rfl) .nil .nil
    have hinner : verbatim.Agree [.node (button 3 2) []] [.node (button 4 3) []] :=
      .cons (halike rfl rfl rfl rfl) .nil .nil
    have hagree := Agree.cons (halike (a := shelf) (b := shelf') rfl rfl rfl rfl)
      (.cons (halike (a := card) (b := card') rfl rfl rfl rfl) hinner hbutton) .nil
    exact hpages (List BundleFile) shopGraph w [] built_shopGraph hvalid' hw _ _ hpage hpage' hagree
      final outcome final' outcome' hs hs'

end AssetGraph

end AppletBundle
