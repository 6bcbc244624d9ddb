import AppletBundle.Proofs.Schedule.Packaging
import Mathlib.Data.Multiset.AddSub

/-!
# Packaging from left to right

The job of packaging, with its forks taken from left to right, is packaging: it comes to the same
result, leaves the same selections and writes the same files (`Packagers.performs_treeJob`).

`Packagers.Performs` says so for a part of the job and the work that it stands for. It asks that the
graph has the assets of that part as they were when packaging began; what other parts leave in the
graph does not change that, since each keeps to its own assets.
-/

namespace AppletBundle

open AssetTree Script

namespace Packagers

/-- From left to right, a job for the assets `as` comes to the result of some work, leaves the
modules of that work and writes `files`. -/
structure Performs (p : Packagers) (verdict : BundleFile → Outcome Unit) {α : Type}
    (as : List Asset) (j : PackagingJob α) (w : Work α) (files : List (AssetId × BundleFile)) :
    Prop where
  modules : ∀ x ∈ w.modules, x.1 ∈ as.map Asset.id
  run : ∀ (g : AssetGraph) (ws : Multiset (AssetId × BundleFile)),
    (∀ a ∈ as, g.get? a.id = some a) →
      Job.run (serveTally p verdict) j (g, ws) = (w.result, g.setModules w.modules, ws + ↑files)

variable {p : Packagers} {verdict : BundleFile → Outcome Unit} {α β : Type} {as bs : List Asset}
  {files files' : List (AssetId × BundleFile)} {outDir : Path}

/-! ### Parts of a job -/

theorem apart_nil_left : Apart [] bs :=
  fun _ h ↦ absurd h List.not_mem_nil

theorem apart_nil_right : Apart as [] :=
  fun _ _ _ h ↦ absurd h List.not_mem_nil

namespace Performs

protected theorem done (x : Outcome α) : Performs p verdict as (.done x) ⟨x, []⟩ [] where
  modules _ hx := absurd hx List.not_mem_nil
  run g ws _ := by
    rw [Multiset.coe_nil, Multiset.add_zero]
    rfl

theorem mono {j : PackagingJob α} {w : Work α} (h : Performs p verdict as j w files)
    (hsub : as ⊆ bs) : Performs p verdict bs j w files where
  modules x hx := List.map_subset _ hsub (h.modules x hx)
  run g ws hg := h.run g ws fun a ha ↦ hg a (hsub ha)

/-- What a job leaves in the graph is nothing to assets of others. -/
theorem get?_setModules {j : PackagingJob α} {w : Work α} (h : Performs p verdict as j w files)
    (hapart : Apart as bs) {g : AssetGraph} (hg : ∀ b ∈ bs, g.get? b.id = some b) :
    ∀ b ∈ bs, (g.setModules w.modules).get? b.id = some b := by
  intro b hb
  rw [AssetGraph.get?_setModules_of_ne, hg b hb]
  intro x hx hid
  obtain ⟨a, ha, hax⟩ := List.mem_map.1 (h.modules x hx)
  exact hapart a ha b hb (hax.trans hid)

theorem andThen {j : PackagingJob α} {next : α → PackagingJob β} {w : Work α} {v : α → Work β}
    (h : Performs p verdict as j w files) (hapart : Apart as bs)
    (hnext : ∀ a, w.result = .ok a → Performs p verdict bs (next a) (v a) files')
    (hfailed : ∀ f, w.result = .error f → files' = []) :
    Performs p verdict (as ++ bs) (j.andThen next) (w.andThen v) (files ++ files') := by
  rw [Work.andThen]
  rcases hw : w.result with f | a
  · refine ⟨fun x hx ↦ ?_, fun g ws hg ↦ ?_⟩
    · exact List.map_subset _ (List.subset_append_left as bs) (h.modules x hx)
    · rw [Job.andThen, Job.run_bind, h.run g ws fun a ha ↦ hg a (List.mem_append_left _ ha), hw,
        hfailed f hw, List.append_nil]
      rfl
  · have hv := hnext a hw
    refine ⟨fun x hx ↦ ?_, fun g ws hg ↦ ?_⟩
    · rcases List.mem_append.1 hx with hx | hx
      · exact List.map_subset _ (List.subset_append_left as bs) (h.modules x hx)
      · exact List.map_subset _ (List.subset_append_right as bs) (hv.modules x hx)
    · have hbs := h.get?_setModules hapart fun b hb ↦ hg b (List.mem_append_right _ hb)
      rw [Job.andThen, Job.run_bind, h.run g ws fun a ha ↦ hg a (List.mem_append_left _ ha), hw]
      show Job.run (serveTally p verdict) (next a) (g.setModules w.modules, ws + ↑files) = _
      rw [hv.run _ _ hbs, AssetGraph.setModules, AssetGraph.setModules, ← List.foldl_append,
        ← Multiset.coe_add, Multiset.add_assoc]
      rfl

/-- What follows a job and asks for nothing. -/
theorem andThen_pure {j : PackagingJob α} {w : Work α} (h : Performs p verdict as j w files)
    (f : α → Outcome β) :
    Performs p verdict as (j.andThen fun a ↦ .done (f a)) (w.andThen fun a ↦ ⟨f a, []⟩) files := by
  have hboth : Performs p verdict (as ++ []) (j.andThen fun a ↦ .done (f a))
      (w.andThen fun a ↦ ⟨f a, []⟩) (files ++ []) :=
    h.andThen apart_nil_right (fun a _ ↦ .done (f a)) fun _ _ ↦ rfl
  rwa [List.append_nil, List.append_nil] at hboth

theorem all_cons {j : PackagingJob α} {js : List (PackagingJob α)} {w : Work α} {v : List (Work α)}
    (h : Performs p verdict as j w files) (hapart : Apart as bs)
    (hjs : Performs p verdict bs (Job.all js) (Work.all v) files') :
    Performs p verdict (as ++ bs) (Job.all (j :: js)) (Work.all (w :: v)) (files ++ files') := by
  refine ⟨fun x hx ↦ ?_, fun g ws hg ↦ ?_⟩
  · rcases List.mem_append.1 hx with hx | hx
    · exact List.map_subset _ (List.subset_append_left as bs) (h.modules x hx)
    · exact List.map_subset _ (List.subset_append_right as bs) (hjs.modules x hx)
  · have hbs := h.get?_setModules hapart fun b hb ↦ hg b (List.mem_append_right _ hb)
    have hleft := h.run g ws fun a ha ↦ hg a (List.mem_append_left _ ha)
    have hright := hjs.run _ (ws + ↑files) hbs
    rw [Job.all, Job.run, hleft, hright, ← Multiset.coe_add, ← Multiset.add_assoc]
    show (_, (g.setModules w.modules).setModules (Work.all v).modules, _) = _
    rw [AssetGraph.setModules, AssetGraph.setModules, ← List.foldl_append]
    rfl

end Performs

/-! ### Components -/

/-- Packaging a script leaves the module of its asset. -/
theorem eq_id_of_mem_modules {a : Asset} : ∀ x ∈ (p.scriptPart a).modules, x.1 = a.id := by
  intro x hx
  rcases hm : a.siblings.script with - | m
  · simp only [scriptPart, hm] at hx
    exact absurd hx List.not_mem_nil
  · simp only [scriptPart, hm] at hx
    exact congrArg Prod.fst (List.mem_singleton.1 hx)

theorem performs_scriptJob (a : Asset) :
    Performs p verdict [a] (scriptJob a) (p.scriptPart a) [] := by
  refine ⟨fun x hx ↦ ?_, fun g ws hg ↦ ?_⟩
  · exact List.mem_singleton.2 (eq_id_of_mem_modules x hx)
  · have hwork : g.scriptWork p a.id = p.scriptPart a := by
      rw [AssetGraph.scriptWork, hg a (List.mem_singleton.2 rfl), Option.map_some, Option.getD_some]
    have hmodules : (p.scriptPart a).modules.map (fun x ↦ (a.id, x.2)) =
        (p.scriptPart a).modules := by
      have hsame : ∀ x ∈ (p.scriptPart a).modules, (a.id, x.2) = id x :=
        fun x hx ↦ Prod.ext (eq_id_of_mem_modules x hx).symm rfl
      rw [List.map_congr_left hsame, List.map_id]
    show ((g.scriptWork p a.id).result, g.withScriptOf p a.id, ws) = _
    rw [AssetGraph.withScriptOf, hwork, hmodules, Multiset.coe_nil, Multiset.add_zero]

theorem performs_ownJob (a : Asset) :
    Performs p verdict [a] (p.ownJob a) (p.packageOwn a) [] :=
  (Performs.done (p.markupPart a)).andThen apart_nil_left
    (fun _ _ ↦ (performs_scriptJob a).andThen_pure _) fun _ _ ↦ rfl

mutual

/-- Packaging a component and all below it, each asset for itself. -/
theorem performs_componentJob {t : AssetTree} (h : (t.postOrder.map Asset.id).Nodup) :
    Performs p verdict t.postOrder (p.componentJob t) (p.packageComponent t) [] := by
  obtain ⟨a, ts⟩ := t
  rw [postOrder] at h ⊢
  have hapart : Apart [a] (postOrderAll ts) :=
    fun b hb c hc hid ↦ apart_of_nodup h c hc b hb hid.symm
  have hbelow : ((postOrderAll ts).map Asset.id).Nodup := by
    rw [List.map_append, List.nodup_append] at h
    exact h.1
  have hsub : [a] ++ postOrderAll ts ⊆ postOrderAll ts ++ [a] :=
    List.append_subset.2 ⟨List.subset_append_right _ _, List.subset_append_left _ _⟩
  rw [componentJob, packageComponent]
  rcases a.kind with - | route | tag
  · exact .done _
  · exact .done _
  · refine Performs.mono ?_ hsub
    exact (performs_ownJob a).andThen hapart
      (fun own _ ↦ (performs_componentJobs hbelow).andThen_pure _) fun _ _ ↦ rfl

/-- And components next to each other. -/
theorem performs_componentJobs {ts : List AssetTree} (h : ((postOrderAll ts).map Asset.id).Nodup) :
    Performs p verdict (postOrderAll ts) (Job.all (p.componentJobs ts))
      (Work.all (p.packageComponents ts)) [] := by
  match ts with
  | [] => exact .done _
  | t :: ts =>
    rw [postOrderAll] at h ⊢
    have hapart := apart_of_nodup h
    rw [List.map_append, List.nodup_append] at h
    exact (performs_componentJob h.1).all_cons hapart (performs_componentJobs h.2.1)

end

/-! ### Pages -/

theorem performs_bundleJob {t : AssetTree} (h : (t.postOrder.map Asset.id).Nodup) :
    Performs p verdict t.postOrder (p.bundleJob t) (p.packagePage t) [] := by
  obtain ⟨a, ts⟩ := t
  rw [postOrder] at h ⊢
  have hapart : Apart (postOrderAll ts) [a] := apart_of_nodup h
  have hbelow : ((postOrderAll ts).map Asset.id).Nodup := by
    rw [List.map_append, List.nodup_append] at h
    exact h.1
  rw [bundleJob, packagePage]
  rcases a.kind with - | route | tag
  · exact .done _
  · exact (performs_componentJobs hbelow).andThen hapart
      (fun below _ ↦ (performs_ownJob a).andThen_pure _) fun _ _ ↦ rfl
  · exact .done _

/-! ### Files -/

/-- A verdict does not look at what was written before. -/
theorem simulates_deciding (verdict : BundleFile → Outcome Unit) :
    Writer.Simulates (fun _ _ ↦ True) (.deciding verdict) (.deciding verdict) :=
  fun _ _ _ _ ↦ ⟨rfl, trivial⟩

/-- Files with the number of the asset to whose bundle they belong. -/
def ofOwner (owner : AssetId) (files : List BundleFile) : List (AssetId × BundleFile) :=
  files.map (owner, ·)

/-- Writing a file of the bundle of an asset. -/
def fileWork (verdict : BundleFile → Outcome Unit) (a : Asset) (file : BundleFile) : Work Unit :=
  ⟨Outcome.inStep (Writer.stepOfFile a file.kind) (verdict file), []⟩

theorem isOk_fileWork (verdict : BundleFile → Outcome Unit) (a : Asset) (file : BundleFile) :
    (fileWork verdict a file).result.isOk = (verdict file).isOk := by
  rw [fileWork]
  rcases verdict file with f | ⟨⟩ <;> rfl

/-- Writing the files of a bundle of the given kinds. -/
def writeWork (verdict : BundleFile → Outcome Unit) (outDir : Path) (a : Asset) (output : Output)
    (kinds : List ModuleKind) (written : WrittenPaths) : Work WrittenPaths :=
  ⟨((Writer.deciding verdict).writeKinds outDir a output kinds written []).1, []⟩

theorem writeWork_cons (verdict : BundleFile → Outcome Unit) (outDir : Path) (a : Asset)
    (output : Output) (kind : ModuleKind) (kinds : List ModuleKind) (written : WrittenPaths) :
    writeWork verdict outDir a output (kind :: kinds) written =
      if (output.get kind).isEmpty then writeWork verdict outDir a output kinds written
      else (fileWork verdict a (Writer.slotFile outDir a output kind)).andThen fun _ ↦
        writeWork verdict outDir a output kinds (written.set kind
          (Writer.placeOfFile outDir (Writer.slotFile outDir a output kind))) := by
  rw [writeWork, Writer.writeKinds_cons]
  split
  · rfl
  · rw [Work.andThen, fileWork]
    rcases hverdict : verdict (Writer.slotFile outDir a output kind) with f | ⟨⟩
    · rw [Writer.write_deciding_of_error hverdict]
      rfl
    · rw [Writer.write_deciding_of_ok hverdict]
      refine congrArg (Work.mk · []) ?_
      exact ((simulates_deciding verdict).writeKinds outDir a output kinds _ trivial).1

theorem performs_fileJob (a : Asset) (file : BundleFile) :
    Performs p verdict [] (fileJob a file) (fileWork verdict a file)
      (ofOwner a.id (Writer.accepted verdict [file])) := by
  refine ⟨fun x hx ↦ absurd hx List.not_mem_nil, fun g ws _ ↦ ?_⟩
  have hadd : addFile verdict a.id file ws =
      ws + ↑(ofOwner a.id (Writer.accepted verdict [file])) := by
    rw [addFile, Writer.accepted, List.takeWhile_cons]
    split
    · rw [List.takeWhile_nil, ofOwner, List.map_singleton, ← Multiset.cons_coe, Multiset.add_cons,
        Multiset.coe_nil, Multiset.add_zero]
    · rw [ofOwner, List.map_nil, Multiset.coe_nil, Multiset.add_zero]
  rw [← hadd]
  rfl

theorem performs_writeJob (a : Asset) (output : Output) (kinds : List ModuleKind)
    (written : WrittenPaths) :
    Performs p verdict [] (writeJob outDir a output kinds written)
      (writeWork verdict outDir a output kinds written)
      (ofOwner a.id (Writer.accepted verdict (Writer.slotFiles outDir a output kinds))) := by
  induction kinds generalizing written with
  | nil => exact .done _
  | cons kind kinds ih =>
    rw [writeJob, writeWork_cons]
    by_cases hempty : (output.get kind).isEmpty
    · rw [if_pos hempty, if_pos hempty, Writer.slotFiles_cons_of_isEmpty hempty]
      exact ih written
    · rw [if_neg hempty, if_neg hempty, Writer.slotFiles_cons_of_not_isEmpty hempty,
        Writer.accepted_cons, ofOwner, List.map_append]
      refine (performs_fileJob a _).andThen apart_nil_left (fun _ hok ↦ ?_) fun f hfailed ↦ ?_
      · rw [← isOk_fileWork verdict a, hok]
        exact ih _
      · rw [← isOk_fileWork verdict a, hfailed]
        rfl

/-! ### Trees -/

/-- What comes of a page that is packaged and written. -/
def pageWork (p : Packagers) (verdict : BundleFile → Outcome Unit) (outDir : Path) (t : AssetTree) :
    Work (PageBundle × ManifestEntry) :=
  ⟨(finishPage p (.deciding verdict) outDir t []).1, (p.packagePage t).modules⟩

theorem pageWork_eq (p : Packagers) (verdict : BundleFile → Outcome Unit) (outDir : Path)
    (t : AssetTree) :
    p.pageWork verdict outDir t = (p.packagePage t).andThen fun b ↦
      (writeWork verdict outDir b.page b.output ModuleKind.all .empty).andThen fun paths ↦
        .done (b, ⟨b.route, b.page.identity, paths.script, paths.style, paths.markup⟩) := by
  rw [pageWork, finishPage, Work.andThen]
  rcases (p.packagePage t).result with f | b
  · rfl
  · simp only [Work.andThen_done]
    show Work.mk (((writeWork verdict outDir b.page b.output ModuleKind.all .empty).result.map
      _).map _) _ = _
    rw [writeWork, List.append_nil]
    rcases ((Writer.deciding verdict).writeKinds outDir b.page b.output ModuleKind.all .empty
      []).1 with f | paths <;> rfl

theorem performs_pageJob {page : Asset} {ts : List AssetTree} (hpage : page.IsPage)
    (hts : ∀ a ∈ postOrderAll ts, a.IsComponent)
    (h : ((AssetTree.node page ts).postOrder.map Asset.id).Nodup) :
    Performs p verdict (AssetTree.node page ts).postOrder (p.pageJob outDir (.node page ts))
      (p.pageWork verdict outDir (.node page ts))
      (ofOwner page.id (p.writtenOfPage verdict outDir (.node page ts))) := by
  have hcheck := check_packagePage (p := p) hpage hts
  rw [pageWork_eq, writtenOfPage, ← hcheck]
  rw [← List.append_nil (AssetTree.node page ts).postOrder]
  refine (performs_bundleJob h).andThen apart_nil_right (fun b hb ↦ ?_) fun f hf ↦ ?_
  · obtain ⟨hbpage, houtput⟩ := packagePage_output hb
    rw [hb, pageFiles, ← houtput, ← hbpage]
    exact (performs_writeJob ..).andThen_pure _
  · rw [hf]
    rfl

/-- What comes of the pages together. -/
def pagesWork (p : Packagers) (verdict : BundleFile → Outcome Unit) (outDir : Path)
    (pages : List AssetTree) : Work (List (PageBundle × ManifestEntry)) :=
  ⟨(packagePages p (.deciding verdict) outDir pages []).result,
    (packagePages p (.deciding verdict) outDir pages []).modules⟩

/-- Pages are packaged each for itself. -/
theorem all_pageWork (p : Packagers) (verdict : BundleFile → Outcome Unit) (outDir : Path)
    (pages : List AssetTree) :
    Work.all (pages.map (p.pageWork verdict outDir)) = p.pagesWork verdict outDir pages := by
  induction pages with
  | nil => rfl
  | cons t pages ih =>
    obtain ⟨hresult, hmodules, -⟩ := (simulates_deciding verdict).packagePages p outDir pages
      (s := (finishPage p (.deciding verdict) outDir t []).2) (t := []) trivial
    rw [List.map_cons, Work.all, ih, pagesWork, pagesWork, packagePages_cons, hresult, hmodules]
    rfl

/-- The files of pages, each with the number of its page. -/
def filesOfPages (p : Packagers) (verdict : BundleFile → Outcome Unit) (outDir : Path)
    (pages : List AssetTree) : List (AssetId × BundleFile) :=
  pages.flatMap fun t ↦ ofOwner t.asset.id (p.writtenOfPage verdict outDir t)

theorem performs_pageJobs {pages : List AssetTree} (hpages : WellPlaced pages)
    (h : ((postOrderAll pages).map Asset.id).Nodup) :
    Performs p verdict (postOrderAll pages) (Job.all (pages.map (p.pageJob outDir)))
      (p.pagesWork verdict outDir pages) (p.filesOfPages verdict outDir pages) := by
  rw [← all_pageWork]
  induction pages with
  | nil => exact .done _
  | cons t pages ih =>
    obtain ⟨page, ts⟩ := t
    obtain ⟨hpage, hts⟩ := hpages page ts List.mem_cons_self
    rw [postOrderAll] at h ⊢
    have hapart := apart_of_nodup h
    rw [List.map_append, List.nodup_append] at h
    have hrest := ih (fun page' ts' hmem ↦ hpages page' ts' (List.mem_cons_of_mem _ hmem)) h.2.1
    exact (performs_pageJob hpage hts h.1).all_cons hapart hrest

/-- What comes of a tree. -/
def treeWork (p : Packagers) (verdict : BundleFile → Outcome Unit) (outDir : Path) (app : Asset)
    (pages : List AssetTree) : Work (List PackagedAsset × List BundleRecord) :=
  ⟨(packageTree p (.deciding verdict) outDir app pages []).result,
    (packageTree p (.deciding verdict) outDir app pages []).modules⟩

theorem treeWork_eq (p : Packagers) (verdict : BundleFile → Outcome Unit) (outDir : Path)
    (app : Asset) (pages : List AssetTree) :
    p.treeWork verdict outDir app pages = (p.pagesWork verdict outDir pages).andThen fun bundles ↦
      (p.packageApp app).andThen fun packaged ↦
        (writeWork verdict outDir app packaged.output ModuleKind.all .empty).andThen fun paths ↦
          .done (bundles.flatMap (fun (b, _) ↦ b.assets) ++ [packaged],
            (paths.style.toList ++ paths.script.toList).map BundleRecord.runtime ++
              bundles.map fun (_, e) ↦ BundleRecord.page e) := by
  rw [treeWork, packageTree, pagesWork, Work.andThen]
  rcases (packagePages p (.deciding verdict) outDir pages []).result with f | bundles
  · rfl
  · simp only [Work.andThen_done]
    rw [Work.andThen]
    rcases hown : (p.packageApp app).result with f | packaged
    · rfl
    · have hwritten : ((Writer.deciding verdict).writeBundle outDir app packaged.output
          (packagePages p (.deciding verdict) outDir pages []).state).1 =
          (writeWork verdict outDir app packaged.output ModuleKind.all .empty).result :=
        ((simulates_deciding verdict).writeKinds outDir app packaged.output _ _ trivial).1
      simp only
      rw [hwritten, writeWork, List.append_nil]

/-- The files of a tree, each with the number of the asset to whose bundle it belongs. -/
def filesOfTree (p : Packagers) (verdict : BundleFile → Outcome Unit) (outDir : Path) (app : Asset)
    (pages : List AssetTree) : List (AssetId × BundleFile) :=
  p.filesOfPages verdict outDir pages ++ ofOwner app.id (p.writtenOfApp verdict outDir app pages)

/-- **From left to right, the job of packaging a tree is packaging it.** -/
theorem performs_treeJob {app : Asset} {pages : List AssetTree} (hpages : WellPlaced pages)
    (h : ((postOrderAll pages ++ [app]).map Asset.id).Nodup) :
    Performs p verdict (postOrderAll pages ++ [app]) (p.treeJob outDir app pages)
      (p.treeWork verdict outDir app pages) (p.filesOfTree verdict outDir app pages) := by
  have happ : Performs p verdict [app] (appJob app) (p.packageApp app) [] :=
    (performs_scriptJob app).andThen_pure _
  have hapart : Apart (postOrderAll pages) [app] := apart_of_nodup h
  have hnodup : ((postOrderAll pages).map Asset.id).Nodup := by
    rw [List.map_append, List.nodup_append] at h
    exact h.1
  have hcheck : Outcome.check (p.pagesWork verdict outDir pages).result =
      p.checkPages verdict outDir pages := (packagePages_deciding p verdict outDir hpages []).1
  rw [treeWork_eq, filesOfTree, writtenOfApp, checkBeforeApp, ← hcheck, ← check_packageApp]
  refine (performs_pageJobs hpages hnodup).andThen hapart (fun bundles hbundles ↦ ?_) fun f hf ↦ ?_
  · rw [hbundles, ← List.append_nil [app]]
    refine happ.andThen apart_nil_right (fun packaged hpackaged ↦ ?_) fun f hf ↦ ?_
    · have houtput : p.appOutput app = packaged.output := by rw [appOutput, hpackaged]
      rw [hpackaged, appFiles, houtput]
      exact (performs_writeJob ..).andThen_pure _
    · rw [hf]
      rfl
  · rw [hf]
    rfl

end Packagers

end AppletBundle
