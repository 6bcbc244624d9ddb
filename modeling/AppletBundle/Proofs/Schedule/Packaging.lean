import AppletBundle.Proofs.Schedule.Request

/-!
# Packaging as a job

`Packagers.treeJob` is packaging with all that it leaves open: the components below an asset are
worked on side by side, and so are the pages. Its schedules are all the orders in which the requests
of siblings can come.

* Work on assets asks for no scripts but theirs, and requests on different sides of a fork commute
  (`Packagers.confined_treeJob`), since a tree that a graph unfolds to has each asset once.
* From left to right the job comes to what packaging comes to (`Packagers.performs_treeJob`).
-/

namespace AppletBundle

open AssetTree Script

/-- A part of packaging. -/
abbrev PackagingJob (α : Type) :=
  Job Request.Answer (Outcome α)

namespace Packagers

/-! ### The jobs -/

/-- Packages the script of an asset. -/
def scriptJob (a : Asset) : PackagingJob PackagedScript :=
  .ask (.script a.id) .done

/-- Packages the modules of a page or component itself. -/
def ownJob (p : Packagers) (a : Asset) : PackagingJob PackagedAsset :=
  Job.andThen (.done (p.markupPart a)) fun markup ↦
    (scriptJob a).andThen fun script ↦
      .done ((p.stylePart a).map fun style ↦
        ⟨a.id, ⟨terminated script.code, style, markup⟩, script.dependencies⟩)

mutual

/-- Packages a component and everything below it. -/
def componentJob (p : Packagers) : AssetTree → PackagingJob Subtree
  | .node a children =>
    match a.kind with
    | .component _ =>
      (p.ownJob a).andThen fun own ↦
        (Job.all (p.componentJobs children)).andThen fun below ↦
          .done (.ok
            ⟨below.flatMap Subtree.assets ++ [own],
             below.flatMap Subtree.contributions ++ [⟨a.identity, own.output⟩]⟩)
    | _ => .done (unexpected a "component")

/-- The jobs of packaging components. -/
def componentJobs (p : Packagers) : List AssetTree → List (PackagingJob Subtree)
  | [] => []
  | t :: ts => p.componentJob t :: p.componentJobs ts

end

/-- Packages a page and everything below it. -/
def bundleJob (p : Packagers) : AssetTree → PackagingJob PageBundle
  | .node a children =>
    match a.kind with
    | .page route =>
      (Job.all (p.componentJobs children)).andThen fun below ↦
        (p.ownJob a).andThen fun own ↦
          let taken := firstOfIdentity [] (below.flatMap Subtree.contributions)
          let output := (concatOutputs (taken.map Contribution.output)).append own.output
          .done (.ok
            ⟨a, route, output,
             below.flatMap Subtree.assets ++ [⟨a.id, output, own.dependencies⟩]⟩)
    | _ => .done (unexpected a "page")

/-- Packages the modules of the app. -/
def appJob (a : Asset) : PackagingJob PackagedAsset :=
  (scriptJob a).andThen fun script ↦
    let style := (a.siblings.style.map SourceModule.source).getD ""
    .done (.ok ⟨a.id, ⟨terminated script.code, terminated style, ""⟩, script.dependencies⟩)

/-- Writes a file of the bundle of an asset. -/
def fileJob (a : Asset) (file : BundleFile) : PackagingJob Unit :=
  .ask (.write a.id file) fun answer ↦ .done (Outcome.inStep (Writer.stepOfFile a file.kind) answer)

/-- Writes the files of a bundle of the given kinds. -/
def writeJob (outDir : Path) (a : Asset) (output : Output) :
    List ModuleKind → WrittenPaths → PackagingJob WrittenPaths
  | [], written => .done (.ok written)
  | kind :: kinds, written =>
    if (output.get kind).isEmpty then writeJob outDir a output kinds written
    else
      (fileJob a (Writer.slotFile outDir a output kind)).andThen fun _ ↦
        writeJob outDir a output kinds
          (written.set kind (Writer.placeOfFile outDir (Writer.slotFile outDir a output kind)))

/-- Packages a page and writes it. -/
def pageJob (p : Packagers) (outDir : Path) (t : AssetTree) :
    PackagingJob (PageBundle × ManifestEntry) :=
  (p.bundleJob t).andThen fun b ↦
    (writeJob outDir b.page b.output ModuleKind.all .empty).andThen fun paths ↦
      .done (.ok (b, ⟨b.route, b.page.identity, paths.script, paths.style, paths.markup⟩))

/-- Packages and writes the pages, and then the app. -/
def treeJob (p : Packagers) (outDir : Path) (app : Asset) (pages : List AssetTree) :
    PackagingJob (List PackagedAsset × List BundleRecord) :=
  (Job.all (pages.map (p.pageJob outDir))).andThen fun bundles ↦
    (appJob app).andThen fun packaged ↦
      (writeJob outDir app packaged.output ModuleKind.all .empty).andThen fun paths ↦
        .done (.ok
          (bundles.flatMap (fun (b, _) ↦ b.assets) ++ [packaged],
           (paths.style.toList ++ paths.script.toList).map BundleRecord.runtime ++
             bundles.map fun (_, e) ↦ BundleRecord.page e))

/-! ### What jobs keep to -/

/-- A job asks for the scripts of the given assets only, and does so in a way that leaves the order
of requests open. -/
structure Confined (p : Packagers) (verdict : BundleFile → Outcome Unit) {α : Type}
    (as : List Asset) (j : Job Request.Answer α) : Prop where
  independent : j.Independent (serveTally p verdict)
  asks : ∀ id, j.Asks (.script id) → id ∈ as.map Asset.id

/-- No asset has the number of one on the other side. -/
def Apart (as bs : List Asset) : Prop :=
  ∀ a ∈ as, ∀ b ∈ bs, a.id ≠ b.id

variable {p : Packagers} {verdict : BundleFile → Outcome Unit} {α β : Type} {as bs : List Asset}

theorem apart_of_nodup (h : ((as ++ bs).map Asset.id).Nodup) : Apart as bs := by
  rw [List.map_append, List.nodup_append] at h
  intro a ha b hb
  exact h.2.2 _ (List.mem_map_of_mem ha) _ (List.mem_map_of_mem hb)

namespace Confined

protected theorem done (a : α) : Confined p verdict as (.done a) :=
  ⟨trivial, fun _ h ↦ h.elim⟩

theorem mono {j : Job Request.Answer α} (h : Confined p verdict as j) (hsub : as ⊆ bs) :
    Confined p verdict bs j :=
  ⟨h.independent, fun id hid ↦ List.map_subset _ hsub (h.asks id hid)⟩

protected theorem bind {j : Job Request.Answer α} {f : α → Job Request.Answer β}
    (h : Confined p verdict as j) (hf : ∀ a, Confined p verdict as (f a)) :
    Confined p verdict as (j.bind f) := by
  refine ⟨h.independent.bind fun a ↦ (hf a).independent, fun id hid ↦ ?_⟩
  rcases Job.asks_bind hid with hj | ⟨a, ha⟩
  · exact h.asks id hj
  · exact (hf a).asks id ha

theorem andThen {j : PackagingJob α} {next : α → PackagingJob β}
    (h : Confined p verdict as j) (hnext : ∀ a, Confined p verdict as (next a)) :
    Confined p verdict as (j.andThen next) := by
  refine h.bind fun x ↦ ?_
  rcases x with f | a
  · exact .done _
  · exact hnext a

/-- Jobs for different assets can go on side by side. -/
theorem all_cons {j : PackagingJob α} {js : List (PackagingJob α)} (h : Confined p verdict as j)
    (hjs : Confined p verdict bs (Job.all js)) (hapart : Apart as bs) :
    Confined p verdict (as ++ bs) (Job.all (j :: js)) := by
  refine ⟨⟨h.independent, hjs.independent, fun q r hq hr ↦ ?_, fun _ _ ↦ trivial⟩, ?_⟩
  · refine commute_of_separate ?_
    rintro id rfl rfl
    obtain ⟨a, ha, hida⟩ := List.mem_map.1 (h.asks id hq)
    obtain ⟨b, hb, hidb⟩ := List.mem_map.1 (hjs.asks id hr)
    exact hapart a ha b hb (hida.trans hidb.symm)
  · rintro id (hid | hid | ⟨_, _, hid⟩)
    · exact List.map_subset _ (List.subset_append_left as bs) (h.asks id hid)
    · exact List.map_subset _ (List.subset_append_right as bs) (hjs.asks id hid)
    · exact hid.elim

end Confined

theorem confined_scriptJob (a : Asset) : Confined p verdict [a] (scriptJob a) := by
  refine ⟨fun _ ↦ trivial, ?_⟩
  rintro id (hid | ⟨_, hid⟩)
  · cases hid
    exact List.mem_singleton.2 rfl
  · exact hid.elim

theorem confined_ownJob (a : Asset) : Confined p verdict [a] (p.ownJob a) :=
  (Confined.done _).andThen fun _ ↦ (confined_scriptJob a).andThen fun _ ↦ .done _

theorem confined_fileJob (a : Asset) (file : BundleFile) :
    Confined p verdict as (fileJob a file) := by
  refine ⟨fun _ ↦ trivial, ?_⟩
  rintro id (hid | ⟨_, hid⟩)
  · cases hid
  · exact hid.elim

theorem confined_writeJob (outDir : Path) (a : Asset) (output : Output) (kinds : List ModuleKind)
    (written : WrittenPaths) : Confined p verdict as (writeJob outDir a output kinds written) := by
  induction kinds generalizing written with
  | nil => exact .done _
  | cons kind kinds ih =>
    rw [writeJob]
    split
    · exact ih written
    · exact (confined_fileJob a _).andThen fun _ ↦ ih _

mutual

theorem confined_componentJob {t : AssetTree} (h : (t.postOrder.map Asset.id).Nodup) :
    Confined p verdict t.postOrder (p.componentJob t) := by
  obtain ⟨a, ts⟩ := t
  rw [componentJob]
  split
  · rw [postOrder] at h ⊢
    have hbelow : ((postOrderAll ts).map Asset.id).Nodup := by
      rw [List.map_append, List.nodup_append] at h
      exact h.1
    refine ((confined_ownJob a).mono (List.subset_append_right _ _)).andThen fun own ↦ ?_
    exact ((confined_componentJobs hbelow).mono (List.subset_append_left _ _)).andThen
      fun below ↦ .done _
  · exact .done _

/-- **Work on components next to each other** can go on side by side, if no asset is below two. -/
theorem confined_componentJobs {ts : List AssetTree} (h : ((postOrderAll ts).map Asset.id).Nodup) :
    Confined p verdict (postOrderAll ts) (Job.all (p.componentJobs ts)) := by
  match ts with
  | [] => exact .done _
  | t :: ts =>
    rw [postOrderAll] at h ⊢
    have hapart := apart_of_nodup h
    rw [List.map_append, List.nodup_append] at h
    exact (confined_componentJob h.1).all_cons (confined_componentJobs h.2.1) hapart

end

theorem confined_pageJob {outDir : Path} {t : AssetTree} (h : (t.postOrder.map Asset.id).Nodup) :
    Confined p verdict t.postOrder (p.pageJob outDir t) := by
  have hbundle : Confined p verdict t.postOrder (p.bundleJob t) := by
    obtain ⟨a, ts⟩ := t
    rw [bundleJob]
    split
    · rw [postOrder] at h ⊢
      rw [List.map_append, List.nodup_append] at h
      refine ((confined_componentJobs h.1).mono (List.subset_append_left _ _)).andThen
        fun below ↦ ?_
      exact ((confined_ownJob a).mono (List.subset_append_right _ _)).andThen fun own ↦ .done _
    · exact .done _
  exact hbundle.andThen fun b ↦ (confined_writeJob ..).andThen fun paths ↦ .done _

theorem confined_pageJobs {outDir : Path} {pages : List AssetTree}
    (h : ((postOrderAll pages).map Asset.id).Nodup) :
    Confined p verdict (postOrderAll pages) (Job.all (pages.map (p.pageJob outDir))) := by
  induction pages with
  | nil => exact .done _
  | cons t pages ih =>
    rw [postOrderAll] at h ⊢
    have hapart := apart_of_nodup h
    rw [List.map_append, List.nodup_append] at h
    exact (confined_pageJob h.1).all_cons (ih h.2.1) hapart

/-- **The order of requests is open** in the packaging of a tree that has each asset once. -/
theorem confined_treeJob {outDir : Path} {app : Asset} {pages : List AssetTree}
    (h : ((postOrderAll pages).map Asset.id).Nodup) :
    Confined p verdict (postOrderAll pages ++ [app]) (p.treeJob outDir app pages) := by
  have happ : Confined p verdict [app] (appJob app) :=
    (confined_scriptJob app).andThen fun _ ↦ .done _
  refine ((confined_pageJobs h).mono (List.subset_append_left _ _)).andThen fun bundles ↦ ?_
  refine (happ.mono (List.subset_append_right _ _)).andThen fun packaged ↦ ?_
  exact (confined_writeJob ..).andThen fun paths ↦ .done _

end Packagers

end AppletBundle
