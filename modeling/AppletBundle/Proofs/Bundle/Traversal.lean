import AppletBundle.Proofs.Bundle.Composition
import AppletBundle.Proofs.Bundle.Writing

/-!
# Packaging as a traversal

Packaging goes on when something fails: the siblings of a component, the other pages and their files
are worked on all the same. What it comes to can be said without that. `Packagers.traverse` goes
through the tree one asset after the other and stops at the first failure, and that is the failure
of packaging (`packageTree_deciding`). The files that stay behind are those of each page that gets
as far as writing, whatever happens to the others (`Packagers.writtenOfPage`), and those of the app
if all pages succeed.

The traversal is written for trees in which pages and components are where they belong
(`WellPlaced`); in other trees packaging also fails where one of them is not.
-/

namespace AppletBundle

open AssetTree

namespace Packagers

variable (p : Packagers)

/-! ### The traversal -/

/-- The modules of a page or component itself: markup, script, style. -/
def checkOwn (a : Asset) : Outcome Unit := do
  Outcome.check (p.markupPart a)
  Outcome.check (p.scriptPart a).result
  Outcome.check (p.stylePart a)

mutual

/-- A component's own modules before its children. -/
def checkComponent : AssetTree → Outcome Unit
  | .node a ts => do
    p.checkOwn a
    checkComponents ts

/-- Components in order. -/
def checkComponents : List AssetTree → Outcome Unit
  | [] => .ok ()
  | t :: ts => do
    checkComponent t
    checkComponents ts

end

/-- A page up to the point where it is written: all components before its own modules. -/
def checkBundle : AssetTree → Outcome Unit
  | .node page ts => do
    p.checkComponents ts
    p.checkOwn page

/-- The files of a page, in the order in which they are written. -/
def pageFiles (outDir : Path) : AssetTree → List BundleFile
  | .node page ts =>
    Writer.slotFiles outDir page (p.bundleOutput page (postOrderAll ts)) ModuleKind.all

/-- The output of the app, where packaging its script succeeds. -/
def appOutput (app : Asset) : Output :=
  match (p.packageApp app).result with
  | .ok own => own.output
  | .error _ => .empty

/-- The files of the app. -/
def appFiles (outDir : Path) (app : Asset) : List BundleFile :=
  Writer.slotFiles outDir app (p.appOutput app) ModuleKind.all

variable (verdict : BundleFile → Outcome Unit) (outDir : Path)

/-- A page with its files. -/
def checkPage (t : AssetTree) : Outcome Unit := do
  p.checkBundle t
  Writer.checkFiles verdict t.asset (p.pageFiles outDir t)

/-- The pages in order. -/
def checkPages (pages : List AssetTree) : Outcome Unit :=
  pages.forM (p.checkPage verdict outDir)

/-- All pages and then the script of the app. -/
def checkBeforeApp (app : Asset) (pages : List AssetTree) : Outcome Unit := do
  p.checkPages verdict outDir pages
  Outcome.check (p.scriptPart app).result

/-- **The traversal of a tree**, up to the first failure. -/
def traverse (app : Asset) (pages : List AssetTree) : Outcome Unit := do
  p.checkBeforeApp verdict outDir app pages
  Writer.checkFiles verdict app (p.appFiles outDir app)

/-- The files of a page that are written: all before the first that is refused, if the page gets as
far as that. -/
def writtenOfPage (t : AssetTree) : List BundleFile :=
  match p.checkBundle t with
  | .ok () => Writer.accepted verdict (p.pageFiles outDir t)
  | .error _ => []

/-- The files of the app that are written. -/
def writtenOfApp (app : Asset) (pages : List AssetTree) : List BundleFile :=
  match p.checkBeforeApp verdict outDir app pages with
  | .ok () => Writer.accepted verdict (p.appFiles outDir app)
  | .error _ => []

/-- All files that are written. -/
def writtenFiles (app : Asset) (pages : List AssetTree) : List BundleFile :=
  pages.flatMap (p.writtenOfPage verdict outDir) ++ p.writtenOfApp verdict outDir app pages

variable {p verdict outDir}

/-! ### Components -/

theorem check_packageOwn (a : Asset) : Outcome.check (p.packageOwn a).result = p.checkOwn a := by
  rw [packageOwn, Work.result_andThen, checkOwn]
  refine Outcome.check_bind fun markup _ ↦ ?_
  rw [Work.result_andThen]
  refine Outcome.check_bind fun script _ ↦ ?_
  exact Outcome.check_map _ _

theorem check_all_cons {α : Type} (w : Work α) (ws : List (Work α)) :
    Outcome.check (Work.all (w :: ws)).result =
      Outcome.check w.result >>= fun _ ↦ Outcome.check (Work.all ws).result := by
  have hall : (Work.all (w :: ws)).result =
      w.result >>= fun x ↦ (Work.all ws).result >>= fun xs ↦ .ok (x :: xs) := rfl
  rw [hall]
  refine Outcome.check_bind fun x _ ↦ ?_
  cases (Work.all ws).result <;> rfl

mutual

/-- **Packaging a component fails as its traversal does.** -/
theorem check_packageComponent {t : AssetTree} (h : ∀ a ∈ t.postOrder, a.IsComponent) :
    Outcome.check (p.packageComponent t).result = p.checkComponent t := by
  obtain ⟨a, ts⟩ := t
  rw [postOrder, List.forall_mem_append] at h
  obtain ⟨hts, ha⟩ := h
  obtain ⟨tag, hk⟩ := ha a (List.mem_singleton.2 rfl)
  rw [packageComponent, checkComponent]
  simp only [hk]
  rw [Work.result_andThen, ← check_packageOwn]
  refine Outcome.check_bind fun own _ ↦ ?_
  rw [Work.result_andThen, ← check_all_packageComponents hts]
  cases (Work.all (p.packageComponents ts)).result <;> rfl

/-- The same for components next to each other. -/
theorem check_all_packageComponents {ts : List AssetTree}
    (h : ∀ a ∈ postOrderAll ts, a.IsComponent) :
    Outcome.check (Work.all (p.packageComponents ts)).result = p.checkComponents ts := by
  match ts with
  | [] => rfl
  | t :: ts =>
    rw [postOrderAll, List.forall_mem_append] at h
    rw [packageComponents, check_all_cons, checkComponents, check_packageComponent h.1,
      check_all_packageComponents h.2]

end

/-! ### Pages -/

theorem check_packagePage {page : Asset} {ts : List AssetTree} (hpage : page.IsPage)
    (hts : ∀ a ∈ postOrderAll ts, a.IsComponent) :
    Outcome.check (p.packagePage (.node page ts)).result = p.checkBundle (.node page ts) := by
  obtain ⟨route, hk⟩ := hpage
  rw [packagePage, checkBundle]
  simp only [hk]
  rw [Work.result_andThen, ← check_all_packageComponents hts]
  refine Outcome.check_bind fun below _ ↦ ?_
  rw [Work.result_andThen, ← check_packageOwn]
  cases (p.packageOwn page).result <;> rfl

/-- What packaging a page hands to the writer. -/
theorem packagePage_output {page : Asset} {ts : List AssetTree} {b : PageBundle}
    (h : (p.packagePage (.node page ts)).result = .ok b) :
    b.page = page ∧ b.output = p.bundleOutput page (postOrderAll ts) := by
  obtain ⟨⟨⟨route, hk⟩, -, -⟩, hassets⟩ := packagePage_spec h
  rw [packagePage] at h
  simp only [hk] at h
  rw [Work.result_andThen, Outcome.bind_eq_ok] at h
  obtain ⟨below, -, h⟩ := h
  rw [Work.result_andThen, Outcome.bind_eq_ok] at h
  obtain ⟨own, -, h⟩ := h
  obtain rfl := Except.ok.inj h
  refine ⟨rfl, ?_⟩
  -- the page is listed last, with its output
  rw [List.map_append, outputsOfPage] at hassets
  have hlast := List.append_inj_right' hassets rfl
  exact congrArg Prod.snd (List.singleton_inj.1 hlast)

end Packagers

/-- Pages are pages, and all below them are components. -/
def WellPlaced (pages : List AssetTree) : Prop :=
  ∀ page ts, .node page ts ∈ pages → page.IsPage ∧ ∀ c ∈ postOrderAll ts, c.IsComponent

open Packagers

variable (p : Packagers) (verdict : BundleFile → Outcome Unit) (outDir : Path)

/-- What comes of one page. -/
theorem finishPage_deciding {page : Asset} {ts : List AssetTree} (hpage : page.IsPage)
    (hts : ∀ a ∈ postOrderAll ts, a.IsComponent) (files : List BundleFile) :
    Outcome.check (finishPage p (.deciding verdict) outDir (.node page ts) files).1 =
        p.checkPage verdict outDir (.node page ts) ∧
      (finishPage p (.deciding verdict) outDir (.node page ts) files).2 =
        files ++ p.writtenOfPage verdict outDir (.node page ts) := by
  have hbundle := check_packagePage (p := p) hpage hts
  rw [finishPage, checkPage, writtenOfPage, ← hbundle]
  rcases hwork : (p.packagePage (.node page ts)).result with f | b
  · exact ⟨rfl, (List.append_nil files).symm⟩
  · obtain ⟨hb, houtput⟩ := packagePage_output hwork
    obtain ⟨hcheck, hstate⟩ :=
      Writer.writeKinds_deciding verdict outDir b.page b.output ModuleKind.all .empty files
    rw [hb, houtput] at hcheck hstate
    refine ⟨?_, ?_⟩
    · show Outcome.check (((Writer.deciding verdict).writePage outDir b files).1.map _) = _
      rw [Outcome.check_map, Writer.writePage, Writer.writeBundle, hb, houtput]
      exact (Outcome.check_map _ _).trans hcheck
    · show ((Writer.deciding verdict).writePage outDir b files).2 = _
      rw [Writer.writePage, Writer.writeBundle, hb, houtput]
      exact hstate

/-- **Every page is written as far as it can be**, whatever comes of the others, and the failure is
that of the first page that fails. -/
theorem packagePages_deciding {pages : List AssetTree} (hpages : WellPlaced pages)
    (files : List BundleFile) :
    Outcome.check (packagePages p (.deciding verdict) outDir pages files).result =
        p.checkPages verdict outDir pages ∧
      (packagePages p (.deciding verdict) outDir pages files).state =
        files ++ pages.flatMap (p.writtenOfPage verdict outDir) := by
  induction pages generalizing files with
  | nil => exact ⟨rfl, (List.append_nil files).symm⟩
  | cons t pages ih =>
    obtain ⟨page, ts⟩ := t
    obtain ⟨hpage, hts⟩ := hpages page ts List.mem_cons_self
    obtain ⟨hfirst, hwritten⟩ := finishPage_deciding p verdict outDir hpage hts files
    obtain ⟨hrest, hstate⟩ :=
      ih (fun page' ts' hmem ↦ hpages page' ts' (List.mem_cons_of_mem _ hmem))
        (finishPage p (.deciding verdict) outDir (.node page ts) files).2
    have hcheck : p.checkPages verdict outDir (.node page ts :: pages) =
        p.checkPage verdict outDir (.node page ts) >>= fun _ ↦
          p.checkPages verdict outDir pages := rfl
    rw [packagePages_cons, hcheck, ← hfirst, ← hrest]
    refine ⟨Outcome.check_bind fun x _ ↦ ?_, ?_⟩
    · cases (packagePages p (.deciding verdict) outDir pages
        (finishPage p (.deciding verdict) outDir (.node page ts) files).2).result <;> rfl
    · rw [hstate, hwritten, List.flatMap_cons, List.append_assoc]

theorem check_packageApp (app : Asset) :
    Outcome.check (p.packageApp app).result = Outcome.check (p.scriptPart app).result := by
  rw [packageApp, Work.result_andThen]
  cases (p.scriptPart app).result <;> rfl

/-- **Packaging a tree** fails as its traversal does. -/
theorem packageTree_deciding {pages : List AssetTree} (hpages : WellPlaced pages) (app : Asset)
    (files : List BundleFile) :
    Outcome.check (packageTree p (.deciding verdict) outDir app pages files).result =
        p.traverse verdict outDir app pages ∧
      (packageTree p (.deciding verdict) outDir app pages files).state =
        files ++ p.writtenFiles verdict outDir app pages := by
  obtain ⟨hcheck, hstate⟩ := packagePages_deciding p verdict outDir hpages files
  rw [packageTree, Packagers.traverse, writtenFiles, writtenOfApp, checkBeforeApp, ← hcheck,
    ← check_packageApp, ← List.append_assoc, ← hstate]
  rcases (packagePages p (.deciding verdict) outDir pages files).result with f | bundles
  · exact ⟨rfl, (List.append_nil _).symm⟩
  · have houtput : ∀ own, (p.packageApp app).result = .ok own → p.appOutput app = own.output := by
      intro own hown
      rw [appOutput, hown]
    rcases hown : (p.packageApp app).result with f | own
    · simp only [hown]
      exact ⟨rfl, (List.append_nil _).symm⟩
    · obtain ⟨hfiles, hwritten⟩ := Writer.writeKinds_deciding verdict outDir app own.output
        ModuleKind.all .empty (packagePages p (.deciding verdict) outDir pages files).state
      simp only [hown]
      rw [Writer.writeBundle, appFiles, houtput own hown]
      exact ⟨(Outcome.check_map _ _).trans hfiles, hwritten⟩

end AppletBundle
