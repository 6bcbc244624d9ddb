import AppletBundle.Proofs.Asset.Admission
import AppletBundle.Proofs.Bundle.Failing

/-!
# Failures name their step

The walk of packaging looks again at the kind of every asset it meets, and at the root of the graph.
`AssetGraph.validate_exact` says that validation leaves nothing for these checks to find: in a graph
that was made by additions and is valid, the children form a finite tree, everything in it is where
the walk expects it, and no run ends with a failure of the structure.

Failures of the structure are recognised by what they lack. Whatever a packager or a writer says is
put into the step that asked it, so the failures of a run over a tree in which everything is in its
place all name a step (`packageTree_namesStep`); a failure of the structure names none
(`AssetGraph.ne_invalid`).
-/

namespace AppletBundle

open AssetTree

/-! ### Steps -/

/-- If this fails, the failure says in which step. -/
def Outcome.NamesStep {α : Type} (x : Outcome α) : Prop :=
  ∀ f, x = .error f → f.context ≠ []

namespace Outcome.NamesStep

variable {α β : Type}

theorem ok (a : α) : NamesStep (.ok a) := by
  intro f h
  cases h

theorem inStep (step : String) (x : Outcome α) : NamesStep (Outcome.inStep step x) := by
  intro f h
  rcases x with e | a
  · cases h
    exact List.cons_ne_nil _ _
  · cases h

theorem bind {x : Outcome α} {f : α → Outcome β} (hx : x.NamesStep)
    (hf : ∀ a, x = .ok a → (f a).NamesStep) : (x >>= f).NamesStep := by
  rcases x with e | a
  · intro f h
    cases h
    exact hx _ rfl
  · exact hf a rfl

theorem map {x : Outcome α} (hx : x.NamesStep) (f : α → β) : NamesStep (x.map f) := by
  rcases x with e | a
  · intro f h
    cases h
    exact hx _ rfl
  · exact ok (f a)

end Outcome.NamesStep

namespace Packagers

variable (p : Packagers)

/-! ### Work on assets -/

theorem namesStep_scriptPart (a : Asset) : (p.scriptPart a).result.NamesStep := by
  rw [scriptPart]
  split
  · exact .ok _
  · exact .inStep _ _

theorem namesStep_packageOwn (a : Asset) : (p.packageOwn a).result.NamesStep := by
  have hmarkup : (p.markupPart a).NamesStep := by
    rw [markupPart]
    split
    · exact .ok _
    · exact .inStep _ _
  have hstyle : (p.stylePart a).NamesStep := by
    rw [stylePart]
    split
    · exact .ok _
    · exact .inStep _ _
  rw [packageOwn, Work.result_andThen]
  refine hmarkup.bind fun markup _ ↦ ?_
  rw [Work.result_andThen]
  exact (p.namesStep_scriptPart a).bind fun script _ ↦ hstyle.map _

mutual

/-- Where all are components, the check for a component never fails. -/
theorem namesStep_packageComponent {t : AssetTree} (h : ∀ a ∈ t.postOrder, a.IsComponent) :
    (p.packageComponent t).result.NamesStep := by
  obtain ⟨a, ts⟩ := t
  rw [postOrder, List.forall_mem_append] at h
  obtain ⟨hts, ha⟩ := h
  obtain ⟨tag, hk⟩ := ha a (List.mem_singleton.2 rfl)
  rw [packageComponent]
  simp only [hk]
  rw [Work.result_andThen]
  refine (p.namesStep_packageOwn a).bind fun own _ ↦ ?_
  rw [Work.result_andThen]
  exact (namesStep_packageComponents hts).bind fun below _ ↦ .ok _

theorem namesStep_packageComponents {ts : List AssetTree}
    (h : ∀ a ∈ postOrderAll ts, a.IsComponent) :
    (Work.all (p.packageComponents ts)).result.NamesStep := by
  match ts with
  | [] => exact .ok _
  | t :: ts =>
    rw [postOrderAll, List.forall_mem_append] at h
    rw [packageComponents]
    refine (namesStep_packageComponent h.1).bind fun sub _ ↦ ?_
    exact (namesStep_packageComponents h.2).bind fun subs _ ↦ .ok _

end

/-- Nor does the check for a page at a page. -/
theorem namesStep_packagePage {page : Asset} {ts : List AssetTree} (hpage : page.IsPage)
    (hts : ∀ a ∈ postOrderAll ts, a.IsComponent) :
    (p.packagePage (.node page ts)).result.NamesStep := by
  obtain ⟨route, hk⟩ := hpage
  rw [packagePage]
  simp only [hk]
  rw [Work.result_andThen]
  refine (p.namesStep_packageComponents hts).bind fun below _ ↦ ?_
  rw [Work.result_andThen]
  exact (p.namesStep_packageOwn page).bind fun own _ ↦ .ok _

theorem namesStep_packageApp (app : Asset) : (p.packageApp app).result.NamesStep := by
  rw [packageApp, Work.result_andThen]
  exact (p.namesStep_scriptPart app).bind fun script _ ↦ .ok _

end Packagers

/-! ### Walks -/

section walk

variable {σ : Type} (p : Packagers) (w : Writer σ) (outDir : Path)

theorem Writer.namesStep_writeKinds (a : Asset) (output : Output) (kinds : List ModuleKind)
    (written : WrittenPaths) (s : σ) :
    (w.writeKinds outDir a output kinds written s).1.NamesStep := by
  induction kinds generalizing written s with
  | nil => exact .ok _
  | cons kind kinds ih =>
    rw [writeKinds_cons]
    split
    · exact ih written s
    · split
      · intro f h
        cases h
        exact List.cons_ne_nil _ _
      · exact ih _ _

theorem namesStep_finishPage {page : Asset} {ts : List AssetTree} (hpage : page.IsPage)
    (hts : ∀ a ∈ postOrderAll ts, a.IsComponent) (s : σ) :
    (finishPage p w outDir (.node page ts) s).1.NamesStep := by
  have hwork := p.namesStep_packagePage hpage hts
  rw [finishPage]
  rcases hresult : (p.packagePage (.node page ts)).result with f | b
  · intro f' h
    cases h
    exact hwork f hresult
  · have hentry : (w.writePage outDir b s).1.NamesStep :=
      (w.namesStep_writeKinds outDir b.page b.output ModuleKind.all .empty s).map _
    exact hentry.map _

theorem namesStep_packagePages {pages : List AssetTree} (hpages : WellPlaced pages) (s : σ) :
    (packagePages p w outDir pages s).result.NamesStep := by
  induction pages generalizing s with
  | nil => exact .ok _
  | cons t pages ih =>
    obtain ⟨page, ts⟩ := t
    obtain ⟨hpage, hts⟩ := hpages page ts List.mem_cons_self
    rw [packagePages_cons]
    refine (namesStep_finishPage p w outDir hpage hts s).bind fun x _ ↦ ?_
    refine (ih (fun page' ts' hmem ↦ hpages page' ts' (List.mem_cons_of_mem _ hmem)) _).bind
      fun xs _ ↦ .ok _

/-- **The failures of a walk name their step**, if everything is where it belongs. -/
theorem namesStep_packageTree {pages : List AssetTree} (hpages : WellPlaced pages) (app : Asset)
    (s : σ) : (packageTree p w outDir app pages s).result.NamesStep := by
  have hwalk := namesStep_packagePages p w outDir hpages s
  have happ := p.namesStep_packageApp app
  rw [packageTree]
  rcases hresult : (packagePages p w outDir pages s).result with f | bundles
  · intro f' h
    cases h
    exact hwalk f hresult
  · rcases hown : (p.packageApp app).result with f | own
    · simp only [hown]
      intro f' h
      cases h
      exact happ f hown
    · simp only [hown]
      exact (w.namesStep_writeKinds outDir app own.output _ _ _).map _

end walk

namespace AssetGraph

/-- Failures of the structure name no step. -/
theorem ne_invalid {α : Type} {x : Outcome α} (h : x.NamesStep) (identity reason : String) :
    x ≠ invalid identity reason :=
  fun heq ↦ h _ heq rfl

/-! ### Valid graphs -/

/-- **Nobody can go down a tree for ever**: numbers grow, and end with the graph. -/
theorem IsTree.wellFounded_isChild {g : AssetGraph} (hg : g.IsTree) :
    WellFounded fun c p ↦ g.IsChild p c := by
  refine Subrelation.wf (fun {c p} h ↦ ?_) (measure fun i ↦ g.size - i).wf
  obtain ⟨b, hb, hparent⟩ := hg.isChild_iff.1 h
  have hlt := hg.parent_lt hb hparent
  exact Nat.sub_lt_sub_left (Nat.lt_trans hlt (lt_size_of_get? hb)) hlt

/-- **Validation is exact, and leaves nothing for packaging to find.** A graph made by additions is
valid exactly if it is admissible. Packaging a valid one is a walk over the finite tree below its
root, in which every asset is of the kind that the walk expects; so no work on a page and no run
ends with a failure of the structure. -/
theorem validate_exact (xs : List Addition) :
    ((ofAdditions xs).validate = .ok () ↔ (ofAdditions xs).Admissible) ∧
    ((ofAdditions xs).validate = .ok () →
      (WellFounded fun c p ↦ (ofAdditions xs).IsChild p c) ∧
      ∃ app pages, (ofAdditions xs).Spread app pages ∧ WellPlaced pages ∧
        ∀ (p : Packagers) (σ : Type) (w : Writer σ) (outDir : Path) (context : BuildContext)
          (s : σ),
          ((ofAdditions xs).package p w outDir context s).result =
            Outcome.check (packageTree p w outDir app pages s).result ∧
          ∀ identity reason,
            ((ofAdditions xs).package p w outDir context s).result ≠ invalid identity reason ∧
            ∀ t ∈ pages, (p.packagePage t).result ≠ invalid identity reason) := by
  have htree := isTree_ofAdditions xs
  refine ⟨htree.validate_eq_ok_iff, fun hv ↦ ⟨htree.wellFounded_isChild, ?_⟩⟩
  obtain ⟨app, pages, hspread, hplaced, htop⟩ := (built_ofAdditions xs).exists_spread hv
  refine ⟨app, pages, hspread, hplaced, fun p σ w outDir context s ↦ ?_⟩
  have hrun : ((ofAdditions xs).package p w outDir context s).result =
      Outcome.check (packageTree p w outDir app pages s).result := by
    rw [package, hv, htop]
    exact check_conclude _ _ _ _
  refine ⟨hrun, fun identity reason ↦ ⟨ne_invalid ?_ identity reason, fun t ht ↦ ?_⟩⟩
  · rw [hrun]
    exact (namesStep_packageTree p w outDir hplaced app s).map _
  · obtain ⟨page, ts⟩ := t
    obtain ⟨hpage, hts⟩ := hplaced page ts ht
    exact ne_invalid (p.namesStep_packagePage hpage hts) identity reason

/-- The requests that make the shelf, its card and the buttons in both. -/
def shelfAdditions : List Addition :=
  [.app "shop" ⟨"shop"⟩ .empty, .child 0 shelf.kind "shelf" ⟨"shelf"⟩ shelf.siblings,
   .child 1 card.kind "card" ⟨"card"⟩ card.siblings,
   .child 2 (button 3 2).kind "button" ⟨"button"⟩ (styled "button"),
   .child 1 (button 4 1).kind "button" ⟨"button"⟩ (styled "button")]

theorem validate_exact_shelf :
    ofAdditions shelfAdditions = shelfGraph ∧ shelfGraph.Admissible ∧
      (WellFounded fun c p ↦ shelfGraph.IsChild p c) ∧
      ∀ (w : Writer (List BundleFile)) (reason : String),
        (shelfGraph.package verbatim w ⟨"out"⟩ .empty []).result ≠ invalid "card" reason := by
  have hgraph : ofAdditions shelfAdditions = shelfGraph := rfl
  obtain ⟨hexact, hruns⟩ := validate_exact shelfAdditions
  rw [hgraph] at hexact hruns
  have hvalid : shelfGraph.validate = .ok () := by decide +kernel
  obtain ⟨hfinite, app, pages, -, -, hrun⟩ := hruns hvalid
  refine ⟨hgraph, hexact.1 hvalid, hfinite, fun w reason ↦ ?_⟩
  exact ((hrun verbatim _ w ⟨"out"⟩ .empty []).2 "card" reason).1

end AssetGraph

end AppletBundle
