import AppletBundle.Proofs.Asset.Placement
import AppletBundle.Proofs.Bundle.Traversal

/-!
# Packaging that fails

What is left of a packaging run that fails is said in `AssetGraph.package_failing`: nothing in the
graph and in the record of the build but the selections on modules, the files of those pages that
got as far as writing, and the failure that a traversal of the tree in order meets first.

A valid graph unfolds to one tree, in which everything is where it belongs (`Built.package_eq`), so
the run is the walk over that tree and its conclusion.
-/

namespace AppletBundle

open AssetTree

namespace AssetGraph

variable {σ τ : Type} {p : Packagers}

/-! ### Runs -/

/-- How a run ends: only a success puts outputs into the graph and records the bundles. -/
def conclude (result : Outcome (List PackagedAsset × List BundleRecord)) (graph : AssetGraph)
    (context : BuildContext) (state : σ) : Packaging σ :=
  match result with
  | .error f => ⟨.error f, graph, context, state⟩
  | .ok (assets, records) =>
    ⟨.ok (), graph.setPackaged assets, context.recordAll records, state⟩

theorem check_conclude (result : Outcome (List PackagedAsset × List BundleRecord))
    (graph : AssetGraph) (context : BuildContext) (state : σ) :
    (conclude result graph context state).result = Outcome.check result := by
  rcases result with f | ⟨assets, records⟩ <;> rfl

theorem state_conclude (result : Outcome (List PackagedAsset × List BundleRecord))
    (graph : AssetGraph) (context : BuildContext) (state : σ) :
    (conclude result graph context state).state = state := by
  rcases result with f | ⟨assets, records⟩ <;> rfl

/-- The app of a graph and the trees of its pages. -/
structure Spread (g : AssetGraph) (app : Asset) (pages : List AssetTree) : Prop where
  root : ∃ root, g.root = some root ∧ g.get? root = some app
  kind : app.kind = .app
  pages : g.Unfolds app.children.values pages

theorem Linked.wellPlaced {g : AssetGraph} (hg : g.Linked) {root : AssetId}
    (hplaced : g.Placed root) {app : Asset} {pages : List AssetTree} (happ : g.get? root = some app)
    (hk : app.kind = .app) (hun : g.Unfolds app.children.values pages) : WellPlaced pages := by
  intro page ts hmem
  obtain ⟨id, hid, hpage, hts⟩ := hun.get?_of_node_mem hmem
  have hkind : ∀ {i above}, g.get? i = some above → ∀ c ∈ above.children.values, ∀ b,
      g.get? c = some b → (above.kind = .app → b.IsPage) ∧ (above.kind ≠ .app → b.IsComponent) := by
    intro i above habove c hc b hb
    obtain ⟨-, b', hb', hparent⟩ := hg.child habove hc
    obtain rfl := Option.some.inj (hb.symm.trans hb')
    exact kind_of_checkPlace (hplaced c b hb) hparent habove
  have hisPage := (hkind happ id hid page hpage).1 hk
  refine ⟨hisPage, hg.isComponent_of_mem hplaced hts fun c hc b hb ↦ ?_⟩
  refine (hkind hpage c hc b hb).2 fun hka ↦ ?_
  obtain ⟨route, hroute⟩ := hisPage
  exact absurd (hroute.symm.trans hka) (by nofun)

/-- A valid graph has an app, and below it everything is where it belongs. -/
theorem Built.exists_spread {g : AssetGraph} (hg : g.Built) (hv : g.validate = .ok ()) :
    ∃ app pages, g.Spread app pages ∧ WellPlaced pages ∧
      g.root.bind g.tree? = some (.node app pages) := by
  rcases hroot : g.root with - | root
  · rw [validate, hroot] at hv
    cases hv
  · have hplaced := placed_of_validate hroot hv
    obtain ⟨app, happ, hk⟩ := hg.kind_root hroot hplaced
    obtain ⟨pages, htree, hun⟩ := hg.linked.exists_tree?_eq happ
    have hwell := hg.linked.wellPlaced hplaced happ hk hun
    exact ⟨app, pages, ⟨⟨root, hroot, happ⟩, hk, hun⟩, hwell, htree⟩

section spread

variable {g : AssetGraph} {app : Asset} {pages : List AssetTree}

theorem Linked.tree?_of_spread (hg : g.Linked) (h : g.Spread app pages) :
    g.root.bind g.tree? = some (.node app pages) := by
  obtain ⟨⟨root, hroot, happ⟩, -, hun⟩ := h
  obtain ⟨pages', htree, hun'⟩ := hg.exists_tree?_eq happ
  rw [hroot, Option.bind_some, htree, hun'.unique hun]

theorem Linked.spread_unique (hg : g.Linked) (h : g.Spread app pages) {app' : Asset}
    {pages' : List AssetTree} (h' : g.Spread app' pages') : app = app' ∧ pages = pages' := by
  have htree := (hg.tree?_of_spread h).symm.trans (hg.tree?_of_spread h')
  exact AssetTree.node.inj (Option.some.inj htree)

theorem Spread.unfolds (h : g.Spread app pages) :
    ∃ root, g.root = some root ∧ g.get? root = some app ∧ g.Unfolds [root] [.node app pages] := by
  obtain ⟨⟨root, hroot, happ⟩, -, hun⟩ := h
  exact ⟨root, hroot, happ, .cons happ hun .nil⟩

theorem Linked.get?_of_spread (hg : g.Linked) (h : g.Spread app pages) :
    ∀ a ∈ postOrderAll pages ++ [app], g.get? a.id = some a := by
  obtain ⟨root, -, -, hun⟩ := h.unfolds
  intro a ha
  refine hun.get?_id_of_mem hg ?_
  rwa [postOrderAll, postOrder, postOrderAll, List.append_nil]

/-- **Every asset of the tree is there once.** -/
theorem Built.nodup_of_spread (hg : g.Built) (h : g.Spread app pages) :
    ((postOrderAll pages ++ [app]).map Asset.id).Nodup := by
  obtain ⟨root, hroot, happ, hun⟩ := h.unfolds
  have htop : Linked.Siblings g none [root] := by
    intro id hid a ha
    obtain ⟨a', ha', hparent⟩ := hg.exists_root hroot
    rw [List.mem_singleton.1 hid, ha'] at ha
    exact Option.some.inj ha ▸ hparent
  have hnodup := hg.nodup_postOrderAll hun (List.nodup_singleton root) htop
  rwa [postOrderAll, postOrder, postOrderAll, List.append_nil] at hnodup

theorem sublist_postOrderAll (ts : List AssetTree) :
    (ts.map AssetTree.asset).Sublist (postOrderAll ts) := by
  induction ts with
  | nil => exact .slnil
  | cons t ts ih =>
    obtain ⟨a, us⟩ := t
    rw [List.map_cons, postOrderAll, postOrder, List.append_assoc, List.singleton_append]
    exact (ih.cons_cons a).trans (List.sublist_append_right _ _)

/-- **Every asset of a valid graph is in its tree**: the way up from it ends at the app. -/
theorem Built.mem_of_spread (hg : g.Built) (hv : g.validate = .ok ()) (h : g.Spread app pages)
    {id : AssetId} {a : Asset} (ha : g.get? id = some a) : a ∈ postOrderAll pages ++ [app] := by
  obtain ⟨root, hroot, happ, hun⟩ := h.unfolds
  have hplaced := placed_of_validate hroot hv
  have hall : postOrderAll pages ++ [app] = postOrderAll [.node app pages] := by
    rw [postOrderAll, postOrder, postOrderAll, List.append_nil]
  rw [hall]
  -- numbers shrink on the way up
  induction id using Nat.strongRecOn generalizing a with
  | _ id ih =>
    rcases hparent : a.parent with - | i
    · have hkind := kind_eq_app_of_checkPlace (hplaced id a ha) hparent
      have hid := id_eq_of_checkPlace hkind (hplaced id a ha)
      rw [← hg.linked.id_eq ha, hid, happ] at ha
      rw [← hall, Option.some.inj ha]
      exact List.mem_append_right _ (List.mem_singleton.2 rfl)
    · obtain ⟨above, habove, hchild⟩ := hg.linked.parent ha hparent
      have hlt := (hg.linked.child habove hchild).1
      exact hun.mem_of_child (ih i hlt habove) hchild ha

/-- The app and the pages of the tree are the bundles of the graph. -/
theorem Built.mem_bundles_iff (hg : g.Built) (hv : g.validate = .ok ()) (h : g.Spread app pages)
    (hplaced : WellPlaced pages) {a : Asset} :
    a ∈ pages.map AssetTree.asset ++ [app] ↔ a ∈ g.nodes ∧ a.kind.isBundle := by
  constructor
  · intro ha
    have hsub := (sublist_postOrderAll pages).append (List.Sublist.refl [app])
    refine ⟨List.mem_of_getElem? (hg.linked.get?_of_spread h a (hsub.subset ha)), ?_⟩
    rcases List.mem_append.1 ha with ha | ha
    · obtain ⟨⟨page, ts⟩, ht, rfl⟩ := List.mem_map.1 ha
      obtain ⟨⟨route, hk⟩, -⟩ := hplaced page ts ht
      exact congrArg AssetKind.isBundle hk
    · rw [List.mem_singleton.1 ha]
      exact congrArg AssetKind.isBundle h.kind
  · rintro ⟨ha, hbundle⟩
    obtain ⟨id, hid⟩ := List.mem_iff_getElem?.1 ha
    rcases List.mem_append.1 (hg.mem_of_spread hv h hid) with hmem | hmem
    · obtain ⟨⟨page, ts⟩, ht, hmem⟩ := mem_postOrderAll.1 hmem
      rcases mem_postOrder.1 hmem with hmem | rfl
      · obtain ⟨tag, hk⟩ := (hplaced page ts ht).2 a hmem
        rw [hk] at hbundle
        cases hbundle
      · exact List.mem_append_left _ (List.mem_map.2 ⟨_, ht, rfl⟩)
    · exact List.mem_append_right _ hmem

end spread

/-- **A run over a valid graph** is a walk over its tree. -/
theorem Built.package_eq {g : AssetGraph} (hg : g.Built) (hv : g.validate = .ok ())
    (outDir : Path) (context : BuildContext) :
    ∃ app pages, g.Spread app pages ∧ WellPlaced pages ∧ ∀ (σ : Type) (w : Writer σ) (s : σ),
      g.package p w outDir context s =
        conclude (packageTree p w outDir app pages s).result
          (g.setModules (packageTree p w outDir app pages s).modules) context
          (packageTree p w outDir app pages s).state := by
  obtain ⟨app, pages, hspread, hplaced, htree⟩ := hg.exists_spread hv
  refine ⟨app, pages, hspread, hplaced, fun σ w s ↦ ?_⟩
  rw [package, hv, htree]
  rfl

theorem package_of_invalid {g : AssetGraph} {f : Failure} (hv : g.validate = .error f)
    (w : Writer σ) (outDir : Path) (context : BuildContext) (s : σ) :
    g.package p w outDir context s = ⟨.error f, g, context, s⟩ := by
  rw [package, hv]

/-! ### What stays -/

/-- What packaging gives to an asset. -/
def packagedPart (a : Asset) : Output × OrderedSet Script.ExternalImport :=
  (a.output, a.dependencies)

/-- Selections are no outputs. -/
theorem map_packagedPart_setModules (g : AssetGraph)
    (modules : List (AssetId × Script.ScriptModule)) (id : AssetId) :
    ((g.setModules modules).get? id).map packagedPart = (g.get? id).map packagedPart := by
  induction modules generalizing g with
  | nil => rfl
  | cons x modules ih =>
    rw [setModules, List.foldl_cons]
    refine (ih _).trans ?_
    rw [get?_modify, Option.map_map]
    refine congrArg (fun f ↦ (g.get? id).map f) (funext fun a ↦ ?_)
    rw [Function.comp_apply]
    split <;> rfl

/-- The files that a run writes, in order. -/
def filesOfRun (g : AssetGraph) (p : Packagers) (w : Writer σ) (outDir : Path)
    (context : BuildContext) (s : σ) : List BundleFile :=
  (g.package p w.recording outDir context (s, [])).state.2

variable {g : AssetGraph} {w : Writer σ} {verdict : BundleFile → Outcome Unit} {outDir : Path}
  {context : BuildContext} {s : σ}

/-- **A run over a valid graph fails as the traversal of its tree does**, and has written what the
traversal says. -/
theorem Built.run_eq (hg : g.Built) (hw : w.Decides verdict) (hv : g.validate = .ok ())
    (outDir : Path) (context : BuildContext) (s : σ) :
    ∃ app pages, g.Spread app pages ∧
      (g.package p w outDir context s).result = p.traverse verdict outDir app pages ∧
      g.filesOfRun p w outDir context s = p.writtenFiles verdict outDir app pages := by
  obtain ⟨app, pages, hspread, hplaced, hrun⟩ := hg.package_eq (p := p) hv outDir context
  obtain ⟨hcheck, hstate⟩ := packageTree_deciding p verdict outDir hplaced app []
  have hrecorded := w.simulates_recording.packageTree p outDir app pages (s := s) (t := (s, [])) rfl
  have hdecided := hw.simulates_deciding.packageTree p outDir app pages (s := (s, [])) (t := []) rfl
  refine ⟨app, pages, hspread, ?_, ?_⟩
  · rw [hrun, check_conclude, hrecorded.result, hdecided.result, hcheck]
  · rw [filesOfRun, hrun, state_conclude, hdecided.state, hstate, List.nil_append]

/-- A run that fails changes nothing in the graph but the selections on modules, and nothing in the
record of the build. -/
theorem unchanged_of_error {f : Failure}
    (h : (g.package p w outDir context s).result = .error f) :
    (∀ id, ((g.package p w outDir context s).graph.get? id).map packagedPart =
        (g.get? id).map packagedPart) ∧
      (g.package p w outDir context s).context = context := by
  rw [package] at h ⊢
  rcases hv : g.validate with e | ⟨⟩
  · exact ⟨fun _ ↦ rfl, rfl⟩
  · rcases htree : g.root.bind g.tree? with - | ⟨app, pages⟩
    · exact ⟨fun _ ↦ rfl, rfl⟩
    · simp only [hv, htree] at h ⊢
      rcases hwalk : (packageTree p w outDir app pages s).result with e | ⟨assets, records⟩
      · exact ⟨fun id ↦ map_packagedPart_setModules g _ id, rfl⟩
      · rw [hwalk] at h
        cases h

/-- **Packaging that fails** leaves outputs, imports and the record of the build as they were. If
the graph is not valid, nothing is written; otherwise every page is written as far as it gets, the
app only if all pages and its own script succeed, and the failure is the one that a traversal in
order meets first. -/
theorem package_failing (hg : g.Built) (hw : w.Decides verdict) {f : Failure}
    (h : (g.package p w outDir context s).result = .error f) :
    (∀ id, ((g.package p w outDir context s).graph.get? id).map packagedPart =
        (g.get? id).map packagedPart) ∧
      (g.package p w outDir context s).context = context ∧
      (∀ e, g.validate = .error e → f = e ∧ (g.package p w outDir context s).state = s ∧
        g.filesOfRun p w outDir context s = []) ∧
      (g.validate = .ok () → ∃ app pages, g.Spread app pages ∧
        p.traverse verdict outDir app pages = .error f ∧
        g.filesOfRun p w outDir context s = p.writtenFiles verdict outDir app pages) := by
  obtain ⟨hgraph, hcontext⟩ := unchanged_of_error h
  refine ⟨hgraph, hcontext, fun e he ↦ ?_, fun hv ↦ ?_⟩
  · rw [package_of_invalid he] at h ⊢
    rw [filesOfRun, package_of_invalid he]
    exact ⟨(Except.error.inj h).symm, rfl, rfl⟩
  · obtain ⟨app, pages, hspread, hresult, hfiles⟩ :=
      hg.run_eq (p := p) hw hv outDir context s
    exact ⟨app, pages, hspread, hresult.symm.trans h, hfiles⟩

/-- A verdict that refuses markup. -/
def refusesMarkup (file : BundleFile) : Outcome Unit :=
  if file.kind = .markup then .error (.ofCause (.other "refused")) else .ok ()

/-- The page of the shelf is written up to its markup; the app is not. -/
theorem package_failing_shelf :
    let w := Writer.deciding refusesMarkup
    let f : Failure := ⟨["Failed to write markup bundle of page shelf (shelf)"], .other "refused"⟩
    shelfGraph.Built ∧ w.Decides refusesMarkup ∧
      (shelfGraph.package verbatim w ⟨"out"⟩ .empty []).result = .error f ∧
      (shelfGraph.package verbatim w ⟨"out"⟩ .empty []).context = .empty ∧
      (∃ app pages, shelfGraph.Spread app pages ∧
        verbatim.traverse refusesMarkup ⟨"out"⟩ app pages = .error f) ∧
      shelfGraph.filesOfRun verbatim w ⟨"out"⟩ .empty [] =
        [⟨⟨"out/shelf.css"⟩, .style, "button\ncard\nshelf\n"⟩] := by
  intro w f
  have hw : w.Decides refusesMarkup := fun _ _ ↦ rfl
  have hfailed : (shelfGraph.package verbatim w ⟨"out"⟩ .empty []).result = .error f := by
    decide +kernel
  have hvalid : shelfGraph.validate = .ok () := by decide +kernel
  obtain ⟨-, hcontext, -, htraverse⟩ := package_failing built_shelfGraph hw hfailed
  obtain ⟨app, pages, hspread, herror, -⟩ := htraverse hvalid
  refine ⟨built_shelfGraph, hw, hfailed, hcontext, ⟨app, pages, hspread, herror⟩, ?_⟩
  decide +kernel

end AssetGraph

end AppletBundle
