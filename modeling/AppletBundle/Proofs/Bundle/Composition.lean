import AppletBundle.Proofs.Asset.Validity
import AppletBundle.Proofs.Bundle.Contributions
import Mathlib.Data.List.Induction

/-!
# The bundles of pages

A page's bundle is the output of every component below it, the first of each identity only, and then
the output of the page itself; `AssetGraph.package_composes` says so about the outputs that
packaging leaves in the graph.

* `packagePage_spec` and `packageTree_spec` list what packaging comes to: numbers and outputs.
* `get?_setPackaged` says when such a list fixes the output of an asset: all of its entries for the
  number of the asset agree. They do since in a linked graph an entry's number belongs to one asset.
-/

namespace AppletBundle

open AssetTree

/-! ### Joining outputs -/

theorem Output.get_append (o q : Output) (kind : ModuleKind) :
    (o.append q).get kind = o.get kind ++ q.get kind := by
  cases kind <;> rfl

theorem get_concatOutputs (os : List Output) (kind : ModuleKind) :
    (Packagers.concatOutputs os).get kind = String.join (os.map fun o ↦ o.get kind) := by
  have hfoldl : ∀ o : Output, (os.foldl Output.append o).get kind =
      o.get kind ++ String.join (os.map fun o ↦ o.get kind) := by
    induction os with
    | nil =>
      intro o
      rw [List.foldl_nil, List.map_nil, String.join_nil, String.append_empty]
    | cons q os ih =>
      intro o
      rw [List.foldl_cons, ih, Output.get_append, List.map_cons, String.join_cons,
        String.append_assoc]
  rw [Packagers.concatOutputs, hfoldl]
  cases kind <;> exact String.empty_append

/-- Where only some have a text, joining the texts of all is joining the texts that there are. -/
theorem join_map_getD {α β : Type} (as : List α) (part? : α → Option β) (text : β → String) :
    String.join (as.map fun a ↦ ((part? a).map text).getD "") =
      String.join ((as.filterMap part?).map text) := by
  induction as with
  | nil => rfl
  | cons a as ih =>
    rw [List.map_cons, String.join_cons, ih, List.filterMap_cons]
    rcases part? a with - | b
    · exact String.empty_append
    · exact (String.join_cons ..).symm

namespace Packagers

variable (p : Packagers)

/-! ### Pages -/

/-- The output of a page above components: theirs, each identity once, and then its own. -/
def bundleOutput (page : Asset) (below : List Asset) : Output :=
  (concatOutputs ((firstsOfIdentity below).map p.ownOutput)).append (p.ownOutput page)

theorem get_bundleOutput (page : Asset) (below : List Asset) (kind : ModuleKind) :
    (p.bundleOutput page below).get kind =
      String.join ((firstsOfIdentity below).map fun c ↦ (p.ownOutput c).get kind) ++
        (p.ownOutput page).get kind := by
  rw [bundleOutput, Output.get_append, get_concatOutputs, List.map_map]
  rfl

/-- The numbers and outputs of a page and of all below it. -/
def outputsOfPage : AssetTree → List (AssetId × Output)
  | .node page ts =>
    ((postOrderAll ts).map fun c ↦ (c.id, p.ownOutput c)) ++
      [(page.id, p.bundleOutput page (postOrderAll ts))]

/-- A page is packaged with components below it that are packaged. -/
structure PackagesPage (page : Asset) (below : List Asset) : Prop where
  isPage : page.IsPage
  own : p.Packages page
  below : ∀ c ∈ below, c.IsComponent ∧ p.Packages c

variable {p}

/-- **Packaging a page** packages all below it and joins the outputs. -/
theorem packagePage_spec {page : Asset} {ts : List AssetTree} {b : PageBundle}
    (h : (p.packagePage (.node page ts)).result = .ok b) :
    p.PackagesPage page (postOrderAll ts) ∧
      b.assets.map numbered = p.outputsOfPage (.node page ts) := by
  rw [packagePage] at h
  cases hk : page.kind with
  | page route =>
    simp only [hk] at h
    rw [Work.result_andThen, Outcome.bind_eq_ok] at h
    obtain ⟨subs, hsubs, h⟩ := h
    rw [Work.result_andThen, Outcome.bind_eq_ok] at h
    obtain ⟨own, hown, h⟩ := h
    cases h
    have hbelow := packageComponents_spec (Work.result_all_eq_ok.1 hsubs)
    refine ⟨⟨⟨route, hk⟩, .of_eq_ok hown, hbelow.components⟩, ?_⟩
    have hall : ((postOrderAll ts).filter fun a ↦ a.identity ∉ ([] : List String)) =
        postOrderAll ts := List.filter_eq_self.2 fun a _ ↦ by simp
    rw [List.map_append, hbelow.assets, outputsOfPage, hbelow.contributions,
      firstOfIdentity_map_contribution, hall, List.map_map, bundleOutput, ownOutput_eq hown]
    rfl
  | app =>
    simp only [hk] at h
    cases h
  | component tag =>
    simp only [hk] at h
    cases h

end Packagers

open Packagers

section walk

variable {p : Packagers} {σ : Type} {w : Writer σ} {outDir : Path}

/-- All pages of a walk that succeeds are packaged. -/
theorem packagePages_spec {pages : List AssetTree} {s : σ}
    {bundles : List (PageBundle × ManifestEntry)}
    (h : (packagePages p w outDir pages s).result = .ok bundles) :
    (∀ page ts, .node page ts ∈ pages → p.PackagesPage page (postOrderAll ts)) ∧
      (bundles.flatMap fun b ↦ b.1.assets).map numbered = pages.flatMap p.outputsOfPage := by
  induction pages generalizing s bundles with
  | nil =>
    cases h
    exact ⟨fun _ _ hmem ↦ absurd hmem List.not_mem_nil, rfl⟩
  | cons t pages ih =>
    obtain ⟨page, ts⟩ := t
    rw [packagePages] at h
    cases hw : (p.packagePage (.node page ts)).result with
    | error f =>
      rw [hw] at h
      cases h
    | ok b =>
      obtain ⟨hpage, hassets⟩ := packagePage_spec hw
      simp only [hw] at h
      obtain ⟨be, hbe, h⟩ := Outcome.bind_eq_ok.1 h
      obtain ⟨rest, hrest, h⟩ := Outcome.bind_eq_ok.1 h
      cases h
      obtain ⟨hpages, hrests⟩ := ih hrest
      have hb : be.1 = b := by
        cases he : (w.writePage outDir b s).1 with
        | error f =>
          rw [he] at hbe
          cases hbe
        | ok e =>
          rw [he] at hbe
          cases hbe
          rfl
      refine ⟨fun page' ts' hmem ↦ ?_, ?_⟩
      · rcases List.mem_cons.1 hmem with heq | hmem
        · cases heq
          exact hpage
        · exact hpages page' ts' hmem
      · rw [List.flatMap_cons, List.map_append, hb, hassets, hrests, List.flatMap_cons]

/-- **Packaging a tree** comes to the outputs of its pages and last that of the app. -/
theorem packageTree_spec {app : Asset} {pages : List AssetTree} {s : σ}
    {assets : List PackagedAsset} {records : List BundleRecord}
    (h : (packageTree p w outDir app pages s).result = .ok (assets, records)) :
    (∀ page ts, .node page ts ∈ pages → p.PackagesPage page (postOrderAll ts)) ∧
      ∃ o, assets.map numbered = pages.flatMap p.outputsOfPage ++ [(app.id, o)] := by
  rw [packageTree] at h
  cases hpages : (packagePages p w outDir pages s).result with
  | error f =>
    simp only [hpages] at h
    cases h
  | ok bundles =>
    simp only [hpages] at h
    obtain ⟨hspec, hbundles⟩ := packagePages_spec hpages
    refine ⟨hspec, ?_⟩
    cases hown : (p.packageApp app).result with
    | error f =>
      simp only [hown] at h
      cases h
    | ok own =>
      have hid : own.id = app.id := by
        rw [packageApp, Work.result_andThen, Outcome.bind_eq_ok] at hown
        obtain ⟨script, -, hown⟩ := hown
        cases hown
        rfl
      simp only [hown] at h
      cases hw :
          (w.writeBundle outDir app own.output (packagePages p w outDir pages s).state).1 with
      | error f =>
        simp only [hw] at h
        cases h
      | ok paths =>
        simp only [hw] at h
        cases h
        exact ⟨own.output, by rw [List.map_append, hbundles, List.map_singleton, numbered, hid]⟩

end walk

namespace AssetGraph

/-! ### Outputs that are put into the graph -/

/-- The output of an asset. -/
def outputOf? (g : AssetGraph) (id : AssetId) : Option Output :=
  (g.get? id).map Asset.output

/-- Changes leave assets where they are. -/
theorem exists_get?_foldl_modify {α : Type} (key : α → AssetId) (f : α → Asset → Asset)
    (xs : List α) {g : AssetGraph} {id : AssetId} {a : Asset} (ha : g.get? id = some a) :
    ∃ b, (xs.foldl (fun g x ↦ g.modify (key x) (f x)) g).get? id = some b := by
  induction xs generalizing g a with
  | nil => exact ⟨a, ha⟩
  | cons x xs ih => exact ih (by rw [get?_modify, ha, Option.map_some])

/-- An asset has the output with which it is listed, if the list does not contradict itself. -/
theorem outputOf?_setPackaged {g : AssetGraph} {assets : List PackagedAsset} {id : AssetId}
    {a : Asset} {o : Output} (ha : g.get? id = some a) (hmem : (id, o) ∈ assets.map numbered)
    (huniq : ∀ x ∈ assets.map numbered, x.1 = id → x.2 = o) :
    (g.setPackaged assets).outputOf? id = some o := by
  -- what is listed last counts
  induction assets using List.reverseRecOn with
  | nil => exact absurd hmem List.not_mem_nil
  | append_singleton assets x ih =>
    obtain ⟨b, hb⟩ : ∃ b, (g.setPackaged assets).get? id = some b :=
      exists_get?_foldl_modify _ _ assets ha
    rw [List.map_append, List.map_singleton] at hmem huniq
    rw [outputOf?, setPackaged, List.foldl_concat, get?_modify, Option.map_map]
    change ((g.setPackaged assets).get? id).map _ = _
    by_cases hx : x.id = id
    · have hxo : x.output = o :=
        huniq (numbered x) (List.mem_append_right _ (List.mem_singleton.2 rfl)) hx
      rw [hb, Option.map_some, Function.comp_apply, if_pos hx, hxo]
    · have hmem' : (id, o) ∈ assets.map numbered := by
        refine (List.mem_append.1 hmem).resolve_right fun h ↦ hx ?_
        rw [List.mem_singleton] at h
        exact (congrArg Prod.fst h).symm
      have hih := ih hmem' fun y hy ↦ huniq y (List.mem_append_left _ hy)
      rw [outputOf?, hb, Option.map_some] at hih
      rw [hb, Option.map_some, Function.comp_apply, if_neg hx]
      exact hih

end AssetGraph

namespace Packagers

/-- What the output of a component or page of `g` is in the end. -/
structure FinalOutput (p : Packagers) (g : AssetGraph) (a : Asset) (o : Output) : Prop where
  component : a.IsComponent → o = p.ownOutput a
  page : a.IsPage →
    ∃ ts, g.Unfolds a.children.values ts ∧ o = p.bundleOutput a (postOrderAll ts)

theorem FinalOutput.unique {p : Packagers} {g : AssetGraph} {a : Asset} {o q : Output}
    (ha : a.IsComponent ∨ a.IsPage) (h : p.FinalOutput g a o) (h' : p.FinalOutput g a q) :
    o = q := by
  rcases ha with hc | hp
  · rw [h.component hc, h'.component hc]
  · obtain ⟨ts, hts, rfl⟩ := h.page hp
    obtain ⟨us, hus, rfl⟩ := h'.page hp
    rw [hts.unique hus]

end Packagers

namespace AssetGraph

variable {p : Packagers}

/-- Packaging a tree lists outputs under the numbers of the assets that they belong to. -/
theorem Linked.finalOutput_of_mem {g : AssetGraph} (hg : g.Linked) {root : AssetId} {app : Asset}
    {pages : List AssetTree} {o : Output} (happ : g.get? root = some app) (hk : app.kind = .app)
    (hun : g.Unfolds app.children.values pages)
    (hpages : ∀ page ts, .node page ts ∈ pages → p.PackagesPage page (postOrderAll ts))
    {x : AssetId × Output} (hx : x ∈ pages.flatMap p.outputsOfPage ++ [(app.id, o)]) :
    ∃ a, g.get? x.1 = some a ∧ p.FinalOutput g a x.2 := by
  rcases List.mem_append.1 hx with hx | hx
  · obtain ⟨⟨page, ts⟩, hmem, hx⟩ := List.mem_flatMap.1 hx
    obtain ⟨i, -, hpage, hts⟩ := hun.get?_of_node_mem hmem
    have hspec := hpages page ts hmem
    rcases List.mem_append.1 hx with hx | hx
    · obtain ⟨c, hc, rfl⟩ := List.mem_map.1 hx
      have hcomp := (hspec.below c hc).1
      exact ⟨c, hts.get?_id_of_mem hg hc, fun _ ↦ rfl, fun h ↦ absurd h hcomp.not_isPage⟩
    · rw [List.mem_singleton] at hx
      subst hx
      rw [hg.id_eq hpage]
      exact ⟨page, hpage, fun h ↦ absurd hspec.isPage h.not_isPage, fun _ ↦ ⟨ts, hts, rfl⟩⟩
  · rw [List.mem_singleton] at hx
    subst hx
    rw [hg.id_eq happ]
    refine ⟨app, happ, ?_, ?_⟩
    · rintro ⟨tag, ht⟩
      rw [hk] at ht
      cases ht
    · rintro ⟨route, hr⟩
      rw [hk] at hr
      cases hr

/-- The outputs that a tree lists for its pages and components are theirs in the end. -/
theorem Linked.outputOf?_of_mem {g : AssetGraph} (hg : g.Linked) {root : AssetId} {app : Asset}
    {pages : List AssetTree} (happ : g.get? root = some app) (hk : app.kind = .app)
    (hun : g.Unfolds app.children.values pages)
    (hpages : ∀ page ts, .node page ts ∈ pages → p.PackagesPage page (postOrderAll ts))
    {assets : List PackagedAsset} {appOutput : Output}
    (hassets : assets.map numbered = pages.flatMap p.outputsOfPage ++ [(app.id, appOutput)])
    (modules : List (AssetId × Script.ScriptModule)) {a : Asset} {o : Output}
    (ha : g.get? a.id = some a) (hkind : a.IsComponent ∨ a.IsPage)
    (hmem : (a.id, o) ∈ pages.flatMap p.outputsOfPage) :
    ((g.setModules modules).setPackaged assets).outputOf? a.id = some o := by
  obtain ⟨b, hb⟩ : ∃ b, (g.setModules modules).get? a.id = some b :=
    exists_get?_foldl_modify _ _ modules ha
  have hfinal : ∀ x ∈ assets.map numbered, x.1 = a.id → p.FinalOutput g a x.2 := by
    intro x hx hid
    rw [hassets] at hx
    obtain ⟨a', ha', hfinal⟩ := hg.finalOutput_of_mem happ hk hun hpages hx
    rw [hid, ha] at ha'
    cases ha'
    exact hfinal
  have hlisted : (a.id, o) ∈ assets.map numbered := hassets ▸ List.mem_append_left _ hmem
  exact outputOf?_setPackaged hb hlisted fun x hx hid ↦
    (hfinal x hx hid).unique hkind (hfinal _ hlisted rfl)

/-! ### A graph with a component that is used twice -/

/-- Packagers that take the text of modules as it is. -/
def verbatim : Packagers where
  script _ m := (.ok ⟨m.source, .empty⟩, m)
  markup _ m := .ok m.source
  style _ m := .ok m.source

/-- A module of style only. -/
def styled (css : String) : SiblingModules :=
  { SiblingModules.empty with style := some ⟨⟨"a.css"⟩, css⟩ }

def shelf : Asset :=
  ⟨1, .page "/", "shelf", ⟨"shelf"⟩, { styled "shelf" with markup := some ⟨⟨"shelf.html"⟩, "s"⟩ },
    (OrderedMap.empty.insert "card" 2).insert "button" 4, some 0, .empty, .empty⟩

def card : Asset :=
  ⟨2, .component "card", "card", ⟨"card"⟩, styled "card", OrderedMap.empty.insert "button" 3,
    some 1, .empty, .empty⟩

def button (id parent : AssetId) : Asset :=
  ⟨id, .component "button", "button", ⟨"button"⟩, styled "button", .empty, some parent, .empty,
    .empty⟩

/-- A page that holds a button, and a card that holds the same button again, before it. -/
def shelfGraph : AssetGraph where
  nodes :=
    [⟨0, .app, "shop", ⟨"shop"⟩, .empty, OrderedMap.empty.insert "shelf" 1, none, .empty, .empty⟩,
     shelf, card, button 3 2, button 4 1]
  root := some 0

theorem built_shelfGraph : shelfGraph.Built := by
  have hshop := Built.addApp .empty
    (rfl : AssetGraph.empty.addApp "shop" ⟨"shop"⟩ .empty = .ok (0, _))
  have hshelf := hshop.addChild
    (rfl : addChild _ 0 shelf.kind "shelf" ⟨"shelf"⟩ shelf.siblings = .ok (1, _))
  have hcard := hshelf.addChild
    (rfl : addChild _ 1 card.kind "card" ⟨"card"⟩ card.siblings = .ok (2, _))
  have hinner := hcard.addChild
    (rfl : addChild _ 2 (button 3 2).kind "button" ⟨"button"⟩ (styled "button") = .ok (3, _))
  exact hinner.addChild
    (rfl : addChild _ 1 (button 4 1).kind "button" ⟨"button"⟩ (styled "button") =
      .ok (4, shelfGraph))

theorem unfolds_shelf : shelfGraph.Unfolds shelf.children.values
    [.node card [.node (button 3 2) []], .node (button 4 1) []] :=
  .cons rfl (.cons rfl .nil .nil) (.cons rfl .nil .nil)

/-! ### Packaging a graph -/

/-- What `g` holds for a page above the components `below`: their outputs, each identity once, are
joined in their order, kind by kind, before the page's own. -/
structure Composed (p : Packagers) (g : AssetGraph) (page : Asset) (below : List Asset) : Prop where
  /-- Packaging has succeeded for each of the assets, so `ownOutput` is what it came to. -/
  packages : ∀ a ∈ page :: below, p.Packages a
  components : ∀ c ∈ below, c.IsComponent ∧ g.outputOf? c.id = some (p.ownOutput c)
  slot : ∃ o, g.outputOf? page.id = some o ∧ ∀ kind, o.get kind =
    String.join ((firstsOfIdentity below).map fun c ↦ (p.ownOutput c).get kind) ++
      (p.ownOutput page).get kind
  nodup : ((firstsOfIdentity below).map Asset.identity).Nodup
  identities : ∀ identity, identity ∈ (firstsOfIdentity below).map Asset.identity ↔
    identity ∈ below.map Asset.identity

section package

variable {g : AssetGraph} {σ : Type} {w : Writer σ} {outDir : Path} {context : BuildContext}
  {s : σ}

/-- Packaging succeeds for valid graphs only, and leaves the outputs of its walk. -/
theorem package_eq_ok (h : (g.package p w outDir context s).result = .ok ()) :
    g.validate = .ok () ∧ ∃ root app pages assets records, g.root = some root ∧
      g.tree? root = some (.node app pages) ∧
      (packageTree p w outDir app pages s).result = .ok (assets, records) ∧
      (g.package p w outDir context s).graph =
        (g.setModules (packageTree p w outDir app pages s).modules).setPackaged assets := by
  rw [package] at h ⊢
  cases hv : g.validate with
  | error f =>
    simp only [hv] at h
    cases h
  | ok u =>
    cases hroot : g.root with
    | none =>
      simp only [hv, hroot, Option.bind_none] at h
      cases h
    | some root =>
      cases htree : g.tree? root with
      | none =>
        simp only [hv, hroot, htree, Option.bind_some] at h
        cases h
      | some t =>
        obtain ⟨app, pages⟩ := t
        simp only [hv, hroot, htree, Option.bind_some] at h ⊢
        cases hw : (packageTree p w outDir app pages s).result with
        | error f =>
          simp only [hw] at h
          cases h
        | ok r =>
          obtain ⟨assets, records⟩ := r
          exact ⟨trivial, root, app, pages, assets, records, rfl, htree, hw, rfl⟩

/-- **Bundles of pages are composed** of what is below the page, in post-order, and of nothing that
is below another page. -/
theorem package_composes (hg : g.Built)
    (h : (g.package p w outDir context s).result = .ok ()) {id : AssetId} {page : Asset}
    (hpage : g.get? id = some page) (hk : page.IsPage) :
    ∃ ts, g.Unfolds page.children.values ts ∧
      Composed p (g.package p w outDir context s).graph page (postOrderAll ts) ∧
      ∀ j other us, g.get? j = some other → other.IsPage → j ≠ id →
        g.Unfolds other.children.values us → ∀ c ∈ postOrderAll ts, c ∉ postOrderAll us := by
  have hlinked := hg.linked
  obtain ⟨hv, root, app, pages, assets, records, hroot, htree, hw, hgraph⟩ := package_eq_ok h
  obtain ⟨hpages, appOutput, hassets⟩ := packageTree_spec hw
  obtain ⟨app', happ, hkind, -⟩ := hlinked.mem_children_of_validate hroot hv hpage hk
  obtain ⟨pages', htree', hun⟩ := hlinked.exists_tree?_eq happ
  rw [htree] at htree'
  cases htree'
  have hwalk : ∀ {i a}, g.get? i = some a → a.IsPage →
      ∃ ts, .node a ts ∈ pages ∧ g.Unfolds a.children.values ts := by
    intro i a ha hka
    obtain ⟨app', happ', -, hmem⟩ := hlinked.mem_children_of_validate hroot hv ha hka
    rw [happ] at happ'
    cases happ'
    exact hun.exists_node_mem hmem ha
  obtain ⟨ts, hmem, hts⟩ := hwalk hpage hk
  have hspec := hpages page ts hmem
  have hpage' : g.get? page.id = some page := by rw [hlinked.id_eq hpage, hpage]
  have hfinal : ∀ {a o}, g.get? a.id = some a → a.IsComponent ∨ a.IsPage →
      (a.id, o) ∈ p.outputsOfPage (.node page ts) →
      (g.package p w outDir context s).graph.outputOf? a.id = some o := by
    intro a o ha hka hlist
    rw [hgraph]
    exact hlinked.outputOf?_of_mem happ hkind hun hpages hassets _ ha hka
      (List.mem_flatMap.2 ⟨_, hmem, hlist⟩)
  obtain ⟨hnodup, hsub, hall⟩ := firstsOfIdentity_spec (postOrderAll ts)
  refine ⟨ts, hts, ⟨?_, fun c hc ↦ ⟨(hspec.below c hc).1, ?_⟩, ⟨_, ?_, p.get_bundleOutput _ _⟩,
    hnodup, fun identity ↦ ⟨fun hi ↦ List.map_subset _ hsub hi, fun hi ↦ ?_⟩⟩, ?_⟩
  · intro a ha
    rcases List.mem_cons.1 ha with rfl | ha
    · exact hspec.own
    · exact (hspec.below a ha).2
  · exact hfinal (hts.get?_id_of_mem hlinked hc) (Or.inl (hspec.below c hc).1)
      (List.mem_append_left _ (List.mem_map_of_mem hc))
  · exact hfinal hpage' (Or.inr hk) (List.mem_append_right _ (List.mem_singleton.2 rfl))
  · obtain ⟨c, hc, rfl⟩ := List.mem_map.1 hi
    exact hall c hc
  · intro j other us hother hko hne hus
    obtain ⟨us', hmem', hus'⟩ := hwalk hother hko
    cases hus.unique hus'
    exact hts.disjoint hlinked hpage hother hne.symm (fun h ↦ h.not_isPage hk)
      (fun h ↦ h.not_isPage hko) hus (fun c hc ↦ (hspec.below c hc).1)
      fun c hc ↦ ((hpages other us hmem').below c hc).1

end package

theorem package_composes_shelf :
    let packaged := shelfGraph.package verbatim memoryWriter ⟨"out"⟩ .empty []
    shelfGraph.Built ∧ packaged.result = .ok () ∧ shelfGraph.get? 1 = some shelf ∧ shelf.IsPage ∧
      ∃ o, packaged.graph.outputOf? 1 = some o ∧ o.style = "button\ncard\nshelf\n" := by
  intro packaged
  have h : packaged.result = .ok () := by decide +kernel
  have hget : shelfGraph.get? 1 = some shelf := rfl
  have hpage : shelf.IsPage := ⟨"/", rfl⟩
  obtain ⟨ts, hts, hcomposed, -⟩ := package_composes built_shelfGraph h hget hpage
  cases hts.unique unfolds_shelf
  obtain ⟨o, ho, hslot⟩ := hcomposed.slot
  refine ⟨built_shelfGraph, h, hget, hpage, o, ho, (hslot .style).trans ?_⟩
  decide +kernel

end AssetGraph

end AppletBundle
