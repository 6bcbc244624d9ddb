import AppletBundle.Proofs.Bundle.Agreement
import AppletBundle.Proofs.Bundle.Success
import AppletBundle.Proofs.Project.Graph

/-!
# Components that occur more than once

Two assets of a project with the same identity have the same base, and everything that is read at a
base and below it is the same wherever the base is declared. So the trees below the two differ in
the numbers of the assets only (`Loaded.replicas`), and as packaging a component does not depend on
its tag either, both have the same output (`Same.result_packageOwn`). That is why a page may take
the output of a component once for each identity: what it passes over is in the bundle already
(`load_replicates`).
-/

namespace AppletBundle

open AssetTree

/-- Two assets hold the same, up to what they are declared as and where they are in the graph. -/
structure Asset.Same (a b : Asset) : Prop where
  identity : a.identity = b.identity
  path : a.path = b.path
  siblings : a.siblings = b.siblings
  output : a.output = b.output
  dependencies : a.dependencies = b.dependencies

/-- Trees of the same shape with assets that are declared as the same and hold the same. -/
inductive AssetTree.Replicas : List AssetTree → List AssetTree → Prop
  | nil : Replicas [] []
  | cons {a b : Asset} {ts us ts' us' : List AssetTree} (hkind : a.kind = b.kind) (h : a.Same b)
      (hbelow : Replicas ts us) (hrest : Replicas ts' us') :
      Replicas (.node a ts :: ts') (.node b us :: us')

theorem AssetTree.Replicas.length_preOrderAll {ts us : List AssetTree} (h : Replicas ts us) :
    (preOrderAll ts).length = (preOrderAll us).length := by
  induction h with
  | nil => rfl
  | cons _ _ _ _ ih ihs =>
    simp only [preOrderAll, preOrder, List.length_append, List.length_cons, ih, ihs]

namespace Project

open AssetGraph

variable {p : Project} {g : AssetGraph}

/-! ### What loading keeps -/

section induction

variable {P : AssetGraph → Prop} {Q : AssetId → Prop}
  (hchild : ∀ {g g' : AssetGraph} {parent id : AssetId} {tag identity : String} {path : Path}
    {siblings : SiblingModules}, P g → Q parent →
    g.addChild parent (.component tag) identity path siblings = .ok (id, g') → P g' ∧ Q id)

include hchild

/-- What is kept when a component is added below an asset of some kind, and makes it one of the kind
as well, is kept by loading below such an asset. -/
theorem loadComponents_induction {depth : ℕ} {id : AssetId} {base : Path} {chain : List String}
    {g' : AssetGraph} (hg : P g) (hid : Q id)
    (h : p.loadComponents depth id base chain g = .ok g') : P g' := by
  have hread : ∀ {find : Finder} {descend : Descent} {id : AssetId} {base : Path}
      {chain : List String} {g g' : AssetGraph},
      (∀ {id base chain g g'}, P g → Q id → descend id base chain g = .ok g' → P g') → P g → Q id →
      (p.unitManifest base >>= fun m ↦ m.usingComponents.entries.foldlM
        (loadComponent find descend id base chain) g) = .ok g' → P g' := by
    intro find descend id base chain g g' hdescend hg hid h
    obtain ⟨m, -, h⟩ := Outcome.bind_eq_ok.1 h
    refine Outcome.foldlM_induction (P := fun _ g ↦ P g) hg ?_ h
    rintro - ⟨tag, place⟩ g₁ g₂ - hg₁ hload
    rcases hplace : resolveComponent? base place with - | target
    · obtain rfl := Except.ok.inj ((loadComponent_of_eq_none hplace).symm.trans hload)
      exact hg₁
    · obtain ⟨-, _, _, _, -, -, hadd, hload⟩ := (loadComponent_eq_ok_iff hplace).1 hload
      obtain ⟨hg₂, hnew⟩ := hchild hg₁ hid hadd
      exact hdescend hg₂ hnew hload
  induction depth generalizing id base chain g g' with
  | zero =>
    refine hread (fun hg _ h ↦ ?_) hg hid h
    obtain rfl := Except.ok.inj h
    exact hg
  | succ depth ih => exact hread ih hg hid h

/-- What holds of an app alone, and is kept when a page is added below it or a component below a
page or component, holds of the graph of a project. -/
theorem load_induction (happ : ∀ siblings, P (appAlone siblings))
    (hpage : ∀ {g g' : AssetGraph} {id : AssetId} {route : String} {siblings : SiblingModules},
      P g → g.addChild 0 (.page route) (contentIdentity (keyOf (pageBase route))) (pageBase route)
        siblings = .ok (id, g') → P g' ∧ Q id)
    (h : p.load = .ok g) : P g := by
  rw [load] at h
  obtain ⟨m, -, h⟩ := Outcome.bind_eq_ok.1 h
  obtain ⟨siblings, -, h⟩ := Outcome.bind_eq_ok.1 h
  obtain ⟨⟨app, g₀⟩, hadd, h⟩ := Outcome.bind_eq_ok.1 h
  rw [addApp_eq_withApp rfl] at hadd
  cases hadd
  refine Outcome.foldlM_induction (P := fun _ g ↦ P g) (happ siblings) ?_ h
  intro _ route g₁ g₂ _ hg₁ hload
  rw [loadPage] at hload
  obtain ⟨siblings, -, hload⟩ := Outcome.bind_eq_ok.1 hload
  obtain ⟨⟨page, g₂⟩, hadd, hload⟩ := Outcome.bind_eq_ok.1 hload
  obtain ⟨hg₂, hnew⟩ := hpage hg₁ hadd
  exact loadComponents_induction hchild hg₂ hnew hload

end induction

theorem built_of_load (h : p.load = .ok g) : g.Built :=
  load_induction (Q := fun _ ↦ True) (fun hg _ hadd ↦ ⟨hg.addChild hadd, trivial⟩)
    (fun _ ↦ Built.empty.addApp (addApp_eq_withApp rfl))
    (fun hg hadd ↦ ⟨hg.addChild hadd, trivial⟩) h

/-- Nothing has come of any asset yet. -/
def Unpackaged (g : AssetGraph) : Prop :=
  ∀ {id a}, g.get? id = some a → a.output = .empty ∧ a.dependencies = .empty

theorem Unpackaged.addChild {g g' : AssetGraph} {parent id : AssetId} {kind : AssetKind}
    {identity : String} {path : Path} {siblings : SiblingModules} (hg : Unpackaged g)
    (h : g.addChild parent kind identity path siblings = .ok (id, g')) : Unpackaged g' := by
  rcases addChild_eq_ok h with rfl | ⟨above, habove, -, rfl⟩
  · exact hg
  · intro i a ha
    rcases (get?_attach_eq_some_iff habove).1 ha with ⟨ha, -⟩ | ⟨-, rfl⟩ | ⟨-, rfl⟩
    · exact hg ha
    · exact hg (a := above) habove
    · exact ⟨rfl, rfl⟩

theorem unpackaged_of_load (h : p.load = .ok g) : Unpackaged g := by
  refine load_induction (P := Unpackaged) (Q := fun _ ↦ True)
    (fun hg _ hadd ↦ ⟨hg.addChild hadd, trivial⟩) (fun siblings i a ha ↦ ?_)
    (fun hg hadd ↦ ⟨hg.addChild hadd, trivial⟩) h
  rcases get?_push_eq_some_iff.1 ha with ha | ⟨-, rfl⟩
  · cases ha
  · exact ⟨rfl, rfl⟩

/-! ### Identities and bases -/

/-- What makes up trees of declarations that are reached is declared, too. -/
theorem Unrolls.exists_makes {ds : List Declaration} {ts : List AssetTree} (h : p.Unrolls ds ts)
    (hds : ∀ d ∈ ds, p.Reaches d.2) {a : Asset} (ha : a ∈ preOrderAll ts) :
    ∃ d, p.Makes d a ∧ p.Reaches d.2 := by
  induction h with
  | nil => exact absurd ha List.not_mem_nil
  | @cons d ds b ts rest m hb hm _ _ ih ihs =>
    obtain ⟨hd, hds⟩ := List.forall_mem_cons.1 hds
    rw [preOrderAll, preOrder, List.cons_append, List.mem_cons, List.mem_append] at ha
    rcases ha with rfl | ha | ha
    · exact ⟨d, hb, hd⟩
    · refine ih (fun e he ↦ ?_) ha
      obtain ⟨declared, hdeclared, he⟩ := List.mem_filterMap.1 (firstsOfBase_subset _ he)
      obtain ⟨target, htarget, rfl⟩ := Option.map_eq_some_iff.1 he
      exact .component hd hm hdeclared htarget
    · exact ihs hds ha

theorem exists_makes_of_load (hinj : Set.InjOn contentIdentity p.keys) (h : p.load = .ok g)
    {id : AssetId} {a : Asset} (hid : id ≠ 0) (ha : g.get? id = some a) :
    ∃ d, p.Makes d a ∧ p.Reaches d.2 := by
  obtain ⟨m, app, ts, hm, -, -, -, hunrolls, -, -, hmem⟩ := exists_unrolls_of_load hinj h
  refine hunrolls.exists_makes (fun d hd ↦ ?_) (hmem hid ha)
  obtain ⟨route, hroute, rfl⟩ := List.mem_map.1 hd
  dsimp only
  exact .page hm hroute

/-- **The same identity, the same modules**: both are found at one base. -/
theorem same_of_identity_eq (hinj : Set.InjOn contentIdentity p.keys) (h : p.load = .ok g)
    {i j : AssetId} {a b : Asset} (hi : i ≠ 0) (hj : j ≠ 0) (ha : g.get? i = some a)
    (hb : g.get? j = some b) (hid : a.identity = b.identity) : a.Same b := by
  obtain ⟨d, hd, hreach⟩ := exists_makes_of_load hinj h hi ha
  obtain ⟨e, he, hreach'⟩ := exists_makes_of_load hinj h hj hb
  have hbase : d.2 = e.2 := hreach.identity_inj hinj hreach' (by
    rw [← hd.identity, ← he.identity, hid])
  have hempty := unpackaged_of_load h ha
  have hempty' := unpackaged_of_load h hb
  refine ⟨hid, by rw [hd.path, he.path, hbase], ?_, hempty.1.trans hempty'.1.symm,
    hempty.2.trans hempty'.2.symm⟩
  exact Except.ok.inj (hd.siblings.symm.trans (hbase ▸ he.siblings))

/-! ### Trees -/

/-- **Equal declarations, equal trees**, wherever they are in the graph. -/
theorem Loaded.replicas_of_lists (hloaded : p.Loaded g) (hlinked : g.Linked)
    (hempty : Unpackaged g) {ids ids' : List AssetId} {ts us : List AssetTree}
    {ds : List Declaration} (hts : g.Unfolds ids ts) (hus : g.Unfolds ids' us)
    (hds : p.Lists g ids ds) (hds' : p.Lists g ids' ds) (hids : ∀ id ∈ ids, id ≠ 0)
    (hids' : ∀ id ∈ ids', id ≠ 0) : Replicas ts us := by
  induction hts generalizing ids' us ds with
  | nil =>
    cases hds
    cases hds'
    cases hus
    exact .nil
  | @cons id ids a ts rest ha _ _ ih ihs =>
    rcases hds with - | ⟨⟨a', ha', hmakes⟩, hds⟩
    rcases hds' with - | ⟨⟨b, hb, hmakes'⟩, hds'⟩
    cases hus with
    | @cons id' ids' b' us rest' hb' hus hrest' =>
    obtain rfl := Option.some.inj (ha.symm.trans ha')
    obtain rfl := Option.some.inj (hb.symm.trans hb')
    obtain ⟨hid, hids⟩ := List.forall_mem_cons.1 hids
    obtain ⟨hid', hids'⟩ := List.forall_mem_cons.1 hids'
    have hpath : a.path = b.path := hmakes.path.trans hmakes'.path.symm
    obtain ⟨m, hm, hlists, -⟩ := hloaded.unit hid ha
    obtain ⟨m', hm', hlists', -⟩ := hloaded.unit hid' hb
    rw [← hpath] at hm' hlists'
    obtain rfl := Except.ok.inj (hm.symm.trans hm')
    have hsame : a.Same b :=
      ⟨hmakes.identity.trans hmakes'.identity.symm, hpath,
        Except.ok.inj (hmakes.siblings.symm.trans hmakes'.siblings),
        (hempty ha).1.trans (hempty hb).1.symm, (hempty ha).2.trans (hempty hb).2.symm⟩
    -- the numbers below an asset are greater than that of the asset
    exact .cons (hmakes.kind.trans hmakes'.kind.symm) hsame
      (ih hus hlists hlists'
        (fun c hc ↦ Nat.ne_zero_of_lt (hlinked.child ha hc).1)
        fun c hc ↦ Nat.ne_zero_of_lt (hlinked.child hb hc).1)
      (ihs hrest' hds hds' hids hids')

/-- **The same identity, the same tree below.** -/
theorem replicas_of_identity_eq (hinj : Set.InjOn contentIdentity p.keys) (h : p.load = .ok g)
    {i j : AssetId} {a b : Asset} (hi : i ≠ 0) (hj : j ≠ 0) (ha : g.get? i = some a)
    (hb : g.get? j = some b) (hid : a.identity = b.identity) {ts us : List AssetTree}
    (hts : g.Unfolds a.children.values ts) (hus : g.Unfolds b.children.values us) :
    Replicas ts us := by
  have hlinked := (built_of_load h).linked
  have hloaded := loaded_of_load hinj h
  obtain ⟨m, hm, hlists, -⟩ := hloaded.unit hi ha
  obtain ⟨m', hm', hlists', -⟩ := hloaded.unit hj hb
  rw [← (same_of_identity_eq hinj h hi hj ha hb hid).path] at hm' hlists'
  obtain rfl := Except.ok.inj (hm.symm.trans hm')
  exact hloaded.replicas_of_lists hlinked (unpackaged_of_load h) hts hus hlists hlists'
    (fun c hc ↦ Nat.ne_zero_of_lt (hlinked.child ha hc).1)
    fun c hc ↦ Nat.ne_zero_of_lt (hlinked.child hb hc).1

end Project

/-! ### Packaging -/

namespace Packagers

/-- Where a component is declared under another tag, nothing else comes of it. -/
theorem packageOwn_retag (c : Config) {a : Asset} (ha : a.IsComponent) (tag : String) :
    (ofConfig c).packageOwn { a with kind := .component tag } = (ofConfig c).packageOwn a := by
  obtain ⟨id, kind, identity, path, siblings, children, parent, output, dependencies⟩ := a
  obtain ⟨tag', rfl⟩ := ha
  rfl

end Packagers

/-- **Components that hold the same are packaged alike.** -/
theorem Asset.Same.result_packageOwn {a b : Asset} (h : a.Same b) (ha : a.IsComponent)
    (hb : b.IsComponent) (c : Config) :
    ((Packagers.ofConfig c).packageOwn a).result.map (fun own ↦ (own.output, own.dependencies)) =
      ((Packagers.ofConfig c).packageOwn b).result.map
        fun own ↦ (own.output, own.dependencies) := by
  obtain ⟨tag, htag⟩ := hb
  have halike : (Packagers.ofConfig c).Alike { a with kind := .component tag } b :=
    Packagers.alike_ofConfig c htag.symm h.identity h.path h.siblings
  rw [← Packagers.packageOwn_retag c ha tag]
  exact halike.result_packageOwn

theorem Asset.Same.ownOutput_eq {a b : Asset} (h : a.Same b) (ha : a.IsComponent)
    (hb : b.IsComponent) (c : Config) :
    (Packagers.ofConfig c).ownOutput a = (Packagers.ofConfig c).ownOutput b := by
  obtain ⟨tag, htag⟩ := hb
  have halike : (Packagers.ofConfig c).Alike { a with kind := .component tag } b :=
    Packagers.alike_ofConfig c htag.symm h.identity h.path h.siblings
  rw [← halike.ownOutput, Packagers.ownOutput, Packagers.ownOutput,
    Packagers.packageOwn_retag c ha tag]

/-! ### Bundles of pages -/

theorem exists_join_eq_of_mem {texts : List String} {text : String} (h : text ∈ texts) :
    ∃ before after, String.join texts = before ++ text ++ after := by
  obtain ⟨earlier, later, rfl⟩ := List.append_of_mem h
  exact ⟨String.join earlier, String.join later, by
    rw [String.join_append, String.join_cons, String.append_assoc]⟩

/-- Where assets of one identity have one output, a bundle has the output of each of them. -/
theorem Packagers.exists_bundleOutput_eq {p : Packagers} {below : List Asset}
    (hsame : ∀ a ∈ below, ∀ b ∈ below, a.identity = b.identity → p.ownOutput a = p.ownOutput b)
    (page : Asset) {a : Asset} (ha : a ∈ below) (kind : ModuleKind) :
    ∃ before after, (p.bundleOutput page below).get kind =
      before ++ (p.ownOutput a).get kind ++ after := by
  obtain ⟨-, hsub, hall⟩ := firstsOfIdentity_spec below
  obtain ⟨first, hfirst, hid⟩ := List.mem_map.1 (hall a ha)
  have hmem : (p.ownOutput a).get kind ∈
      (firstsOfIdentity below).map fun c ↦ (p.ownOutput c).get kind := by
    rw [hsame a ha first (hsub hfirst) hid.symm]
    exact List.mem_map_of_mem hfirst
  obtain ⟨before, after, hjoin⟩ := exists_join_eq_of_mem hmem
  exact ⟨before, after ++ (p.ownOutput page).get kind, by
    rw [p.get_bundleOutput, hjoin, String.append_assoc]⟩

namespace Project

open AssetGraph

variable {p : Project} {g : AssetGraph}

/-- Two components of a graph that differ in their tags and in where they are, but in nothing that
comes of them. -/
structure Replicated (c : Config) (g : AssetGraph) (a b : Asset) : Prop where
  same : a.Same b
  below : ∃ ts us, g.Unfolds a.children.values ts ∧ g.Unfolds b.children.values us ∧
    Replicas ts us
  packaged :
    ((Packagers.ofConfig c).packageOwn a).result.map (fun own ↦ (own.output, own.dependencies)) =
      ((Packagers.ofConfig c).packageOwn b).result.map fun own ↦ (own.output, own.dependencies)

theorem ne_zero_of_isComponent (hinj : Set.InjOn contentIdentity p.keys) (h : p.load = .ok g)
    {id : AssetId} {a : Asset} (ha : g.get? id = some a) (hk : a.IsComponent) : id ≠ 0 := by
  rintro rfl
  obtain ⟨m, app, -, happ, hmakes, -⟩ := (loaded_of_load hinj h).app
  obtain rfl := Option.some.inj (ha.symm.trans happ)
  obtain ⟨tag, hk⟩ := hk
  cases hk.symm.trans hmakes.kind

theorem replicated_of_identity_eq (hinj : Set.InjOn contentIdentity p.keys) (h : p.load = .ok g)
    (c : Config) {i j : AssetId} {a b : Asset} (ha : g.get? i = some a) (hb : g.get? j = some b)
    (hka : a.IsComponent) (hkb : b.IsComponent) (hid : a.identity = b.identity) :
    Replicated c g a b := by
  have hi := ne_zero_of_isComponent hinj h ha hka
  have hj := ne_zero_of_isComponent hinj h hb hkb
  have hsame := same_of_identity_eq hinj h hi hj ha hb hid
  have hlinked := (built_of_load h).linked
  obtain ⟨ts, -, hts⟩ := hlinked.exists_tree?_eq ha
  obtain ⟨us, -, hus⟩ := hlinked.exists_tree?_eq hb
  exact ⟨hsame, ⟨ts, us, hts, hus, replicas_of_identity_eq hinj h hi hj ha hb hid hts hus⟩,
    hsame.result_packageOwn hka hkb c⟩

/-- **Components with the same identity are replicas**, and what a page passes over since it has
taken a component with the same identity is in its bundle. -/
theorem load_replicates (p : Project) (hinj : Set.InjOn contentIdentity p.keys) {g : AssetGraph}
    (h : p.load = .ok g) (c : Config) :
    (∀ i j a b, g.get? i = some a → g.get? j = some b → a.IsComponent → b.IsComponent →
      a.identity = b.identity → Replicated c g a b) ∧
    ∀ {σ : Type} (w : Writer σ) (outDir : Path) (context : BuildContext) (s : σ),
      let run := g.package (Packagers.ofConfig c) w outDir context s
      run.result = .ok () → ∀ id page ts, g.get? id = some page → page.IsPage →
      g.Unfolds page.children.values ts →
      ∃ bundle, run.graph.outputOf? id = some bundle ∧ ∀ a ∈ postOrderAll ts,
        ∃ own, run.graph.outputOf? a.id = some own ∧
          ∀ kind, ∃ before after, bundle.get kind = before ++ own.get kind ++ after := by
  refine ⟨fun i j a b ↦ replicated_of_identity_eq hinj h c, ?_⟩
  intro σ w outDir context s run hrun id page ts hpage hk hts
  have hbuilt := built_of_load h
  obtain ⟨hbundle, hbelow⟩ := hbuilt.outputOf?_page hrun hpage hk hts
  have hget : ∀ a ∈ postOrderAll ts, g.get? a.id = some a := fun a ha ↦
    hts.get?_id_of_mem hbuilt.linked ha
  have hsame : ∀ a ∈ postOrderAll ts, ∀ b ∈ postOrderAll ts, a.identity = b.identity →
      (Packagers.ofConfig c).ownOutput a = (Packagers.ofConfig c).ownOutput b := by
    intro a ha b hb hid
    have hreplicated := replicated_of_identity_eq hinj h c (hget a ha) (hget b hb)
      (hbelow a ha).1 (hbelow b hb).1 hid
    exact hreplicated.same.ownOutput_eq (hbelow a ha).1 (hbelow b hb).1 c
  exact ⟨_, hbundle, fun a ha ↦ ⟨_, (hbelow a ha).2, fun kind ↦
    Packagers.exists_bundleOutput_eq hsame page ha kind⟩⟩

/-- A page with a box that holds a card, and with the same card next to it under another tag. -/
def boxedCard : Project where
  root := ⟨""⟩
  extensions := .standard
  files := ⟨[(["app.json"], .file (.text "\x7b\"pages\": [\"shelf\"]\x7d")),
    (["shelf.json"],
      .file (.text "\x7b\"usingComponents\": \x7b\"box\": \"box\", \"card\": \"card\"\x7d\x7d")),
    (["shelf.wxml"], .file (.text "<box/><card/>")),
    (["box.json"], .file (.text "\x7b\"usingComponents\": \x7b\"lid\": \"/card\"\x7d\x7d")),
    (["box.wxml"], .file (.text "<lid/>")), (["card.wxml"], .file (.text "card"))], []⟩

theorem injOn_boxedCard : Set.InjOn contentIdentity boxedCard.keys :=
  injOn_keys [⟨"shelf"⟩, ⟨"box"⟩, ⟨"card"⟩]
    (fun h ↦ h.mem_of_closed (by decide +kernel) (by decide +kernel)) (by decide +kernel)

/-- The card in the box is packaged before the box, and the other card is passed over. -/
theorem load_replicates_boxedCard : ∃ g a b page ts bundle,
    boxedCard.load = .ok g ∧ Set.InjOn contentIdentity boxedCard.keys ∧
      g.get? 3 = some a ∧ g.get? 4 = some b ∧ a.kind = .component "lid" ∧
      b.kind = .component "card" ∧ a.identity = b.identity ∧ Replicated .standard g a b ∧
      let run := g.package (Packagers.ofConfig .standard) memoryWriter ⟨"out"⟩ .empty []
      run.result = .ok () ∧ g.get? 1 = some page ∧ page.IsPage ∧
      g.Unfolds page.children.values ts ∧ (postOrderAll ts).map Asset.id = [3, 2, 4] ∧
      run.graph.outputOf? 1 = some bundle ∧ ∀ a ∈ postOrderAll ts,
        ∃ own, run.graph.outputOf? a.id = some own ∧
          ∀ kind, ∃ before after, bundle.get kind = before ++ own.get kind ++ after := by
  have hall : (boxedCard.load.map fun g ↦
      ([1, 3, 4].map fun id ↦ (g.get? id).map fun a ↦ (a.kind, a.identity),
        (g.tree? 1).map fun t ↦ t.postOrder.map Asset.id,
        (g.package (Packagers.ofConfig .standard) memoryWriter ⟨"out"⟩ .empty []).result)) =
      .ok ([some (.page "shelf", contentIdentity "shelf"),
          some (.component "lid", contentIdentity "card"),
          some (.component "card", contentIdentity "card")],
        some [3, 2, 4, 1], .ok ()) := by decide +kernel
  obtain ⟨g, hload, hall⟩ := Outcome.map_eq_ok.1 hall
  simp only [List.map_cons, List.map_nil, Prod.mk.injEq, List.cons.injEq, and_true,
    Option.map_eq_some_iff] at hall
  obtain ⟨⟨⟨page, hpage, hkpage, -⟩, ⟨a, ha, hka, hia⟩, b, hb, hkb, hib⟩, ⟨t, ht, hids⟩, hrun⟩ :=
    hall
  obtain ⟨hreplicated, hpages⟩ := load_replicates boxedCard injOn_boxedCard hload .standard
  obtain ⟨ts, htree, hts⟩ := (built_of_load hload).linked.exists_tree?_eq hpage
  obtain rfl := Option.some.inj (ht.symm.trans htree)
  obtain ⟨bundle, hbundle, hbelow⟩ :=
    hpages memoryWriter ⟨"out"⟩ .empty [] hrun 1 page ts hpage ⟨_, hkpage⟩ hts
  have hid := hia.trans hib.symm
  refine ⟨g, a, b, page, ts, bundle, hload, injOn_boxedCard, ha, hb, hka, hkb, hid,
    hreplicated 3 4 a b ha hb ⟨_, hka⟩ ⟨_, hkb⟩ hid, hrun, hpage, ⟨_, hkpage⟩, hts, ?_, hbundle,
    hbelow⟩
  have hsplit : (postOrderAll ts).map Asset.id ++ [page.id] = [3, 2, 4] ++ [1] := by
    rwa [postOrder, List.map_append] at hids
  exact (List.append_inj' hsplit rfl).1

end Project

end AppletBundle
