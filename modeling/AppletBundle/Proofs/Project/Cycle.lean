import AppletBundle.Proofs.Project.Replicas
import AppletBundle.Proofs.Project.Stack

/-!
# Components below themselves

A component that lies below itself would make a tree without an end. A graph that is loaded has
none: on a way down the trees get smaller, but two assets with the same identity have trees of the
same size (`nodup_of_leadsDown`).

Conversely, `Walks` follows the declarations in their order, without a graph, down to the first one
that leads to a key on the chain above it. If there is one, and nothing else is wrong before it, that
is what loading fails with (`MeetsCycle.load_eq`). `load_cycles` puts both together with what is
known of the stack.
-/

namespace AppletBundle

open AssetTree

theorem Outcome.ok_bind {α β : Type} (a : α) (f : α → Outcome β) :
    ((.ok a : Outcome α) >>= f) = f a :=
  rfl

theorem OrderedMap.mem_values_of_get? {κ ν : Type} [DecidableEq κ] {m : OrderedMap κ ν} {k : κ}
    {v : ν} (h : m.get? k = some v) : v ∈ m.values := by
  obtain ⟨before, after, hentries, -⟩ := List.lookup_eq_some_iff.1 h
  rw [OrderedMap.values, hentries, List.map_append]
  exact List.mem_append_right _ List.mem_cons_self

namespace Project

open AssetGraph

variable {p : Project}

/-! ### Ways down -/

/-- Assets of a graph of which each is a child of the one before. -/
structure LeadsDown (g : AssetGraph) (as : List Asset) : Prop where
  get? : ∀ a ∈ as, g.get? a.id = some a
  child : as.IsChain fun a b ↦ b.id ∈ a.children.values

/-- The number of assets in the tree below an asset. -/
def treeSize (g : AssetGraph) (a : Asset) : ℕ :=
  (g.tree? a.id).elim 0 fun t ↦ t.preOrder.length

theorem length_preOrder_le_of_mem {t : AssetTree} {ts : List AssetTree} (h : t ∈ ts) :
    t.preOrder.length ≤ (preOrderAll ts).length := by
  obtain ⟨earlier, later, rfl⟩ := List.append_of_mem h
  rw [preOrderAll_append, preOrderAll, List.length_append, List.length_append]
  omega

theorem treeSize_eq {g : AssetGraph} {a : Asset} {ts : List AssetTree}
    (h : g.tree? a.id = some (.node a ts)) : treeSize g a = (preOrderAll ts).length + 1 := by
  rw [treeSize, h]
  rfl

/-- **Trees get smaller on a way down.** -/
theorem treeSize_lt {g : AssetGraph} (hg : g.Linked) {a b : Asset} (ha : g.get? a.id = some a)
    (hb : g.get? b.id = some b) (hchild : b.id ∈ a.children.values) :
    treeSize g b < treeSize g a := by
  obtain ⟨ts, htree, hts⟩ := hg.exists_tree?_eq ha
  obtain ⟨us, htree', hus⟩ := hg.exists_tree?_eq hb
  obtain ⟨us', hmem, hus'⟩ := hts.exists_node_mem hchild hb
  obtain rfl := hus.unique hus'
  rw [treeSize_eq htree, treeSize_eq htree']
  exact Nat.lt_succ_of_le (length_preOrder_le_of_mem hmem)

/-- **No identity is met twice** on a way down from a page. -/
theorem nodup_of_leadsDown (hinj : Set.InjOn contentIdentity p.keys) {g : AssetGraph}
    (h : p.load = .ok g) {page : Asset} {below : List Asset} (hpage : page.IsPage)
    (hdown : LeadsDown g (page :: below)) : ((page :: below).map Asset.identity).Nodup := by
  have hlinked := (built_of_load h).linked
  have hpage0 : page.id ≠ 0 := by
    intro hid
    obtain ⟨m, app, -, happ, hmakes, -⟩ := (loaded_of_load hinj h).app
    obtain rfl := Option.some.inj
      ((hid ▸ hdown.get? page List.mem_cons_self).symm.trans happ)
    obtain ⟨route, hk⟩ := hpage
    cases hk.symm.trans hmakes.kind
  -- numbers grow and trees shrink from each asset to all that come later
  have hlater : (page :: below).Pairwise fun a b ↦ a.id < b.id ∧ treeSize g b < treeSize g a := by
    have htrans : IsTrans Asset fun a b ↦ a.id < b.id ∧ treeSize g b < treeSize g a :=
      ⟨fun _ _ _ h h' ↦ ⟨h.1.trans h'.1, h'.2.trans h.2⟩⟩
    refine List.isChain_iff_pairwise.1 (hdown.child.imp_of_mem_imp fun a b ha hb hchild ↦ ?_)
    have hget := hdown.get? a ha
    exact ⟨(hlinked.child hget hchild).1, treeSize_lt hlinked hget (hdown.get? b hb) hchild⟩
  have hne : ∀ a ∈ page :: below, a.id ≠ 0 := by
    intro a ha
    rcases List.mem_cons.1 ha with rfl | ha
    · exact hpage0
    · exact Nat.ne_zero_of_lt ((List.pairwise_cons.1 hlater).1 a ha).1
  rw [List.Nodup, List.pairwise_map]
  refine hlater.imp_of_mem fun ha hb hlt hid ↦ Nat.ne_of_lt hlt.2 ?_
  have hget := hdown.get? _ ha
  have hget' := hdown.get? _ hb
  obtain ⟨ts, htree, hts⟩ := hlinked.exists_tree?_eq hget
  obtain ⟨us, htree', hus⟩ := hlinked.exists_tree?_eq hget'
  rw [treeSize_eq htree, treeSize_eq htree', (replicas_of_identity_eq hinj h (hne _ ha) (hne _ hb)
    hget hget' hid hts hus).length_preOrderAll]

/-! ### Following declarations -/

/-- What has to be read of a component before its own declarations are followed. -/
structure Readable (p : Project) (base : Path) (m : UnitManifest) : Prop where
  modules : ∃ siblings, p.siblings base = .ok siblings ∧ siblings.hasAny
  manifest : p.unitManifest base = .ok m

/-- `p.Walks base chain ds met`: the declarations `ds` at a base are followed in order, each down to
the end before the next one, where `chain` has the keys down to the base. Nothing is wrong on the
way, until in the end there is nothing left, or a key is met that is on the chain above it. -/
inductive Walks (p : Project) :
    Path → List String → List (String × String) → Option (List String × String) → Prop
  | done {base : Path} {chain : List String} : Walks p base chain [] none
  | pass {base : Path} {chain : List String} {d : String × String} {ds : List (String × String)}
      {met : Option (List String × String)} (hplace : resolveComponent? base d.2 = none)
      (hrest : Walks p base chain ds met) : Walks p base chain (d :: ds) met
  | meet {base target : Path} {chain : List String} {d : String × String}
      {ds : List (String × String)} (hplace : resolveComponent? base d.2 = some target)
      (hchain : keyOf target ∈ chain) :
      Walks p base chain (d :: ds) (some (chain, keyOf target))
  | inside {base target : Path} {chain : List String} {d : String × String}
      {ds : List (String × String)} {m : UnitManifest} {met : List String × String}
      (hplace : resolveComponent? base d.2 = some target) (hchain : keyOf target ∉ chain)
      (hread : p.Readable target m)
      (hinside : Walks p target (chain ++ [keyOf target]) m.usingComponents.entries (some met)) :
      Walks p base chain (d :: ds) (some met)
  | next {base target : Path} {chain : List String} {d : String × String}
      {ds : List (String × String)} {m : UnitManifest} {met : Option (List String × String)}
      (hplace : resolveComponent? base d.2 = some target) (hchain : keyOf target ∉ chain)
      (hread : p.Readable target m)
      (hinside : Walks p target (chain ++ [keyOf target]) m.usingComponents.entries none)
      (hrest : Walks p base chain ds met) : Walks p base chain (d :: ds) met

/-- The identity of the page of a route. -/
def pageIdentity (route : String) : String :=
  contentIdentity (keyOf (pageBase route))

/-- The declarations of the page of a route are followed, from the key of the page on. -/
structure WalksPage (p : Project) (route : String) (met : Option (List String × String)) :
    Prop where
  siblings : ∃ siblings, p.siblings (pageBase route) = .ok siblings
  walks : ∃ m, p.unitManifest (pageBase route) = .ok m ∧
    p.Walks (pageBase route) [keyOf (pageBase route)] m.usingComponents.entries met

/-- The pages are followed in order, and nothing is wrong on the way, until below one of them a key
is met that is on the chain above it. -/
structure MeetsCycle (p : Project) (chain : List String) (key : String) : Prop where
  app : ∃ siblings, p.siblings appBase = .ok siblings
  pages : ∃ m before route after, p.appManifest = .ok m ∧ m.pages = before ++ route :: after ∧
    ((before ++ [route]).map pageIdentity).Nodup ∧
    (∀ earlier ∈ before, p.WalksPage earlier none) ∧ p.WalksPage route (some (chain, key))

/-- The failure that tells a chain and the key that is met again. -/
def cycleFailure {α : Type} (chain : List String) (key : String) : Outcome α :=
  invalidAt key ("component cycle: " ++ " -> ".intercalate (chain ++ [key]))

/-! ### Below a page -/

/-- A graph grows, but what is known of its app stays. -/
structure Keeps (g g' : AssetGraph) : Prop where
  linked : g'.Linked
  size_le : g.size ≤ g'.size
  app : g'.get? 0 = g.get? 0

theorem Keeps.trans {g g' g'' : AssetGraph} (h : Keeps g g') (h' : Keeps g' g'') : Keeps g g'' :=
  ⟨h'.linked, h.size_le.trans h'.size_le, h'.app.trans h.app⟩

theorem keeps_attach {g : AssetGraph} {parent : AssetId} {above : Asset} {kind : AssetKind}
    {identity : String} {path : Path} {siblings : SiblingModules} (hg : g.Linked)
    (habove : g.get? parent = some above) (hkey : above.children.get? identity = none)
    (hparent : parent ≠ 0) : Keeps g (g.attach parent kind identity path siblings) := by
  refine ⟨hg.attach habove hkey, by rw [size_attach]; exact Nat.le_succ _, ?_⟩
  have happ : 0 < g.size := Nat.zero_lt_of_lt (lt_size_of_get? habove)
  have hget : g.get? 0 = some g.nodes[0] := List.getElem?_eq_getElem happ
  rw [hget]
  exact (get?_attach_eq_some_iff habove).2 (.inl ⟨hget, hparent.symm⟩)

/-- A component can always be added below an asset that is not the app. -/
theorem exists_addChild {g : AssetGraph} {parent : AssetId} (hg : g.Linked) (hparent : parent ≠ 0)
    (hlt : parent < g.size) (tag identity : String) (path : Path) (siblings : SiblingModules) :
    ∃ id g', g.addChild parent (.component tag) identity path siblings = .ok (id, g') ∧
      id ≠ 0 ∧ id < g'.size ∧ Keeps g g' := by
  have habove : g.get? parent = some g.nodes[parent] := List.getElem?_eq_getElem hlt
  rcases hkey : g.nodes[parent].children.get? identity with - | id
  · refine ⟨_, _, addChild_eq_attach (by simp) habove hkey, Nat.ne_zero_of_lt hlt, ?_,
      keeps_attach hg habove hkey hparent⟩
    rw [size_attach]
    exact Nat.lt_succ_self _
  · obtain ⟨hid, b, hb, -⟩ := hg.child habove (OrderedMap.mem_values_of_get? hkey)
    exact ⟨id, g, addChild_of_childOf? (Option.bind_eq_some_iff.2 ⟨_, habove, hkey⟩),
      Nat.ne_zero_of_lt hid, lt_size_of_get? hb, hg, Nat.le_refl _, rfl⟩

namespace Call

variable {c : Call} {target : Path} {d : String × String}

theorem enter_of_eq_none (hplace : resolveComponent? c.base d.2 = none) :
    c.enter p d = .ok none := by
  obtain ⟨tag, place⟩ := d
  rw [enter]
  simp only [hplace]

/-- **A key on the stack ends the loading.** -/
theorem enter_of_mem (hplace : resolveComponent? c.base d.2 = some target)
    (hstack : keyOf target ∈ c.stack) : c.enter p d = cycleFailure c.stack (keyOf target) := by
  obtain ⟨tag, place⟩ := d
  rw [enter]
  simp only [hplace]
  rw [if_pos (by simpa using hstack)]
  rfl

/-- A component with modules is entered, if its key is not on the stack. -/
theorem enter_of_not_mem (hplace : resolveComponent? c.base d.2 = some target)
    (hstack : keyOf target ∉ c.stack) {siblings : SiblingModules}
    (hfind : p.siblings target = .ok siblings) (hany : siblings.hasAny) {id : AssetId}
    {g : AssetGraph} (hadd : c.graph.addChild c.parent (.component d.1)
      (contentIdentity (keyOf target)) target siblings = .ok (id, g)) :
    c.enter p d = .ok (some ⟨id, target, c.stack ++ [keyOf target], g⟩) := by
  obtain ⟨tag, place⟩ := d
  rw [enter]
  simp only [hplace]
  rw [if_neg (by simpa using hstack), hfind]
  show ite _ _ _ = _
  rw [if_neg (by simp [hany]), hadd]
  rfl

end Call

/-- How a run over followed declarations ends. -/
def EndsAs (met : Option (List String × String)) (c : Call) (r : Outcome Left) : Prop :=
  match met with
  | none => ∃ g, r = .ok (g, c.stack) ∧ Keeps c.graph g
  | some (chain, key) => r = cycleFailure chain key

theorem EndsAs.of_keeps {met : Option (List String × String)} {c : Call} {g : AssetGraph}
    {r : Outcome Left} (h : EndsAs met { c with graph := g } r) (hkeeps : Keeps c.graph g) :
    EndsAs met c r := by
  rcases met with - | ⟨chain, key⟩
  · obtain ⟨g', hr, hkeeps'⟩ := h
    exact ⟨g', hr, hkeeps.trans hkeeps'⟩
  · exact h

/-- A component that can be read is entered. -/
theorem Readable.exists_enter {m : UnitManifest} {c : Call} {target : Path} {d : String × String}
    (h : p.Readable target m) (hplace : resolveComponent? c.base d.2 = some target)
    (hstack : keyOf target ∉ c.stack) (hg : c.graph.Linked) (hparent : c.parent ≠ 0)
    (hlt : c.parent < c.graph.size) :
    ∃ id g, c.enter p d = .ok (some ⟨id, target, c.stack ++ [keyOf target], g⟩) ∧ id ≠ 0 ∧
      id < g.size ∧ Keeps c.graph g := by
  obtain ⟨siblings, hfind, hany⟩ := h.modules
  obtain ⟨id, g, hadd, hid, hsize, hkeeps⟩ :=
    exists_addChild hg hparent hlt d.1 (contentIdentity (keyOf target)) target siblings
  exact ⟨id, g, Call.enter_of_not_mem hplace hstack hfind hany hadd, hid, hsize, hkeeps⟩

/-- **Loading follows the declarations**, and ends where they do. -/
theorem Walks.exists_runs {base : Path} {chain : List String} {ds : List (String × String)}
    {met : Option (List String × String)} (h : p.Walks base chain ds met) {parent : AssetId}
    {g : AssetGraph} (hg : g.Linked) (hparent : parent ≠ 0) (hlt : parent < g.size) :
    ∃ r calls, p.Runs ⟨parent, base, chain, g⟩ (.loop ds) r calls ∧
      EndsAs met ⟨parent, base, chain, g⟩ r := by
  induction h generalizing parent g with
  | done => exact ⟨_, _, .done, g, rfl, hg, Nat.le_refl _, rfl⟩
  | pass hplace _ ih =>
    obtain ⟨r, calls, hrest, hends⟩ := ih hg hparent hlt
    exact ⟨r, calls, .pass (Call.enter_of_eq_none hplace) hrest, hends⟩
  | meet hplace hchain =>
    exact ⟨_, _, .refuse (Call.enter_of_mem (c := ⟨parent, _, _, g⟩) hplace hchain), rfl⟩
  | inside hplace hchain hread _ ih =>
    obtain ⟨id, g₁, henter, hid, hsize, hkeeps⟩ :=
      hread.exists_enter (c := ⟨parent, _, _, g⟩) hplace hchain hg hparent hlt
    obtain ⟨r, calls, hloop, rfl⟩ := ih hkeeps.linked hid hsize
    exact ⟨_, _, .fail henter (.read hread.manifest hloop), rfl⟩
  | next hplace hchain hread _ _ ihinside ih =>
    obtain ⟨id, g₁, henter, hid, hsize, hkeeps⟩ :=
      hread.exists_enter (c := ⟨parent, _, _, g⟩) hplace hchain hg hparent hlt
    obtain ⟨r, calls, hloop, g₂, rfl, hkeeps'⟩ := ihinside hkeeps.linked hid hsize
    have hall : Keeps g g₂ := hkeeps.trans hkeeps'
    have hinner := Runs.read (c := ⟨id, _, _, g₁⟩) hread.manifest hloop
    obtain ⟨r, later, hrest, hends⟩ := ih hall.linked hparent (hlt.trans_le hall.size_le)
    refine ⟨r, _, .back henter hinner (by rwa [Runs.resume_eq henter hinner]), ?_⟩
    exact hends.of_keeps (c := ⟨parent, _, _, g⟩) hall

/-- Everything below an asset is loaded as far as the declarations are followed. -/
theorem Walks.exists_loadComponents_eq {base : Path} {chain : List String} {m : UnitManifest}
    {met : Option (List String × String)} (hm : p.unitManifest base = .ok m)
    (h : p.Walks base chain m.usingComponents.entries met) {parent : AssetId} {g : AssetGraph}
    (hg : g.Linked) (hparent : parent ≠ 0) (hlt : parent < g.size) :
    ∃ r, p.loadComponents depthBound parent base chain g = r.map Prod.fst ∧
      EndsAs met ⟨parent, base, chain, g⟩ r := by
  obtain ⟨r, calls, hloop, hends⟩ := h.exists_runs hg hparent hlt
  have hrun : p.Runs ⟨parent, base, chain, g⟩ .start r _ := .read hm hloop
  exact ⟨r, hrun.loadComponents_eq, hends⟩

/-! ### Pages -/

/-- The graph with the page of a route below its app. -/
def withPage (g : AssetGraph) (route : String) (siblings : SiblingModules) : AssetGraph :=
  g.attach 0 (.page route) (pageIdentity route) (pageBase route) siblings

/-- A page that is new below the app is added, and then loading ends as the declarations below the
page do. -/
theorem WalksPage.exists_loadPage_eq {route : String} {met : Option (List String × String)}
    (h : p.WalksPage route met) {g : AssetGraph} {app : Asset} (hg : g.Linked)
    (happ : g.get? 0 = some app) (hnew : app.children.get? (pageIdentity route) = none) :
    ∃ siblings r, p.loadPage 0 g route = r.map Prod.fst ∧
      EndsAs met ⟨g.size, pageBase route, [keyOf (pageBase route)], withPage g route siblings⟩ r := by
  obtain ⟨siblings, hsiblings⟩ := h.siblings
  obtain ⟨m, hm, hwalks⟩ := h.walks
  have hadd : g.addChild 0 (.page route) (pageIdentity route) (pageBase route) siblings =
      .ok (g.size, withPage g route siblings) :=
    addChild_eq_attach (by simp) happ hnew
  have hlinked : (withPage g route siblings).Linked := hg.attach happ hnew
  have hlt : g.size < (withPage g route siblings).size := by
    rw [withPage, size_attach]
    exact Nat.lt_succ_self _
  obtain ⟨r, hr, hends⟩ :=
    hwalks.exists_loadComponents_eq hm hlinked (Nat.ne_zero_of_lt (lt_size_of_get? happ)) hlt
  refine ⟨siblings, r, ?_, hends⟩
  rw [← hr, loadPage, hsiblings]
  generalize p.loadComponents depthBound = descend
  show (g.addChild 0 (.page route) (pageIdentity route) (pageBase route) siblings >>= _) = _
  rw [hadd]
  rfl

/-- The identities of the pages that are loaded stand below the app. -/
theorem identities_of_keeps {route : String} {g g' : AssetGraph} {app : Asset}
    {siblings : SiblingModules} (happ : g.get? 0 = some app)
    (hnew : app.children.get? (pageIdentity route) = none)
    (hkeeps : Keeps (withPage g route siblings) g') :
    ∃ app', g'.get? 0 = some app' ∧ app'.children.entries.map Prod.fst =
      app.children.entries.map Prod.fst ++ [pageIdentity route] := by
  refine ⟨_, hkeeps.app.trans ((get?_attach_eq_some_iff happ).2 (.inr (.inl ⟨rfl, rfl⟩))), ?_⟩
  have hentries := insertEntry_of_not_mem g.size (OrderedMap.get?_eq_none_iff.1 hnew)
  exact (congrArg (List.map Prod.fst) hentries).trans (List.map_append)

/-- **Pages below which nothing is wrong** are loaded one after the other, if their identities are
new. -/
theorem exists_foldlM_loadPage_eq {routes : List String}
    (h : ∀ route ∈ routes, p.WalksPage route none)
    {g : AssetGraph} {app : Asset} (hg : g.Linked) (happ : g.get? 0 = some app)
    (hnodup : (app.children.entries.map Prod.fst ++ routes.map pageIdentity).Nodup) :
    ∃ g' app', routes.foldlM (p.loadPage 0) g = .ok g' ∧ g'.Linked ∧ g'.get? 0 = some app' ∧
      app'.children.entries.map Prod.fst =
        app.children.entries.map Prod.fst ++ routes.map pageIdentity := by
  induction routes generalizing g app with
  | nil => exact ⟨g, app, rfl, hg, happ, (List.append_nil _).symm⟩
  | cons route routes ih =>
    obtain ⟨hroute, hroutes⟩ := List.forall_mem_cons.1 h
    have hnew : app.children.get? (pageIdentity route) = none :=
      OrderedMap.get?_eq_none_iff.2 fun hmem ↦
        List.disjoint_of_nodup_append hnodup hmem List.mem_cons_self
    obtain ⟨siblings, r, hload, g₁, rfl, hkeeps⟩ := hroute.exists_loadPage_eq hg happ hnew
    obtain ⟨app₁, happ₁, hentries⟩ := identities_of_keeps happ hnew hkeeps
    rw [List.map_cons, List.append_cons, ← hentries] at hnodup ⊢
    obtain ⟨g', app', hrest, hg', happ', hentries'⟩ := ih hroutes hkeeps.linked happ₁ hnodup
    refine ⟨g', app', ?_, hg', happ', hentries'⟩
    rw [List.foldlM_cons, hload]
    exact hrest

theorem exists_get?_appAlone (siblings : SiblingModules) :
    ∃ app, (appAlone siblings).get? 0 = some app ∧ app.children.entries = [] :=
  ⟨_, rfl, rfl⟩

/-- Loading is loading the pages, once the app has been read. -/
theorem load_eq_foldlM {m : AppManifest} {siblings : SiblingModules} (hm : p.appManifest = .ok m)
    (hsiblings : p.siblings appBase = .ok siblings) :
    p.load = m.pages.foldlM (p.loadPage 0) (appAlone siblings) := by
  rw [load, hm, Outcome.ok_bind, hsiblings, Outcome.ok_bind, addApp_eq_withApp rfl, Outcome.ok_bind]
  rfl

/-- **A component that is declared below itself ends the loading**, and the failure tells its
chain. -/
theorem MeetsCycle.load_eq {chain : List String} {key : String} (h : p.MeetsCycle chain key) :
    p.load = cycleFailure chain key := by
  obtain ⟨siblings, hsiblings⟩ := h.app
  obtain ⟨m, before, route, after, hm, hpages, hnodup, hbefore, hroute⟩ := h.pages
  obtain ⟨app, happ, hchildren⟩ := exists_get?_appAlone siblings
  have hlinked : (appAlone siblings).Linked := Linked.empty.addApp (addApp_eq_withApp rfl)
  rw [List.map_append] at hnodup
  obtain ⟨g, app', hload, hg, happ', hentries⟩ :=
    exists_foldlM_loadPage_eq hbefore hlinked happ (by
      rw [hchildren]
      exact List.Nodup.of_append_left hnodup)
  rw [hchildren] at hentries
  have hnew : app'.children.get? (pageIdentity route) = none := by
    rw [OrderedMap.get?_eq_none_iff, hentries]
    exact fun hmem ↦ List.disjoint_of_nodup_append hnodup hmem List.mem_cons_self
  obtain ⟨siblings', r, hpage, rfl⟩ := hroute.exists_loadPage_eq hg happ' hnew
  rw [load_eq_foldlM hm hsiblings, hpages, List.foldlM_append, hload, Outcome.ok_bind,
    List.foldlM_cons, hpage]
  rfl

/-! ### Loading and cycles -/

/-- **Loading ends**, with different keys on the stack at every call and the stack as it was after
it; no way down from a page meets an identity twice; and a component that is declared below itself
ends the loading with the failure that tells so. -/
theorem load_cycles (p : Project) :
    (∀ c, ∃ r calls, p.Runs c .start r calls) ∧
    (∀ c r calls, p.Runs c .start r calls →
      r = (p.loadComponents depthBound c.parent c.base c.stack c.graph).map
        (fun g ↦ (g, c.stack)) ∧
      (c.stack.Nodup → c.stack.getLast? = some (keyOf c.base) → ∀ later ∈ calls,
        c.stack <+: later.stack ∧ later.stack.Nodup ∧
          later.stack.getLast? = some (keyOf later.base))) ∧
    (Set.InjOn contentIdentity p.keys → ∀ g, p.load = .ok g → ∀ page below, page.IsPage →
      LeadsDown g (page :: below) → ((page :: below).map Asset.identity).Nodup) ∧
    ∀ chain key, p.MeetsCycle chain key →
      p.load = invalidAt key ("component cycle: " ++ " -> ".intercalate (chain ++ [key])) :=
  ⟨p.exists_runs, fun _ _ _ h ↦ ⟨h.eq_map_loadComponents, h.calls_stack⟩,
    fun hinj _ h _ _ ↦ nodup_of_leadsDown hinj h, fun _ _ h ↦ h.load_eq⟩

theorem exists_readable (p : Project) (base : Path) (entries : List (String × String))
    (hsiblings : (p.siblings base).map SiblingModules.hasAny = .ok true)
    (hm : (p.unitManifest base).map (fun m ↦ m.usingComponents.entries) = .ok entries) :
    ∃ m, p.Readable base m ∧ m.usingComponents.entries = entries := by
  obtain ⟨siblings, hfind, hany⟩ := Outcome.map_eq_ok.1 hsiblings
  obtain ⟨m, hm, hentries⟩ := Outcome.map_eq_ok.1 hm
  exact ⟨m, ⟨⟨siblings, hfind, hany⟩, hm⟩, hentries⟩

/-- A page with a lamp, a knob in the lamp, and the lamp in the knob, by another place. -/
def ring : Project where
  root := ⟨""⟩
  extensions := .standard
  files := ⟨[(["app.json"], .file (.text "\x7b\"pages\": [\"room\"]\x7d")),
    (["room.json"], .file (.text "\x7b\"usingComponents\": \x7b\"lamp\": \"lamp\"\x7d\x7d")),
    (["room.wxml"], .file (.text "<lamp/>")),
    (["lamp.json"], .file (.text "\x7b\"usingComponents\": \x7b\"knob\": \"/knob\"\x7d\x7d")),
    (["lamp.wxml"], .file (.text "<knob/>")),
    (["knob.json"], .file (.text "\x7b\"usingComponents\": \x7b\"light\": \"./lamp\"\x7d\x7d")),
    (["knob.wxml"], .file (.text "<light/>"))], []⟩

theorem meetsCycle_ring : ring.MeetsCycle ["room", "lamp", "knob"] "lamp" := by
  obtain ⟨room, hroom, hrooms⟩ := exists_readable ring ⟨"room"⟩ [("lamp", "lamp")]
    (by decide +kernel) (by decide +kernel)
  obtain ⟨lamp, hlamp, hlamps⟩ := exists_readable ring ⟨"lamp"⟩ [("knob", "/knob")]
    (by decide +kernel) (by decide +kernel)
  obtain ⟨knob, hknob, hknobs⟩ := exists_readable ring ⟨"knob"⟩ [("light", "./lamp")]
    (by decide +kernel) (by decide +kernel)
  have hinRoom : resolveComponent? ⟨"room"⟩ "lamp" = some ⟨"lamp"⟩ := by decide +kernel
  have hinLamp : resolveComponent? ⟨"lamp"⟩ "/knob" = some ⟨"knob"⟩ := by decide +kernel
  have hinKnob : resolveComponent? ⟨"knob"⟩ "./lamp" = some ⟨"lamp"⟩ := by decide +kernel
  have hwalks : ring.Walks ⟨"room"⟩ ["room"] [("lamp", "lamp")]
      (some (["room", "lamp", "knob"], "lamp")) := by
    refine .inside hinRoom (by decide +kernel) hlamp ?_
    rw [hlamps]
    refine .inside hinLamp (by decide +kernel) hknob ?_
    rw [hknobs]
    exact .meet (d := ("light", "./lamp")) hinKnob (by decide +kernel)
  have hbase : pageBase "room" = ⟨"room"⟩ := by decide +kernel
  have hkey : keyOf ⟨"room"⟩ = "room" := by decide +kernel
  have hpage : ring.WalksPage "room" (some (["room", "lamp", "knob"], "lamp")) := by
    obtain ⟨siblings, hsiblings, -⟩ := hroom.modules
    refine ⟨⟨siblings, hbase ▸ hsiblings⟩, room, hbase ▸ hroom.manifest, ?_⟩
    rwa [hbase, hkey, hrooms]
  have happ : (ring.siblings appBase).map SiblingModules.hasAny = .ok false := by decide +kernel
  have hpages : ring.appManifest.map AppManifest.pages = .ok ["room"] := by decide +kernel
  obtain ⟨siblings, hsiblings, -⟩ := Outcome.map_eq_ok.1 happ
  obtain ⟨m, hm, hpages⟩ := Outcome.map_eq_ok.1 hpages
  exact ⟨⟨siblings, hsiblings⟩, m, [], "room", [], hm, hpages, List.nodup_singleton _,
    fun _ h ↦ absurd h List.not_mem_nil, hpage⟩

/-- The ring cannot be loaded; the page with the boxed card can, and there the card in the box in
the page is a way down. -/
theorem load_cycles_ring :
    ring.MeetsCycle ["room", "lamp", "knob"] "lamp" ∧
    ring.load = invalidAt "lamp" "component cycle: room -> lamp -> knob -> lamp" ∧
    (∃ r calls, ring.Runs ⟨1, ⟨"room"⟩, ["room"], .empty⟩ .start r calls ∧
      r = (ring.loadComponents depthBound 1 ⟨"room"⟩ ["room"] .empty).map (fun g ↦ (g, ["room"])) ∧
      ∀ later ∈ calls, later.stack.Nodup) ∧
    ∃ g page box card, boxedCard.load = .ok g ∧ Set.InjOn contentIdentity boxedCard.keys ∧
      page.IsPage ∧ LeadsDown g [page, box, card] ∧
      [page.identity, box.identity, card.identity].Nodup := by
  obtain ⟨hruns, hends, -, hcycle⟩ := load_cycles ring
  obtain ⟨-, -, hnodup, -⟩ := load_cycles boxedCard
  obtain ⟨r, calls, hrun⟩ := hruns ⟨1, ⟨"room"⟩, ["room"], .empty⟩
  obtain ⟨hr, hcalls⟩ := hends _ _ _ hrun
  have hkey : keyOf ⟨"room"⟩ = "room" := by decide +kernel
  have hload := hcycle _ _ meetsCycle_ring
  have htext : "component cycle: " ++ " -> ".intercalate (["room", "lamp", "knob"] ++ ["lamp"]) =
      "component cycle: room -> lamp -> knob -> lamp" := by decide +kernel
  rw [htext] at hload
  have hall : (boxedCard.load.map fun g ↦ [1, 2, 3].map fun id ↦
      (g.get? id).map fun a ↦ (a.id, a.kind, a.children.values)) =
      .ok [some (1, .page "shelf", [2, 4]), some (2, .component "box", [3]),
        some (3, .component "lid", [])] := by decide +kernel
  obtain ⟨g, hg, hall⟩ := Outcome.map_eq_ok.1 hall
  simp only [List.map_cons, List.map_nil, Prod.mk.injEq, List.cons.injEq, and_true,
    Option.map_eq_some_iff] at hall
  obtain ⟨⟨page, hpage, hpageId, hkind, hpages⟩, ⟨box, hbox, hboxId, -, hboxes⟩,
    card, hcard, hcardId, -⟩ := hall
  have hdown : LeadsDown g [page, box, card] := by
    refine ⟨?_, ?_⟩
    · simp only [List.mem_cons, List.not_mem_nil, or_false]
      rintro a (rfl | rfl | rfl)
      · rwa [hpageId]
      · rwa [hboxId]
      · rwa [hcardId]
    · simp [hpages, hboxes, hboxId, hcardId]
  refine ⟨meetsCycle_ring, hload, ⟨r, calls, hrun, hr, fun later hlater ↦ ?_⟩, g, page, box, card,
    hg, injOn_boxedCard, ⟨_, hkind⟩, hdown,
    hnodup injOn_boxedCard g hg page [box, card] ⟨_, hkind⟩ hdown⟩
  exact (hcalls (List.nodup_singleton _) (congrArg some hkey.symm) later hlater).2.1

end Project

end AppletBundle
