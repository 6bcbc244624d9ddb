import AppletBundle.Proofs.Asset.Admission
import AppletBundle.Proofs.Ordered.Map
import AppletBundle.Proofs.Project.Replicas

/-!
# Validating the graph of a project

Loading puts pages below the app and components below pages and components, and it refuses a page
whose identity another page has already. So two things are left that validation can find: a page
without markup, and a page with the identity of the app.

* `Staged` is what loading keeps. A component that is found among the children of its parent is not
  added again, and it is no app either: `ne_zero_of_addChild` carries that down into the recursion.
* `checkAll_eq_error` and `checkIdentity_eq_error` say what a failure of validation is about.

The main result is `load_validates_exactly`.
-/

namespace AppletBundle

/-- The failure of a page that has no markup. -/
def Asset.missingMarkup (page : Asset) : Failure :=
  .ofCause (.invalidTree page.identity ("page " ++ page.path.text ++ " has no markup module"))

/-- The failure of a bundle with the identity of one before it. -/
def Asset.sharedIdentity (bundle before : Asset) : Failure :=
  .ofCause (.invalidTree bundle.identity
    ("duplicate bundle identity shared by " ++ before.path.text ++ " and " ++ bundle.path.text))

namespace AssetGraph

/-! ### Failures of validation -/

variable {g : AssetGraph} {f : Failure}

/-- Validation fails at an asset that is out of place or has an identity a second time. -/
theorem checkAll_eq_error {root : AssetId} {before as : List Asset}
    (h : g.checkAll root before as = .error f) :
    ∃ pre a post, as = pre ++ a :: post ∧
      (g.checkPlace root a = .error f ∨ checkIdentity (before ++ pre) a = .error f) := by
  induction as generalizing before with
  | nil => cases h
  | cons a as ih =>
    rw [checkAll] at h
    rcases hplace : g.checkPlace root a with e | u
    · rw [hplace] at h
      exact ⟨[], a, as, rfl, .inl (hplace.trans h)⟩
    rcases hidentity : checkIdentity before a with e | u
    · rw [hplace, hidentity] at h
      exact ⟨[], a, as, rfl, .inr (by rw [List.append_nil, hidentity]; exact h)⟩
    · rw [hplace, hidentity] at h
      obtain ⟨pre, b, post, rfl, hb⟩ := ih h
      rw [List.append_assoc] at hb
      exact ⟨a :: pre, b, post, rfl, hb⟩

theorem checkIdentity_eq_error {before : List Asset} {a : Asset}
    (h : checkIdentity before a = .error f) :
    a.kind.isBundle ∧ ∃ b ∈ before, b.kind.isBundle ∧ b.identity = a.identity ∧
      f = a.sharedIdentity b := by
  rw [checkIdentity] at h
  by_cases hbundle : a.kind.isBundle
  · rw [if_pos hbundle] at h
    rcases hfind : before.find? fun b ↦ b.kind.isBundle && b.identity == a.identity with - | b
    · rw [hfind] at h
      cases h
    · have hb := List.find?_some hfind
      rw [Bool.and_eq_true, beq_iff_eq] at hb
      rw [hfind] at h
      exact ⟨hbundle, b, List.mem_of_find?_eq_some hfind, hb.1, hb.2, (Except.error.inj h).symm⟩
  · rw [if_neg hbundle] at h
    cases h

/-- What is added below an asset is not the first asset. -/
theorem IsTree.ne_zero_of_addChild (hg : g.IsTree) {g' : AssetGraph} {parent id : AssetId}
    {kind : AssetKind} {identity : String} {path : Path} {siblings : SiblingModules}
    (h : g.addChild parent kind identity path siblings = .ok (id, g')) : id ≠ 0 := by
  rw [AssetGraph.addChild] at h
  split at h
  · cases h
  split at h
  · cases h
  rename_i above habove
  split at h
  · split at h
    · cases h
    rename_i hkey _
    cases h
    obtain ⟨l₁, l₂, hentries, -⟩ := List.lookup_eq_some_iff.1 hkey
    have hmem : (identity, id) ∈ g.entriesUnder parent := by
      rw [← hg.children habove, hentries]
      exact List.mem_append_right _ List.mem_cons_self
    obtain ⟨b, hb, hparent, -⟩ := mem_entriesUnder_iff.1 hmem
    exact Nat.ne_zero_of_lt (hg.parent_lt hb hparent)
  · cases h
    exact Nat.ne_zero_of_lt (lt_size_of_get? habove)

end AssetGraph

namespace Project

open AssetGraph

variable {p : Project} {g : AssetGraph}

/-! ### What loading keeps -/

/-- The graph is a tree below the app of the project, with pages below the app and components below
other assets, and the pages have the bases of their routes. -/
structure Staged (g : AssetGraph) : Prop where
  isTree : g.IsTree
  app : ∃ app, g.get? 0 = some app ∧ app.identity = contentIdentity appBase.text ∧
    app.path = appBase
  page : ∀ {i a route}, g.get? i = some a → a.kind = .page route → a.parent = some 0 ∧
    a.path = pageBase route ∧ a.identity = contentIdentity (keyOf a.path)
  component : ∀ {i a q}, g.get? i = some a → a.IsComponent → a.parent = some q → q ≠ 0

namespace Staged

theorem appAlone (siblings : SiblingModules) : Staged (appAlone siblings) where
  isTree := IsTree.empty.withApp rfl _ _ _
  app := ⟨_, get?_push_eq_some_iff.2 (.inr ⟨rfl, rfl⟩), rfl, rfl⟩
  page ha hk := by
    rcases get?_push_eq_some_iff.1 ha with ha | ⟨-, rfl⟩
    · cases ha
    · cases hk
  component ha hk := by
    rcases get?_push_eq_some_iff.1 ha with ha | ⟨-, rfl⟩
    · cases ha
    · obtain ⟨tag, hk⟩ := hk
      cases hk

/-- What is added where its kind belongs keeps the graph in order. -/
theorem addChild {g' : AssetGraph} {parent id : AssetId} {kind : AssetKind} {identity : String}
    {path : Path} {siblings : SiblingModules} (hg : Staged g)
    (hpage : ∀ route, kind = .page route →
      parent = 0 ∧ path = pageBase route ∧ identity = contentIdentity (keyOf path))
    (hcomponent : ∀ tag, kind = .component tag → parent ≠ 0)
    (h : g.addChild parent kind identity path siblings = .ok (id, g')) : Staged g' := by
  have hkind : kind ≠ .app := by
    rintro rfl
    cases h
  rcases addChild_eq_ok h with rfl | ⟨above, habove, hkey, rfl⟩
  · exact hg
  have hcases := @get?_attach_eq_some_iff g parent above kind identity path siblings habove
  refine ⟨hg.isTree.attach hkind habove hkey, ?_, fun ha hk ↦ ?_, fun ha hk hq ↦ ?_⟩
  · obtain ⟨app, happ, hidentity, hpath⟩ := hg.app
    by_cases hzero : 0 = parent
    · subst hzero
      obtain rfl := Option.some.inj (happ.symm.trans habove)
      exact ⟨_, hcases.2 (.inr (.inl ⟨rfl, rfl⟩)), hidentity, hpath⟩
    · exact ⟨app, hcases.2 (.inl ⟨happ, hzero⟩), hidentity, hpath⟩
  · rcases hcases.1 ha with ⟨ha, -⟩ | ⟨rfl, rfl⟩ | ⟨rfl, rfl⟩
    · exact hg.page ha hk
    · exact hg.page (a := above) habove hk
    · obtain ⟨rfl, hpath, hidentity⟩ := hpage _ hk
      exact ⟨rfl, hpath, hidentity⟩
  · rcases hcases.1 ha with ⟨ha, -⟩ | ⟨rfl, rfl⟩ | ⟨rfl, rfl⟩
    · exact hg.component ha hk hq
    · exact hg.component (a := above) habove hk hq
    · obtain ⟨tag, hk⟩ := hk
      cases hq
      exact hcomponent tag hk

end Staged

theorem staged_of_load (h : p.load = .ok g) : Staged g := by
  refine load_induction (Q := fun id ↦ id ≠ 0) (fun hg hparent hadd ↦ ⟨?_, ?_⟩) Staged.appAlone
    (fun hg hadd ↦ ⟨?_, ?_⟩) h
  · exact hg.addChild (fun route hk ↦ by cases hk) (fun _ _ ↦ hparent) hadd
  · exact hg.isTree.ne_zero_of_addChild hadd
  · exact hg.addChild (fun route hk ↦ by cases hk; exact ⟨rfl, rfl, rfl⟩)
      (fun tag hk ↦ by cases hk) hadd
  · exact hg.isTree.ne_zero_of_addChild hadd

/-! ### What validation can find -/

namespace Staged

/-- No two pages have the same identity. -/
theorem page_unique (hg : Staged g) {i j : AssetId} {a b : Asset} (ha : g.get? i = some a)
    (hb : g.get? j = some b) (hka : a.IsPage) (hkb : b.IsPage) (hid : a.identity = b.identity) :
    i = j := by
  obtain ⟨app, happ, -⟩ := hg.app
  obtain ⟨route, hka⟩ := hka
  obtain ⟨route', hkb⟩ := hkb
  have hi : (b.identity, i) ∈ app.children.entries :=
    hg.isTree.children happ ▸ mem_entriesUnder_iff.2 ⟨a, ha, (hg.page ha hka).1, hid⟩
  have hj : (b.identity, j) ∈ app.children.entries :=
    hg.isTree.children happ ▸ mem_entriesUnder_iff.2 ⟨b, hb, (hg.page hb hkb).1, rfl⟩
  have hlookup := OrderedMap.lookup_eq_some_of_mem app.children.nodup hi
  rw [OrderedMap.lookup_eq_some_of_mem app.children.nodup hj] at hlookup
  exact (Option.some.inj hlookup).symm

/-- All assets are in their places. -/
theorem checkPlace_eq_ok (hg : Staged g) {i : AssetId} {a : Asset} (ha : g.get? i = some a)
    (hmarkup : a.IsPage → a.siblings.markup.isSome) : g.checkPlace 0 a = .ok () := by
  obtain ⟨app, happ, -⟩ := hg.app
  rcases hk : a.kind with - | route | tag
  · obtain rfl := (hg.isTree.app_iff ha).1 hk
    exact checkPlace_of_app hk ((hg.isTree.parent_none_iff ha).2 rfl) (hg.isTree.id_eq ha)
  · have happ' : app.kind = .app := (hg.isTree.app_iff happ).2 rfl
    exact (checkPlace_page_iff ⟨route, hk⟩).2
      ⟨⟨0, app, (hg.page ha hk).1, happ, happ'⟩, hmarkup ⟨route, hk⟩⟩
  · have hi : i ≠ 0 := by
      rintro rfl
      cases hk.symm.trans ((hg.isTree.app_iff ha).2 rfl)
    obtain ⟨q, hq⟩ := Option.ne_none_iff_exists'.1 fun h ↦ hi ((hg.isTree.parent_none_iff ha).1 h)
    obtain ⟨above, habove⟩ :=
      exists_get?_of_lt (Nat.lt_trans (hg.isTree.parent_lt ha hq) (lt_size_of_get? ha))
    refine (checkPlace_component_iff ⟨tag, hk⟩).2 ⟨q, above, hq, habove, ?_⟩
    rcases hka : above.kind with - | route | tag'
    · exact absurd ((hg.isTree.app_iff habove).1 hka) (hg.component ha ⟨tag, hk⟩ hq)
    · exact .inl ⟨route, hka⟩
    · exact .inr ⟨tag', hka⟩

/-- A page that is in its place fails for want of markup. -/
theorem checkPlace_eq_error (hg : Staged g) {i : AssetId} {a : Asset} {f : Failure}
    (ha : g.get? i = some a) (h : g.checkPlace 0 a = .error f) :
    a.IsPage ∧ a.siblings.markup = none ∧ f = a.missingMarkup := by
  obtain ⟨hpage, hmarkup⟩ : a.IsPage ∧ a.siblings.markup = none := by
    by_contra hnot
    rw [hg.checkPlace_eq_ok ha fun hpage ↦ Option.isSome_iff_ne_none.2 fun hnone ↦
      hnot ⟨hpage, hnone⟩] at h
    cases h
  refine ⟨hpage, hmarkup, ?_⟩
  obtain ⟨app, happ, -⟩ := hg.app
  obtain ⟨route, hk⟩ := hpage
  have happ' : app.kind = .app := (hg.isTree.app_iff happ).2 rfl
  have hparent : g.parentKind? a = some .app :=
    parentKind?_eq_some_iff.2 ⟨0, app, (hg.page ha hk).1, happ, happ'⟩
  rw [checkPlace, hk, hparent] at h
  simp only [hmarkup] at h
  exact (Except.error.inj h).symm

/-- An identity that is there a second time is that of the app, at a page. -/
theorem checkIdentity_eq_error (hg : Staged g) {pre post : List Asset} {a : Asset} {f : Failure}
    (hnodes : g.nodes = pre ++ a :: post) (h : checkIdentity pre a = .error f) :
    a.IsPage ∧ ∃ app, g.get? 0 = some app ∧ a.identity = app.identity ∧
      f = a.sharedIdentity app := by
  obtain ⟨hbundle, b, hb, hbundle', hid, hf⟩ := AssetGraph.checkIdentity_eq_error h
  obtain ⟨k, hk⟩ := List.mem_iff_getElem?.1 hb
  have hlt : k < pre.length := (List.getElem?_eq_some_iff.1 hk).1
  have hget : g.get? pre.length = some a := by
    rw [get?, hnodes, List.getElem?_append_right (le_refl _), Nat.sub_self]
    rfl
  have hget' : g.get? k = some b := by
    rw [get?, hnodes, List.getElem?_append_left hlt, hk]
  -- The app comes first, so it is not the second of the two.
  have hpage : a.IsPage := by
    rcases hka : a.kind with - | route | tag
    · exact absurd ((hg.isTree.app_iff hget).1 hka) (Nat.ne_zero_of_lt hlt)
    · exact ⟨route, hka⟩
    · rw [hka] at hbundle
      cases hbundle
  refine ⟨hpage, b, ?_, hid.symm, hf⟩
  rcases hkb : b.kind with - | route | tag
  · exact (hg.isTree.app_iff hget').1 hkb ▸ hget'
  · exact absurd (hg.page_unique hget' hget ⟨route, hkb⟩ hpage hid) (Nat.ne_of_lt hlt)
  · rw [hkb] at hbundle'
    cases hbundle'

/-- **Validation fails for two reasons only**: a page without markup, and a page with the identity
of the app. -/
theorem validate_eq_error (hg : Staged g) {f : Failure} (h : g.validate = .error f) :
    ∃ page ∈ g.nodes, page.IsPage ∧
      (page.siblings.markup = none ∧ f = page.missingMarkup ∨
        ∃ app, g.get? 0 = some app ∧ page.identity = app.identity ∧
          f = page.sharedIdentity app) := by
  obtain ⟨app, happ, -⟩ := hg.app
  have hroot : g.root = some 0 := by
    rw [hg.isTree.root_eq, if_neg (Nat.ne_zero_of_lt (lt_size_of_get? happ))]
  rw [validate, hroot] at h
  obtain ⟨pre, a, post, hnodes, hplace | hidentity⟩ := checkAll_eq_error h
  all_goals
    have hmem : a ∈ g.nodes := hnodes ▸ List.mem_append_right _ List.mem_cons_self
  · obtain ⟨i, hi⟩ := List.mem_iff_getElem?.1 hmem
    obtain ⟨hpage, hmarkup⟩ := hg.checkPlace_eq_error hi hplace
    exact ⟨a, hmem, hpage, .inl hmarkup⟩
  · obtain ⟨hpage, hshared⟩ := hg.checkIdentity_eq_error hnodes hidentity
    exact ⟨a, hmem, hpage, .inr hshared⟩

/-- Where validation succeeds, no page has the identity of the app. -/
theorem identity_ne_of_validate (hg : Staged g) (hv : g.validate = .ok ()) {page app : Asset}
    (hmem : page ∈ g.nodes) (hpage : page.IsPage) (happ : g.get? 0 = some app) :
    page.identity ≠ app.identity := by
  have hkind : app.kind = .app := (hg.isTree.app_iff happ).2 rfl
  obtain ⟨route, hk⟩ := hpage
  have hne : app ≠ page := by
    rintro rfl
    cases hkind.symm.trans hk
  have hpair : [app, page].Nodup := List.nodup_cons.2
    ⟨fun h ↦ hne (List.mem_singleton.1 h), List.nodup_singleton page⟩
  have hnodup := nodup_map_identity hpair (fun a ha ↦ ?_) hv
  · exact fun heq ↦ (List.nodup_cons.1 hnodup).1 (List.mem_singleton.2 heq.symm)
  · rcases List.mem_cons.1 ha with rfl | ha
    · exact ⟨List.mem_of_getElem? happ, by rw [hkind]; rfl⟩
    · obtain rfl := List.mem_singleton.1 ha
      exact ⟨hmem, by rw [hk]; rfl⟩

end Staged

/-- The base of a page is the base of the app if it has the key of the app. -/
theorem keyOf_pageBase_eq_iff (route : String) :
    keyOf (pageBase route) = appBase.text ↔ pageBase route = appBase := by
  have hnormal : appBase.normalize = appBase := by decide +kernel
  rw [← keyOf_appBase, ← hnormal]
  exact ⟨Path.projectKey_injective, congrArg keyOf⟩

/-- **A project that is loaded fails validation for two reasons only.** It passes exactly if every
page has markup and no page has the identity of the app; where it fails, one of the two is the
reason, so no asset is out of place, and no two pages have the same identity. The identity of a page
is that of its key, and this is the key of the app only if the page has the base of the app. -/
theorem load_validates_exactly (p : Project) {g : AssetGraph} (h : p.load = .ok g) :
    (g.validate = .ok () ↔ (∀ page ∈ g.nodes, page.IsPage → page.siblings.markup.isSome) ∧
      ∀ page ∈ g.nodes, page.IsPage → page.identity ≠ contentIdentity appBase.text) ∧
    (∀ f, g.validate = .error f → ∃ page ∈ g.nodes, page.IsPage ∧
      (page.siblings.markup = none ∧ f = page.missingMarkup ∨
        ∃ app, g.get? 0 = some app ∧ app.kind = .app ∧ app.identity = contentIdentity appBase.text ∧
          page.identity = app.identity ∧ f = page.sharedIdentity app)) ∧
    ∀ page ∈ g.nodes, ∀ route, page.kind = .page route → page.path = pageBase route ∧
      page.identity = contentIdentity (keyOf page.path) ∧
      (keyOf page.path = appBase.text ↔ page.path = appBase) := by
  have hg := staged_of_load h
  obtain ⟨app, happ, hidentity, -⟩ := hg.app
  have hkind : app.kind = .app := (hg.isTree.app_iff happ).2 rfl
  refine ⟨⟨fun hv ↦ ⟨fun page hmem hpage ↦ ?_, fun page hmem hpage ↦ ?_⟩, ?_⟩, fun f hf ↦ ?_, ?_⟩
  · exact ((hg.isTree.validate_eq_ok_iff.1 hv).pages page hmem hpage).2
  · exact hidentity ▸ hg.identity_ne_of_validate hv hmem hpage happ
  · rintro ⟨hmarkup, hidentities⟩
    rcases hv : g.validate with f | u
    · obtain ⟨page, hmem, hpage, ⟨hnone, -⟩ | ⟨app', happ', hshared, -⟩⟩ :=
        hg.validate_eq_error hv
      · have hsome := hmarkup page hmem hpage
        rw [hnone] at hsome
        cases hsome
      · obtain rfl := Option.some.inj (happ.symm.trans happ')
        exact absurd (hshared.trans hidentity) (hidentities page hmem hpage)
    · rfl
  · obtain ⟨page, hmem, hpage, hreason⟩ := hg.validate_eq_error hf
    refine ⟨page, hmem, hpage, hreason.imp_right ?_⟩
    rintro ⟨app', happ', hshared⟩
    obtain rfl := Option.some.inj (happ.symm.trans happ')
    exact ⟨app, happ, hkind, hidentity, hshared⟩
  · intro page hmem route hk
    obtain ⟨i, hi⟩ := List.mem_iff_getElem?.1 hmem
    obtain ⟨-, hpath, hid⟩ := hg.page hi hk
    exact ⟨hpath, hid, hpath ▸ keyOf_pageBase_eq_iff route⟩

/-- A project with a page at the base of the app, and another page. -/
def twoApps : Project where
  root := ⟨""⟩
  extensions := .standard
  files := ⟨[(["app.json"], .file (.text "\x7b\"pages\": [\"shelf\", \"/shelf/../app\"]\x7d")),
    (["app.wxml"], .file (.text "<card/>")), (["shelf.wxml"], .file (.text "<card/>"))], []⟩

theorem load_validates_exactly_twoApps : ∃ g page app f, twoApps.load = .ok g ∧
    g.get? 2 = some page ∧ page.path = appBase ∧ page.siblings.markup.isSome ∧
    g.get? 0 = some app ∧ g.validate = .error f ∧
    ∃ bundle, f = Asset.sharedIdentity bundle app := by
  have hall : (twoApps.load.map fun g ↦ ((g.get? 2).map Asset.kind,
      g.nodes.all fun a ↦ a.kind = .app || a.siblings.markup.isSome)) =
      .ok (some (.page "/shelf/../app"), true) := by decide +kernel
  have hbase : pageBase "/shelf/../app" = appBase := by decide +kernel
  obtain ⟨g, hload, hall⟩ := Outcome.map_eq_ok.1 hall
  obtain ⟨hkind, hmarkup⟩ := Prod.mk.inj hall
  obtain ⟨page, hget, hkind⟩ := Option.map_eq_some_iff.1 hkind
  obtain ⟨hiff, hfails, hpages⟩ := load_validates_exactly twoApps hload
  have hmem := List.mem_of_getElem? hget
  obtain ⟨hpath, hid, hkey⟩ := hpages page hmem _ hkind
  rw [hbase] at hpath
  have hmarkup : ∀ page ∈ g.nodes, page.IsPage → page.siblings.markup.isSome := by
    rintro page hpage ⟨route, hk⟩
    simpa [hk] using List.all_eq_true.1 hmarkup page hpage
  -- The second page has the identity of the app, so validation fails, and not for want of markup.
  rcases hv : g.validate with f | u
  · obtain ⟨bundle, hbundle, hpage, ⟨hnone, -⟩ | ⟨app, happ, -, -, -, hf⟩⟩ := hfails f hv
    · have hsome := hmarkup bundle hbundle hpage
      rw [hnone] at hsome
      cases hsome
    · exact ⟨g, page, app, f, hload, hget, hpath, hmarkup page hmem ⟨_, hkind⟩, happ, hv, bundle,
        hf⟩
  · refine absurd ?_ ((hiff.1 hv).2 page hmem ⟨_, hkind⟩)
    rw [hid, hkey.2 hpath]

end Project

end AppletBundle
