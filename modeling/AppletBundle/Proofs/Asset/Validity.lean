import AppletBundle.Proofs.Asset.Tree

/-!
# Valid graphs

Validation looks at every asset and at the one above it only. In a linked graph that is enough to
know the walk of packaging: the app is the root, and every page is one of its children
(`Linked.mem_children_of_validate`).
-/

namespace AppletBundle

/-- An asset that is a page. -/
def Asset.IsPage (a : Asset) : Prop :=
  ∃ route, a.kind = .page route

theorem Asset.IsComponent.not_isPage {a : Asset} (h : a.IsComponent) : ¬ a.IsPage := by
  rintro ⟨route, hk⟩
  obtain ⟨tag, ht⟩ := h
  rw [hk] at ht
  cases ht

namespace AssetGraph

theorem checkPlace_of_checkAll {g : AssetGraph} {root : AssetId} {before as : List Asset}
    (h : g.checkAll root before as = .ok ()) {a : Asset} (ha : a ∈ as) :
    g.checkPlace root a = .ok () := by
  induction as generalizing before with
  | nil => exact absurd ha List.not_mem_nil
  | cons b as ih =>
    rw [checkAll] at h
    obtain ⟨⟨⟩, hplace, h⟩ := Outcome.bind_eq_ok.1 h
    obtain ⟨⟨⟩, -, h⟩ := Outcome.bind_eq_ok.1 h
    rcases List.mem_cons.1 ha with rfl | ha
    · exact hplace
    · exact ih h ha

/-- The only app of a valid graph is its root. -/
theorem id_eq_of_checkPlace {g : AssetGraph} {root : AssetId} {a : Asset} (hk : a.kind = .app)
    (h : g.checkPlace root a = .ok ()) : a.id = root := by
  rw [checkPlace, hk] at h
  split at h
  · split at h
    · assumption
    · cases h
  all_goals simp_all [invalid]

/-- And pages are under an app. -/
theorem exists_parent_of_checkPlace {g : AssetGraph} {root : AssetId} {a : Asset} (hk : a.IsPage)
    (h : g.checkPlace root a = .ok ()) :
    ∃ i b, a.parent = some i ∧ g.get? i = some b ∧ b.kind = .app := by
  obtain ⟨route, hk⟩ := hk
  rw [checkPlace, hk] at h
  split at h
  · simp_all
  · rename_i hparent
    rw [parentKind?, Option.bind_eq_some_iff] at hparent
    obtain ⟨i, hi, hparent⟩ := hparent
    obtain ⟨b, hb, hkind⟩ := Option.map_eq_some_iff.1 hparent
    exact ⟨i, b, hi, hb, hkind⟩
  all_goals simp_all [invalid]

/-- **Every page of a valid graph is a child of the app.** -/
theorem Linked.mem_children_of_validate {g : AssetGraph} (hg : g.Linked) {root : AssetId}
    (hroot : g.root = some root) (hv : g.validate = .ok ()) {id : AssetId} {page : Asset}
    (hp : g.get? id = some page) (hk : page.IsPage) :
    ∃ app, g.get? root = some app ∧ app.kind = .app ∧ id ∈ app.children.values := by
  have hplace : ∀ {i a}, g.get? i = some a → g.checkPlace root a = .ok () := by
    intro i a ha
    simp only [validate, hroot] at hv
    exact checkPlace_of_checkAll hv (List.mem_of_getElem? ha)
  obtain ⟨i, app, hi, happ, hkind⟩ := exists_parent_of_checkPlace hk (hplace hp)
  have hid : i = root := (hg.id_eq happ).symm.trans (id_eq_of_checkPlace hkind (hplace happ))
  subst hid
  obtain ⟨app', happ', hmem⟩ := hg.parent hp hi
  rw [happ] at happ'
  cases happ'
  exact ⟨app, happ, hkind, hmem⟩

end AssetGraph

end AppletBundle
