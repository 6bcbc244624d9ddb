import AppletBundle.Proofs.Asset.Addition
import Mathlib.Data.List.Perm.Subperm

/-!
# Which graphs are valid

Validation compares every asset with its parent, and every bundle with those before it. In a graph
made by additions that is as much as `Admissible` says: there is an app, pages are under it and have
markup, components are under pages and components, and no two bundles share an identity
(`IsTree.validate_eq_ok_iff`). That nothing but the first asset is an app, and that it has no
parent, need not be asked for: it is so in every tree.

`checkAll_eq_ok_iff` takes the run over the assets apart: each asset is in its place, and the
identities of the bundles, those before the run included, are pairwise different.
-/

namespace AppletBundle.AssetGraph

/-! ### Identities of bundles -/

/-- The identities of the app and the pages among assets. -/
def bundleIdentities (as : List Asset) : List String :=
  (as.filter fun a ↦ a.kind.isBundle).map Asset.identity

theorem bundleIdentities_append (as bs : List Asset) :
    bundleIdentities (as ++ bs) = bundleIdentities as ++ bundleIdentities bs := by
  rw [bundleIdentities, List.filter_append, List.map_append, bundleIdentities, bundleIdentities]

theorem checkIdentity_eq_ok_iff {before : List Asset} {a : Asset} :
    checkIdentity before a = .ok () ↔
      (a.kind.isBundle → a.identity ∉ bundleIdentities before) := by
  rw [checkIdentity]
  by_cases hbundle : a.kind.isBundle
  · rw [if_pos hbundle]
    rcases hfind : before.find? fun b ↦ b.kind.isBundle && b.identity == a.identity with - | b
    · rw [List.find?_eq_none] at hfind
      refine ⟨fun _ _ hmem ↦ ?_, fun _ ↦ by rw [List.find?_eq_none.2 hfind]⟩
      obtain ⟨b, hb, hid⟩ := List.mem_map.1 hmem
      obtain ⟨hb, hkind⟩ := List.mem_filter.1 hb
      exact hfind b hb (by simp [hkind, hid])
    · have hb := List.find?_some hfind
      rw [Bool.and_eq_true, beq_iff_eq] at hb
      refine ⟨fun h ↦ (by rw [hfind] at h; cases h), fun h ↦ absurd ?_ (h hbundle)⟩
      exact List.mem_map.2 ⟨b, List.mem_filter.2 ⟨List.mem_of_find?_eq_some hfind, hb.1⟩, hb.2⟩
  · rw [if_neg hbundle]
    exact ⟨fun _ h ↦ absurd h hbundle, fun _ ↦ rfl⟩

/-- One more asset keeps the identities different if it passes the check. -/
theorem nodup_bundleIdentities_concat {before : List Asset} {a : Asset}
    (hbefore : (bundleIdentities before).Nodup) :
    (bundleIdentities (before ++ [a])).Nodup ↔ checkIdentity before a = .ok () := by
  rw [checkIdentity_eq_ok_iff, bundleIdentities_append]
  by_cases hbundle : a.kind.isBundle
  · have hsingle : bundleIdentities [a] = [a.identity] := by
      rw [bundleIdentities, List.filter_cons_of_pos (by exact hbundle)]
      rfl
    rw [hsingle, ← List.concat_eq_append, List.nodup_concat]
    exact ⟨fun h _ ↦ h.1, fun h ↦ ⟨h hbundle, hbefore⟩⟩
  · have hnone : bundleIdentities [a] = [] := by
      rw [bundleIdentities, List.filter_cons_of_neg (by exact hbundle)]
      rfl
    rw [hnone, List.append_nil]
    exact ⟨fun _ h ↦ absurd h hbundle, fun _ ↦ hbefore⟩

/-- **The run over the assets** passes if each is in its place and no identity is used twice. -/
theorem checkAll_eq_ok_iff {g : AssetGraph} {root : AssetId} {before : List Asset}
    (hbefore : (bundleIdentities before).Nodup) {as : List Asset} :
    g.checkAll root before as = .ok () ↔
      (∀ a ∈ as, g.checkPlace root a = .ok ()) ∧ (bundleIdentities (before ++ as)).Nodup := by
  induction as generalizing before with
  | nil =>
    rw [checkAll, List.append_nil]
    exact ⟨fun _ ↦ ⟨fun _ ha ↦ absurd ha List.not_mem_nil, hbefore⟩, fun _ ↦ rfl⟩
  | cons a as ih =>
    have happend : before ++ a :: as = (before ++ [a]) ++ as := by simp
    rw [checkAll, Outcome.bind_eq_ok, List.forall_mem_cons, happend]
    constructor
    · rintro ⟨⟨⟩, hplace, h⟩
      obtain ⟨⟨⟩, hidentity, h⟩ := Outcome.bind_eq_ok.1 h
      obtain ⟨hplaces, hnodup⟩ := (ih ((nodup_bundleIdentities_concat hbefore).2 hidentity)).1 h
      exact ⟨⟨hplace, hplaces⟩, hnodup⟩
    · rintro ⟨⟨hplace, hplaces⟩, hnodup⟩
      have hfirst : (bundleIdentities (before ++ [a])).Nodup := by
        rw [bundleIdentities_append] at hnodup
        exact (List.nodup_append.1 hnodup).1
      refine ⟨(), hplace, Outcome.bind_eq_ok.2 ⟨(), ?_, (ih hfirst).2 ⟨hplaces, hnodup⟩⟩⟩
      exact (nodup_bundleIdentities_concat hbefore).1 hfirst

/-! ### Places -/

theorem parentKind?_eq_some_iff {g : AssetGraph} {a : Asset} {kind : AssetKind} :
    g.parentKind? a = some kind ↔
      ∃ i above, a.parent = some i ∧ g.get? i = some above ∧ above.kind = kind := by
  rw [parentKind?, Option.bind_eq_some_iff]
  constructor
  · rintro ⟨i, hi, h⟩
    obtain ⟨above, habove, hkind⟩ := Option.map_eq_some_iff.1 h
    exact ⟨i, above, hi, habove, hkind⟩
  · rintro ⟨i, above, hi, habove, hkind⟩
    exact ⟨i, hi, Option.map_eq_some_iff.2 ⟨above, habove, hkind⟩⟩

section checkPlace

variable {g : AssetGraph} {root : AssetId} {a : Asset}

theorem checkPlace_of_app (hk : a.kind = .app) (hparent : a.parent = none) (hid : a.id = root) :
    g.checkPlace root a = .ok () := by
  have hnone : g.parentKind? a = none := by rw [parentKind?, hparent, Option.bind_none]
  rw [checkPlace, hk, hnone]
  exact if_pos hid

/-- A page is in its place below the app, if it has markup. -/
theorem checkPlace_page_iff (hk : a.IsPage) :
    g.checkPlace root a = .ok () ↔
      (∃ i app, a.parent = some i ∧ g.get? i = some app ∧ app.kind = .app) ∧
        a.siblings.markup.isSome := by
  obtain ⟨route, hk⟩ := hk
  rw [← parentKind?_eq_some_iff, checkPlace, hk]
  rcases hkind : g.parentKind? a with - | - | - | -
  case some.app =>
    rcases hmarkup : a.siblings.markup with - | m
    · exact ⟨fun h ↦ (by cases h), fun h ↦ (by cases h.2)⟩
    · exact ⟨fun _ ↦ ⟨rfl, rfl⟩, fun _ ↦ rfl⟩
  all_goals exact ⟨fun h ↦ (by cases h), fun h ↦ (by cases h.1)⟩

/-- A component is in its place below a page or a component. -/
theorem checkPlace_component_iff (hk : a.IsComponent) :
    g.checkPlace root a = .ok () ↔
      ∃ i above, a.parent = some i ∧ g.get? i = some above ∧
        (above.IsPage ∨ above.IsComponent) := by
  have hsplit : (∃ i above, a.parent = some i ∧ g.get? i = some above ∧
      (above.IsPage ∨ above.IsComponent)) ↔
      ∃ kind, g.parentKind? a = some kind ∧ kind ≠ .app := by
    simp only [parentKind?_eq_some_iff]
    constructor
    · rintro ⟨i, above, hi, habove, ⟨route, hka⟩ | ⟨tag, hka⟩⟩
      · exact ⟨_, ⟨i, above, hi, habove, hka⟩, by simp⟩
      · exact ⟨_, ⟨i, above, hi, habove, hka⟩, by simp⟩
    · rintro ⟨kind, ⟨i, above, hi, habove, rfl⟩, hne⟩
      refine ⟨i, above, hi, habove, ?_⟩
      rcases hka : above.kind with - | route | tag
      · exact absurd hka hne
      · exact Or.inl ⟨route, hka⟩
      · exact Or.inr ⟨tag, hka⟩
  obtain ⟨tag, hk⟩ := hk
  rw [hsplit, checkPlace, hk]
  rcases hkind : g.parentKind? a with - | - | - | -
  case none =>
    refine ⟨fun h ↦ (by cases h), ?_⟩
    rintro ⟨_, h, -⟩
    cases h
  case some.app =>
    refine ⟨fun h ↦ (by cases h), ?_⟩
    rintro ⟨kind, h, hne⟩
    exact absurd (Option.some.inj h).symm hne
  all_goals exact ⟨fun _ ↦ ⟨_, rfl, by simp⟩, fun _ ↦ rfl⟩

end checkPlace

/-! ### Valid graphs -/

/-- What a graph needs to be packaged. -/
structure Admissible (g : AssetGraph) : Prop where
  nonempty : g.nodes ≠ []
  pages : ∀ a ∈ g.nodes, a.IsPage →
    (∃ i app, a.parent = some i ∧ g.get? i = some app ∧ app.kind = .app) ∧
      a.siblings.markup.isSome
  components : ∀ a ∈ g.nodes, a.IsComponent →
    ∃ i above, a.parent = some i ∧ g.get? i = some above ∧ (above.IsPage ∨ above.IsComponent)
  identities : (bundleIdentities g.nodes).Nodup

/-- **Validation is exact.** -/
theorem IsTree.validate_eq_ok_iff {g : AssetGraph} (hg : g.IsTree) :
    g.validate = .ok () ↔ g.Admissible := by
  by_cases hsize : g.size = 0
  · have hnil : g.nodes = [] := List.eq_nil_of_length_eq_zero hsize
    rw [validate, hg.root_eq, if_pos hsize]
    exact ⟨fun h ↦ (by cases h), fun h ↦ absurd hnil h.nonempty⟩
  have hplace : ∀ a ∈ g.nodes, a.kind = .app → g.checkPlace 0 a = .ok () := by
    intro a ha hk
    obtain ⟨i, hi⟩ := List.mem_iff_getElem?.1 ha
    obtain rfl := (hg.app_iff hi).1 hk
    exact checkPlace_of_app hk ((hg.parent_none_iff hi).2 rfl) (hg.id_eq hi)
  rw [validate, hg.root_eq, if_neg hsize]
  show g.checkAll 0 [] g.nodes = .ok () ↔ _
  have hnone : (bundleIdentities []).Nodup := List.nodup_nil
  rw [checkAll_eq_ok_iff hnone, List.nil_append]
  constructor
  · rintro ⟨hplaces, hnodup⟩
    refine ⟨fun hnil ↦ hsize (congrArg List.length hnil), fun a ha hk ↦ ?_, fun a ha hk ↦ ?_,
      hnodup⟩
    · exact (checkPlace_page_iff hk).1 (hplaces a ha)
    · exact (checkPlace_component_iff hk).1 (hplaces a ha)
  · intro h
    refine ⟨fun a ha ↦ ?_, h.identities⟩
    rcases hk : a.kind with - | route | tag
    · exact hplace a ha hk
    · exact (checkPlace_page_iff ⟨route, hk⟩).2 (h.pages a ha ⟨route, hk⟩)
    · exact (checkPlace_component_iff ⟨tag, hk⟩).2 (h.components a ha ⟨tag, hk⟩)

/-! ### Different bundles -/

/-- Different members of a list whose images are different have different images. -/
theorem nodup_filterMap_of_subset {α β : Type} {f : α → Option β} {as bs : List α}
    (has : as.Nodup) (hsub : as ⊆ bs) (hbs : (bs.filterMap f).Nodup) : (as.filterMap f).Nodup := by
  obtain ⟨l, hperm, hl⟩ := List.subperm_of_subset has hsub
  exact (hperm.filterMap f).nodup_iff.1 ((hl.filterMap f).nodup hbs)

theorem bundleIdentities_eq_filterMap (as : List Asset) :
    bundleIdentities as =
      as.filterMap fun a ↦ if a.kind.isBundle then some a.identity else none := by
  rw [bundleIdentities]
  induction as with
  | nil => rfl
  | cons a as ih => by_cases ha : a.kind.isBundle <;> simp [ha, ih]

theorem nodup_bundleIdentities_of_validate {g : AssetGraph} (hv : g.validate = .ok ()) :
    (bundleIdentities g.nodes).Nodup := by
  rw [validate] at hv
  rcases hroot : g.root with - | root
  · rw [hroot] at hv
    cases hv
  · rw [hroot] at hv
    have hnone : (bundleIdentities []).Nodup := List.nodup_nil
    exact ((checkAll_eq_ok_iff hnone).1 hv).2

/-- Different bundles of a valid graph have different identities. -/
theorem nodup_map_identity {g : AssetGraph} {as : List Asset} (has : as.Nodup)
    (hsub : ∀ a ∈ as, a ∈ g.nodes ∧ a.kind.isBundle) (hv : g.validate = .ok ()) :
    (as.map Asset.identity).Nodup := by
  have hbundles : as.filterMap (fun a ↦ if a.kind.isBundle then some a.identity else none) =
      as.map Asset.identity := by
    rw [← List.filterMap_eq_map]
    exact List.filterMap_congr fun a ha ↦ if_pos (hsub a ha).2
  rw [← hbundles]
  refine nodup_filterMap_of_subset has (fun a ha ↦ (hsub a ha).1) ?_
  rw [← bundleIdentities_eq_filterMap]
  exact nodup_bundleIdentities_of_validate hv

/-- The routes of the pages among assets. -/
def pageRoutes (as : List Asset) : List String :=
  as.filterMap fun a ↦ match a.kind with
    | .page route => some route
    | _ => none

end AppletBundle.AssetGraph
