import AppletBundle.Project.Loading
import AppletBundle.Proofs.Asset.Structure

/-!
# Loading a part again

A component that is declared more than once below the same asset is looked up again with everything
below it, in a graph that has all of it already. Nothing comes of that: loading only adds children,
and a loading that has succeeded finds all its children where it has put them (`Settles`). Steps
that settle can be put one after the other (`Settles.foldlM`), so loading below an asset settles at
any depth (`settles_loadComponents`), and declaring a component again changes nothing
(`Present.loadComponent_eq`).
-/

namespace AppletBundle

namespace AssetGraph

/-! ### Graphs that grow -/

/-- The child of an asset with an identity. -/
def childOf? (g : AssetGraph) (parent : AssetId) (identity : String) : Option AssetId :=
  (g.get? parent).bind fun a ↦ a.children.get? identity

/-- All children are also there in another graph, under the same numbers. -/
def Extends (g h : AssetGraph) : Prop :=
  ∀ parent identity id, g.childOf? parent identity = some id → h.childOf? parent identity = some id

theorem Extends.refl (g : AssetGraph) : g.Extends g :=
  fun _ _ _ h ↦ h

theorem Extends.trans {g h k : AssetGraph} (hgh : g.Extends h) (hhk : h.Extends k) : g.Extends k :=
  fun parent identity id hc ↦ hhk parent identity id (hgh parent identity id hc)

section addChild

variable {g h : AssetGraph} {parent : AssetId} {kind : AssetKind} {identity tag : String}
  {path : Path} {siblings : SiblingModules} {id : AssetId}

theorem extends_attach {above : Asset} (habove : g.get? parent = some above)
    (hkey : above.children.get? identity = none) :
    g.Extends (g.attach parent kind identity path siblings) := by
  intro i key id hc
  obtain ⟨a, ha, hid⟩ := Option.bind_eq_some_iff.1 hc
  by_cases hi : i = parent
  · subst hi
    obtain rfl := Option.some.inj (habove.symm.trans ha)
    have hne : key ≠ identity := by
      rintro rfl
      rw [hkey] at hid
      cases hid
    refine Option.bind_eq_some_iff.2
      ⟨_, (get?_attach_eq_some_iff habove).2 (.inr (.inl ⟨rfl, rfl⟩)), ?_⟩
    rw [OrderedMap.get?_insert, if_neg hne, hid]
  · exact Option.bind_eq_some_iff.2
      ⟨a, (get?_attach_eq_some_iff habove).2 (.inl ⟨ha, hi⟩), hid⟩

theorem childOf?_attach {above : Asset} (habove : g.get? parent = some above) :
    (g.attach parent kind identity path siblings).childOf? parent identity = some g.size := by
  refine Option.bind_eq_some_iff.2
    ⟨_, (get?_attach_eq_some_iff habove).2 (.inr (.inl ⟨rfl, rfl⟩)), ?_⟩
  rw [OrderedMap.get?_insert, if_pos rfl]

/-- An asset that is added is there, and so are all others. -/
theorem extends_of_addChild
    (hadd : g.addChild parent kind identity path siblings = .ok (id, h)) :
    g.Extends h ∧ h.childOf? parent identity = some id := by
  rw [AssetGraph.addChild] at hadd
  split at hadd
  · cases hadd
  split at hadd
  · cases hadd
  rename_i above habove
  split at hadd
  · rename_i existing hkey
    split at hadd
    · cases hadd
    · cases hadd
      exact ⟨.refl g, Option.bind_eq_some_iff.2 ⟨above, habove, hkey⟩⟩
  · rename_i hkey
    cases hadd
    exact ⟨extends_attach habove hkey, childOf?_attach habove⟩

/-- A component that is there is not added again. -/
theorem addChild_of_childOf? (hc : g.childOf? parent identity = some id) :
    g.addChild parent (.component tag) identity path siblings = .ok (id, g) := by
  obtain ⟨above, habove, hkey⟩ := Option.bind_eq_some_iff.1 hc
  rw [AssetGraph.addChild, if_neg (by simp)]
  simp only [habove, hkey]
  rfl

end addChild

/-! ### Loading that settles -/

/-- If this succeeds, it has only added children, and finds all of them when it is done again. -/
def Settles (load : AssetGraph → Outcome AssetGraph) : Prop :=
  ∀ g g', load g = .ok g' → g.Extends g' ∧ ∀ h, g'.Extends h → load h = .ok h

theorem settles_ok : Settles .ok := by
  rintro g g' ⟨⟩
  exact ⟨.refl g, fun _ _ ↦ rfl⟩

/-- What is done step by step settles if every step does. -/
theorem Settles.foldlM {δ : Type} {step : AssetGraph → δ → Outcome AssetGraph}
    (hstep : ∀ d, Settles fun g ↦ step g d) (ds : List δ) : Settles fun g ↦ ds.foldlM step g := by
  induction ds with
  | nil => exact settles_ok
  | cons d ds ih =>
    intro g g' h
    change (d :: ds).foldlM step g = _ at h
    rw [List.foldlM_cons] at h
    obtain ⟨g₁, hfirst, hrest⟩ := Outcome.bind_eq_ok.1 h
    obtain ⟨hext, hagain⟩ := hstep d g g₁ hfirst
    obtain ⟨hext', hagain'⟩ := ih g₁ g' hrest
    refine ⟨hext.trans hext', fun k hk ↦ ?_⟩
    show (d :: ds).foldlM step k = _
    rw [List.foldlM_cons]
    exact Outcome.bind_eq_ok.2 ⟨k, hagain k (hext'.trans hk), hagain' k hk⟩

/-- What is read before does not depend on the graph. -/
theorem Settles.read {α : Type} (x : Outcome α) {f : α → AssetGraph → Outcome AssetGraph}
    (hf : ∀ a, Settles (f a)) : Settles fun g ↦ x >>= fun a ↦ f a g := by
  rcases x with e | a
  · intro g g' h
    cases h
  · exact hf a

end AssetGraph

namespace Project

open AssetGraph

/-! ### One component -/

/-- What looks for modules at a base. -/
abbrev Finder := Path → Outcome SiblingModules

/-- What adds everything below the asset with a number at a base. -/
abbrev Descent := AssetId → Path → List String → AssetGraph → Outcome AssetGraph

section loadComponent

variable {find : Finder} {descend : Descent} {parent : AssetId} {base target : Path}
  {chain : List String} {g g' : AssetGraph} {tag place : String}

/-- A place that leads nowhere is passed over. -/
theorem loadComponent_of_eq_none (hplace : resolveComponent? base place = none) :
    loadComponent find descend parent base chain g (tag, place) = .ok g := by
  rw [loadComponent]
  simp only [hplace]

/-- **All that adding a component takes**: it does not lie below itself, has modules, and everything
below it is added. -/
theorem loadComponent_eq_ok_iff (hplace : resolveComponent? base place = some target) :
    loadComponent find descend parent base chain g (tag, place) = .ok g' ↔
      keyOf target ∉ chain ∧ ∃ siblings id g₁, find target = .ok siblings ∧ siblings.hasAny ∧
        g.addChild parent (.component tag) (contentIdentity (keyOf target)) target siblings =
          .ok (id, g₁) ∧
        descend id target (chain ++ [keyOf target]) g₁ = .ok g' := by
  rw [loadComponent]
  simp only [hplace]
  by_cases hchain : keyOf target ∈ chain
  · rw [if_pos (by simpa using hchain)]
    exact ⟨fun h ↦ (by cases h), fun h ↦ absurd hchain h.1⟩
  rw [if_neg (by simpa using hchain), Outcome.bind_eq_ok]
  constructor
  · rintro ⟨siblings, hfind, h⟩
    by_cases hany : siblings.hasAny
    · rw [if_neg (by simp [hany])] at h
      obtain ⟨⟨id, g₁⟩, hadd, h⟩ := Outcome.bind_eq_ok.1 h
      exact ⟨hchain, siblings, id, g₁, hfind, hany, hadd, h⟩
    · rw [if_pos (by simp [hany])] at h
      cases h
  · rintro ⟨-, siblings, id, g₁, hfind, hany, hadd, h⟩
    refine ⟨siblings, hfind, ?_⟩
    rw [if_neg (by simp [hany])]
    exact Outcome.bind_eq_ok.2 ⟨(id, g₁), hadd, h⟩

/-- The component at a base is among the children of an asset, with everything below it: adding it
does not fail, and finds nothing to do. -/
structure Present (find : Finder) (descend : Descent) (parent : AssetId) (chain : List String)
    (g : AssetGraph) (target : Path) : Prop where
  not_mem : keyOf target ∉ chain
  modules : ∃ siblings, find target = .ok siblings ∧ siblings.hasAny
  child : ∃ id, g.childOf? parent (contentIdentity (keyOf target)) = some id ∧
    ∀ h, g.Extends h → descend id target (chain ++ [keyOf target]) h = .ok h

theorem Present.mono (h : Present find descend parent chain g target) (hext : g.Extends g') :
    Present find descend parent chain g' target := by
  obtain ⟨id, hchild, hdescend⟩ := h.child
  exact ⟨h.not_mem, h.modules, id, hext _ _ _ hchild, fun k hk ↦ hdescend k (hext.trans hk)⟩

/-- **Declaring a component again** changes nothing. -/
theorem Present.loadComponent_eq (h : Present find descend parent chain g target)
    (hplace : resolveComponent? base place = some target) :
    loadComponent find descend parent base chain g (tag, place) = .ok g := by
  obtain ⟨siblings, hfind, hany⟩ := h.modules
  obtain ⟨id, hchild, hdescend⟩ := h.child
  exact (loadComponent_eq_ok_iff hplace).2
    ⟨h.not_mem, siblings, id, g, hfind, hany, addChild_of_childOf? hchild, hdescend g (.refl g)⟩

variable (hsettles : ∀ id base chain, Settles (descend id base chain))

include hsettles

/-- A component that has been added is there. -/
theorem present_of_loadComponent (hplace : resolveComponent? base place = some target)
    (h : loadComponent find descend parent base chain g (tag, place) = .ok g') :
    g.Extends g' ∧ Present find descend parent chain g' target := by
  obtain ⟨hchain, siblings, id, g₁, hfind, hany, hadd, hdescend⟩ :=
    (loadComponent_eq_ok_iff hplace).1 h
  obtain ⟨hext, hchild⟩ := extends_of_addChild hadd
  obtain ⟨hext', hagain⟩ := hsettles _ _ _ g₁ g' hdescend
  exact ⟨hext.trans hext', hchain, ⟨siblings, hfind, hany⟩, id, hext' _ _ _ hchild, hagain⟩

theorem settles_loadComponent (declared : String × String) :
    Settles fun g ↦ loadComponent find descend parent base chain g declared := by
  intro g g' h
  obtain ⟨tag, place⟩ := declared
  rcases hplace : resolveComponent? base place with - | target
  · obtain rfl := Except.ok.inj ((loadComponent_of_eq_none hplace).symm.trans h)
    exact ⟨.refl g, fun k _ ↦ loadComponent_of_eq_none hplace⟩
  · obtain ⟨hext, hpresent⟩ := present_of_loadComponent hsettles hplace h
    exact ⟨hext, fun k hk ↦ (hpresent.mono hk).loadComponent_eq hplace⟩

end loadComponent

/-! ### Everything below an asset -/

/-- **Loading below an asset settles**, at any depth. -/
theorem settles_loadComponents (p : Project) (depth : ℕ) (id : AssetId) (base : Path)
    (chain : List String) : Settles (p.loadComponents depth id base chain) := by
  induction depth generalizing id base chain with
  | zero => exact .read _ fun _ ↦ .foldlM (settles_loadComponent fun _ _ _ ↦ settles_ok) _
  | succ depth ih => exact .read _ fun _ ↦ .foldlM (settles_loadComponent ih) _

end Project

end AppletBundle
