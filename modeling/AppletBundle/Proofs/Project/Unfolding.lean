import AppletBundle.Proofs.Asset.Growth
import AppletBundle.Proofs.Project.Declaration
import AppletBundle.Proofs.Project.Loading

/-!
# What a project unfolds to

The manifests of a project say what is below every base: `Unrolls` unfolds them, without a graph and
without a bound for the depth. Loading below an asset appends exactly these trees to the graph
(`filled_of_loadComponents`). One declaration at a time, a component that has been declared before
changes nothing, and one that has not is attached, with all below it, since its identity is new
(`Progress.step`). For the latter, identities have to tell the keys that occur from each other.
-/

namespace AppletBundle

open AssetTree

namespace Project

open AssetGraph

/-! ### Unfolding -/

/-- The asset is what a declaration asks for, with the modules at the declared base. -/
structure Makes (p : Project) (d : Declaration) (a : Asset) : Prop where
  kind : a.kind = d.1
  path : a.path = d.2
  identity : a.identity = contentIdentity (keyOf d.2)
  siblings : p.siblings d.2 = .ok a.siblings

/-- `p.Unrolls ds ts`: the declarations `ds`, with all that is declared below, make the trees
`ts`. -/
inductive Unrolls (p : Project) : List Declaration → List AssetTree → Prop
  | nil : Unrolls p [] []
  | cons {d : Declaration} {ds : List Declaration} {a : Asset} {ts rest : List AssetTree}
      {m : UnitManifest} (ha : p.Makes d a) (hm : p.unitManifest d.2 = .ok m)
      (hbelow : Unrolls p (componentsOf d.2 m) ts) (hrest : Unrolls p ds rest) :
      Unrolls p (d :: ds) (.node a ts :: rest)

namespace Unrolls

variable {p : Project} {ds es : List Declaration} {ts us : List AssetTree}

theorem append (hts : p.Unrolls ds ts) (hus : p.Unrolls es us) :
    p.Unrolls (ds ++ es) (ts ++ us) := by
  induction hts with
  | nil => exact hus
  | cons ha hm hbelow _ _ ih => exact .cons ha hm hbelow ih

theorem map_identity (h : p.Unrolls ds ts) :
    ts.map (fun t ↦ t.asset.identity) = ds.map fun d ↦ contentIdentity (keyOf d.2) := by
  induction h with
  | nil => rfl
  | cons ha _ _ _ _ ih => rw [List.map_cons, List.map_cons, ih, asset, ha.identity]

end Unrolls

/-! ### Loading below an asset -/

/-- `g'` is `g` with everything that is declared at a base appended below an asset. -/
def Filled (p : Project) (base : Path) (g : AssetGraph) (id : AssetId) (g' : AssetGraph) : Prop :=
  ∃ m ts, p.unitManifest base = .ok m ∧ Grows g id g' ts ∧ p.Unrolls (componentsOf base m) ts

/-- The modules that are found are those of the project, and where there are any, descending fills
an asset without children. -/
def Follows (p : Project) (find : Finder) (descend : Descent) : Prop :=
  ∀ {target siblings}, p.Reaches target → find target = .ok siblings → siblings.hasAny →
    p.siblings target = .ok siblings ∧
    ∀ {g g' id a chain}, g.Linked → g.get? id = some a → a.children.entries = [] →
      descend id target chain g = .ok g' → p.Filled target g id g'

section filled

variable {p : Project} {find : Finder} {descend : Descent} {parent : AssetId} {base target : Path}
  {chain : List String} {g g' : AssetGraph} {above : Asset} {tag place : String}

/-- **An asset that is attached and filled** is what its declaration unrolls to. -/
theorem Filled.grows_of_attach {kind : AssetKind} {siblings : SiblingModules}
    (hsiblings : p.siblings base = .ok siblings) (habove : g.get? parent = some above)
    (hkey : above.children.get? (contentIdentity (keyOf base)) = none)
    (h : p.Filled base (g.attach parent kind (contentIdentity (keyOf base)) base siblings)
      g.size g') :
    ∃ t, Grows g parent g' [t] ∧ p.Unrolls [(kind, base)] [t] := by
  obtain ⟨m, ts, hm, hgrows, hbelow⟩ := h
  obtain ⟨b, hchild, hkind, hidentity, hpath, hb⟩ := hgrows.child habove hkey
  exact ⟨.node b ts, hchild,
    .cons ⟨hkind, hpath, hidentity, hb ▸ hsiblings⟩ hm hbelow .nil⟩

/-- A new component is appended with all below it. -/
theorem Follows.grows_of_loadComponent (hfollows : p.Follows find descend)
    (htarget : p.Reaches target) (hg : g.Linked) (habove : g.get? parent = some above)
    (hkey : above.children.get? (contentIdentity (keyOf target)) = none)
    (hplace : resolveComponent? base place = some target)
    (h : loadComponent find descend parent base chain g (tag, place) = .ok g') :
    ∃ t, Grows g parent g' [t] ∧ p.Unrolls [(.component tag, target)] [t] := by
  obtain ⟨-, siblings, id, g₁, hfind, hany, hadd, hdescend⟩ := (loadComponent_eq_ok_iff hplace).1 h
  rw [addChild_eq_attach (by simp) habove hkey] at hadd
  cases hadd
  obtain ⟨hsiblings, hfill⟩ := hfollows htarget hfind hany
  exact Filled.grows_of_attach hsiblings habove hkey (hfill (hg.attach habove hkey)
    ((get?_attach_eq_some_iff habove).2 (.inr (.inr ⟨rfl, rfl⟩))) rfl hdescend)

/-- What has come of some declarations below an asset: the first of every base is appended, and all
of them are there. -/
structure Progress (p : Project) (find : Finder) (descend : Descent) (parent : AssetId)
    (chain : List String) (g₀ : AssetGraph) (ds : List Declaration) (g : AssetGraph) : Prop where
  grows : ∃ ts, Grows g₀ parent g ts ∧ p.Unrolls (firstsOfBase ds) ts
  present : ∀ d ∈ ds, Present find descend parent chain g d.2
  reaches : ∀ d ∈ ds, p.Reaches d.2

variable {g₀ : AssetGraph} {ds : List Declaration}

/-- **A base that is new has a new identity**: the children are those of bases seen before. -/
theorem Progress.get?_eq_none (hinj : Set.InjOn contentIdentity p.keys)
    (h : Progress p find descend parent chain g₀ ds g) (habove : g₀.get? parent = some above)
    (hempty : above.children.entries = []) (htarget : p.Reaches target)
    (hnew : target ∉ ds.map Prod.snd) :
    ∃ a, g.get? parent = some a ∧ a.children.get? (contentIdentity (keyOf target)) = none := by
  obtain ⟨ts, hgrows, hunrolls⟩ := h.grows
  obtain ⟨children, ha, hentries⟩ := hgrows.top habove
  refine ⟨_, ha, OrderedMap.get?_eq_none_iff.2 ?_⟩
  have hidentities : children.entries.map Prod.fst =
      (firstsOfBase ds).map fun d ↦ contentIdentity (keyOf d.2) := by
    rw [hentries, hempty, List.nil_append, ← hunrolls.map_identity, List.map_map]
    rfl
  rw [hidentities]
  intro hmem
  obtain ⟨d, hd, hidentity⟩ := List.mem_map.1 hmem
  have hd' := firstsOfBase_subset ds hd
  exact hnew (List.mem_map.2 ⟨d, hd', (h.reaches d hd').identity_inj hinj htarget hidentity⟩)

/-- **One more declaration** either changes nothing, since its base has been seen, or appends what
it unrolls to. -/
theorem Progress.step (hinj : Set.InjOn contentIdentity p.keys) (hfollows : p.Follows find descend)
    (hsettles : ∀ id base chain, Settles (descend id base chain))
    (h : Progress p find descend parent chain g₀ ds g) (habove : g₀.get? parent = some above)
    (hempty : above.children.entries = []) (htarget : p.Reaches target)
    (hplace : resolveComponent? base place = some target)
    (hload : loadComponent find descend parent base chain g (tag, place) = .ok g') :
    Progress p find descend parent chain g₀ (ds ++ [(.component tag, target)]) g' := by
  obtain ⟨hext, hpresent⟩ := present_of_loadComponent hsettles hplace hload
  refine ⟨?_, ?_, ?_⟩
  · obtain ⟨ts, hgrows, hunrolls⟩ := h.grows
    rw [firstsOfBase_concat]
    split
    · rename_i hseen
      obtain ⟨d, hd, rfl⟩ := List.mem_map.1 hseen
      obtain rfl := Except.ok.inj (((h.present d hd).loadComponent_eq hplace).symm.trans hload)
      exact ⟨ts, hgrows, hunrolls⟩
    · rename_i hnew
      obtain ⟨a, ha, hkey⟩ := h.get?_eq_none hinj habove hempty htarget hnew
      obtain ⟨t, hgrows', hunrolls'⟩ :=
        hfollows.grows_of_loadComponent htarget hgrows.linked ha hkey hplace hload
      exact ⟨ts ++ [t], hgrows.trans (lt_size_of_get? habove) hgrows',
        hunrolls.append hunrolls'⟩
  · intro d hd
    rcases List.mem_append.1 hd with hd | hd
    · exact (h.present d hd).mono hext
    · rwa [List.mem_singleton.1 hd]
  · intro d hd
    rcases List.mem_append.1 hd with hd | hd
    · exact h.reaches d hd
    · rwa [List.mem_singleton.1 hd]

/-- All declarations of a base together fill the asset. -/
theorem Follows.filled_of_read (hfollows : p.Follows find descend)
    (hinj : Set.InjOn contentIdentity p.keys)
    (hsettles : ∀ id base chain, Settles (descend id base chain)) (hbase : p.Reaches base)
    (hg : g.Linked) (habove : g.get? parent = some above) (hempty : above.children.entries = [])
    (h : (p.unitManifest base >>= fun m ↦
      m.usingComponents.entries.foldlM (loadComponent find descend parent base chain) g) =
        .ok g') :
    p.Filled base g parent g' := by
  obtain ⟨m, hm, h⟩ := Outcome.bind_eq_ok.1 h
  have hstart : Progress p find descend parent chain g [] g :=
    ⟨⟨[], .refl hg parent, .nil⟩, fun _ h ↦ absurd h List.not_mem_nil,
      fun _ h ↦ absurd h List.not_mem_nil⟩
  have hall : Progress p find descend parent chain g
      (m.usingComponents.entries.filterMap (component? base)) g' := by
    refine Outcome.foldlM_induction (P := fun done h ↦
      Progress p find descend parent chain g (done.filterMap (component? base)) h) hstart ?_ h
    rintro done ⟨tag, place⟩ g₁ g₂ hdeclared hprogress hload
    rw [List.filterMap_append]
    rcases hplace : resolveComponent? base place with - | target
    · have hnone : component? base (tag, place) = none := by
        rw [component?, hplace, Option.map_none]
      obtain rfl := Except.ok.inj ((loadComponent_of_eq_none hplace).symm.trans hload)
      rwa [List.filterMap_cons_none hnone, List.filterMap_nil, List.append_nil]
    · have hsome : component? base (tag, place) = some (.component tag, target) := by
        rw [component?, hplace, Option.map_some]
      rw [List.filterMap_cons_some hsome, List.filterMap_nil]
      exact hprogress.step hinj hfollows hsettles habove hempty
        (.component hbase hm hdeclared hplace) hplace hload
  obtain ⟨ts, hgrows, hunrolls⟩ := hall.grows
  exact ⟨m, ts, hm, hgrows, hunrolls⟩

end filled

/-- **Loading below an asset fills it**, at any depth that suffices. -/
theorem filled_of_loadComponents {p : Project} (hinj : Set.InjOn contentIdentity p.keys)
    {depth : ℕ} {g g' : AssetGraph} {id : AssetId} {a : Asset} {base : Path} {chain : List String}
    (hbase : p.Reaches base) (hg : g.Linked) (ha : g.get? id = some a)
    (hempty : a.children.entries = []) (h : p.loadComponents depth id base chain g = .ok g') :
    p.Filled base g id g' := by
  induction depth generalizing g g' id a base chain with
  | zero =>
    -- nothing is found at this depth
    have hnone : p.Follows (fun _ ↦ .ok .empty) fun _ _ _ g ↦ .ok g := by
      rintro target siblings - ⟨⟩ hany
      cases hany
    exact hnone.filled_of_read hinj (fun _ _ _ ↦ settles_ok) hbase hg ha hempty h
  | succ depth ih =>
    have hfollows : p.Follows p.siblings (p.loadComponents depth) := fun htarget hfind _ ↦
      ⟨hfind, fun hg ha hempty h ↦ ih htarget hg ha hempty h⟩
    exact hfollows.filled_of_read hinj (p.settles_loadComponents depth) hbase hg ha hempty h

end Project

end AppletBundle
