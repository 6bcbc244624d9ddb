import AppletBundle.Project.Loading
import AppletBundle.Proofs.Path.Key
import AppletBundle.Proofs.Project.Containment
import Mathlib.Data.List.Nodup

/-!
# What a project declares

The app declares its pages, and pages and components declare components, under tags and by places. A
base that is declared again below the same asset is declared once (`firstsOfBase`), under the tag
that came first. `Reaches` are the bases to which all of this leads. They are normal paths, so their
keys tell them from each other (`Reaches.keyOf_inj`).
-/

namespace AppletBundle.Project

/-! ### Declarations -/

/-- What is declared, and at which base. -/
abbrev Declaration := AssetKind × Path

/-- The pages that the app declares. -/
def pagesOf (m : AppManifest) : List Declaration :=
  m.pages.map fun route ↦ (.page route, pageBase route)

/-- What a tag and a place declare, if the place leads anywhere. -/
def component? (base : Path) (declared : String × String) : Option Declaration :=
  (resolveComponent? base declared.2).map fun target ↦ (.component declared.1, target)

/-- Declarations in order without those of the base of an earlier one. -/
def firstsOfBase (ds : List Declaration) : List Declaration :=
  ds.eraseDupsBy fun d e ↦ d.2 = e.2

/-- The components that the page or component at a base declares, each base once under its first
tag. -/
def componentsOf (base : Path) (m : UnitManifest) : List Declaration :=
  firstsOfBase (m.usingComponents.entries.filterMap (component? base))

theorem firstsOfBase_cons (d : Declaration) (ds : List Declaration) :
    firstsOfBase (d :: ds) = d :: firstsOfBase (ds.filter fun e ↦ e.2 ≠ d.2) := by
  rw [firstsOfBase, List.eraseDupsBy_cons, firstsOfBase]
  simp

/-- One more declaration counts if its base is new. -/
theorem firstsOfBase_concat (ds : List Declaration) (d : Declaration) :
    firstsOfBase (ds ++ [d]) =
      if d.2 ∈ ds.map Prod.snd then firstsOfBase ds else firstsOfBase ds ++ [d] := by
  match ds with
  | [] => rfl
  | e :: es =>
    have hrest := firstsOfBase_concat (es.filter fun x ↦ x.2 ≠ e.2) d
    rw [List.cons_append, firstsOfBase_cons, firstsOfBase_cons, List.filter_append, List.map_cons]
    by_cases hd : d.2 = e.2
    · have hnone : [d].filter (fun x ↦ x.2 ≠ e.2) = [] := by simp [hd]
      rw [hnone, List.append_nil, if_pos (hd ▸ List.mem_cons_self)]
    · have hself : [d].filter (fun x ↦ x.2 ≠ e.2) = [d] := by simp [hd]
      have hmem : d.2 ∈ (es.filter fun x ↦ x.2 ≠ e.2).map Prod.snd ↔
          d.2 ∈ e.2 :: es.map Prod.snd := by
        rw [List.mem_cons, or_iff_right hd, List.mem_map, List.mem_map]
        refine exists_congr fun x ↦ and_congr_left fun hx ↦ ?_
        rw [List.mem_filter, hx, decide_eq_true_iff]
        exact and_iff_left hd
      rw [hself, hrest]
      simp only [hmem]
      split <;> rfl
termination_by ds.length
decreasing_by exact Nat.lt_succ_of_le (List.length_filter_le _ _)

theorem firstsOfBase_subset (ds : List Declaration) : firstsOfBase ds ⊆ ds := by
  match ds with
  | [] => exact List.Subset.refl _
  | d :: ds =>
    rw [firstsOfBase_cons]
    exact List.cons_subset_cons d
      (List.Subset.trans (firstsOfBase_subset _) List.filter_sublist.subset)
termination_by ds.length
decreasing_by exact Nat.lt_succ_of_le (List.length_filter_le _ _)

/-- Each base is left once. -/
theorem nodup_firstsOfBase (ds : List Declaration) : ((firstsOfBase ds).map Prod.snd).Nodup := by
  match ds with
  | [] => exact List.nodup_nil
  | d :: ds =>
    rw [firstsOfBase_cons, List.map_cons, List.nodup_cons]
    refine ⟨fun hmem ↦ ?_, nodup_firstsOfBase _⟩
    obtain ⟨e, he, hbase⟩ := List.mem_map.1 hmem
    have hne := (List.mem_filter.1 (firstsOfBase_subset _ he)).2
    exact of_decide_eq_true hne hbase
termination_by ds.length
decreasing_by exact Nat.lt_succ_of_le (List.length_filter_le _ _)

/-! ### Bases that are reached -/

/-- The bases that are reached from the app: its pages, and all that is declared on the way. -/
inductive Reaches (p : Project) : Path → Prop
  | page {m : AppManifest} {route : String} (hm : p.appManifest = .ok m)
      (hroute : route ∈ m.pages) : Reaches p (pageBase route)
  | component {base target : Path} {m : UnitManifest} {declared : String × String}
      (hbase : Reaches p base) (hm : p.unitManifest base = .ok m)
      (hdeclared : declared ∈ m.usingComponents.entries)
      (htarget : resolveComponent? base declared.2 = some target) : Reaches p target

/-- The keys that occur in a project. -/
def keys (p : Project) : Set String :=
  {key | ∃ base, p.Reaches base ∧ keyOf base = key}

/-- What has the pages, and has all that is declared at its bases, has all bases that are reached. -/
theorem Reaches.mem_of_closed {p : Project} {bases : List Path}
    (hpages : p.appManifest.map (fun m ↦ m.pages.all fun route ↦ pageBase route ∈ bases) =
      .ok true)
    (hunits : ∀ base ∈ bases, (p.unitManifest base).map (fun m ↦ m.usingComponents.entries.all
      fun declared ↦ (resolveComponent? base declared.2).all (· ∈ bases)) = .ok true)
    {base : Path} (h : p.Reaches base) : base ∈ bases := by
  induction h with
  | page hm hroute =>
    obtain ⟨m, hm', hall⟩ := Outcome.map_eq_ok.1 hpages
    obtain rfl := Except.ok.inj (hm.symm.trans hm')
    exact of_decide_eq_true (List.all_eq_true.1 hall _ hroute)
  | component _ hm hdeclared htarget ih =>
    obtain ⟨m, hm', hall⟩ := Outcome.map_eq_ok.1 (hunits _ ih)
    obtain rfl := Except.ok.inj (hm.symm.trans hm')
    have htargets := List.all_eq_true.1 hall _ hdeclared
    rw [htarget] at htargets
    exact of_decide_eq_true htargets

/-- Identities tell keys from each other if they tell those of some bases from each other that have
all that are reached. -/
theorem injOn_keys {p : Project} (bases : List Path)
    (hbases : ∀ {base}, p.Reaches base → base ∈ bases)
    (hnodup : (bases.map fun base ↦ contentIdentity (keyOf base)).Nodup) :
    Set.InjOn contentIdentity p.keys := by
  rintro _ ⟨base, hbase, rfl⟩ _ ⟨base', hbase', rfl⟩ hid
  exact congrArg keyOf (List.inj_on_of_nodup_map hnodup (hbases hbase) (hbases hbase') hid)

theorem Reaches.exists_normalize {p : Project} {base : Path} (h : p.Reaches base) :
    ∃ q : Path, base = q.normalize := by
  cases h with
  | page _ _ => exact ⟨_, rfl⟩
  | component _ _ _ htarget =>
    rw [resolveComponent?_eq] at htarget
    split at htarget
    · cases htarget
    · split at htarget
      · cases htarget
      · exact ⟨_, (Option.some.inj htarget).symm⟩

/-- Keys tell the bases that are reached from each other. -/
theorem Reaches.keyOf_inj {p : Project} {base base' : Path} (h : p.Reaches base)
    (h' : p.Reaches base') (hkey : keyOf base = keyOf base') : base = base' := by
  obtain ⟨q, rfl⟩ := h.exists_normalize
  obtain ⟨q', rfl⟩ := h'.exists_normalize
  exact Path.projectKey_injective hkey

/-- Where identities tell keys from each other, they tell bases from each other. -/
theorem Reaches.identity_inj {p : Project} (hinj : Set.InjOn contentIdentity p.keys)
    {base base' : Path} (h : p.Reaches base) (h' : p.Reaches base')
    (hid : contentIdentity (keyOf base) = contentIdentity (keyOf base')) : base = base' :=
  h.keyOf_inj h' (hinj ⟨base, h, rfl⟩ ⟨base', h', rfl⟩ hid)

end AppletBundle.Project
