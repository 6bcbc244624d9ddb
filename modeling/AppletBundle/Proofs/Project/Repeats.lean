import AppletBundle.Proofs.Project.Declaration
import AppletBundle.Proofs.Project.Loading

/-!
# Components that are declared again

A tag for a component that the same page or component has declared before says nothing about the
graph. `Spares` relates a project to one whose manifests leave out some of these tags, or all of
them, and `Spares.load_eq_ok_iff` says that both are loaded to the same graph. Only bases that are
reached are compared, as nothing else is read.
-/

namespace AppletBundle.Project

open AssetGraph

/-- The second list is the first without some declarations of places that lead where an earlier one
leads; what is declared before the lists leads to `seen`. -/
inductive WithoutRepeats (base : Path) :
    List Path → List (String × String) → List (String × String) → Prop
  | nil {seen : List Path} : WithoutRepeats base seen [] []
  | keep {seen : List Path} {declared : String × String} {es es' : List (String × String)}
      (h : WithoutRepeats base (seen ++ (resolveComponent? base declared.2).toList) es es') :
      WithoutRepeats base seen (declared :: es) (declared :: es')
  | drop {seen : List Path} {declared : String × String} {es es' : List (String × String)}
      {target : Path} (htarget : resolveComponent? base declared.2 = some target)
      (hseen : target ∈ seen) (h : WithoutRepeats base seen es es') :
      WithoutRepeats base seen (declared :: es) es'

/-- `q` is `p` with some repeated declarations left out of the manifests of pages and components. -/
structure Spares (p q : Project) : Prop where
  appManifest : q.appManifest = p.appManifest
  files : q.files.entries.length = p.files.entries.length
  siblings : ∀ base, base = appBase ∨ p.Reaches base → q.siblings base = p.siblings base
  unitManifest : ∀ base, p.Reaches base → q.unitManifest base = p.unitManifest base ∨
    ∃ m m', p.unitManifest base = .ok m ∧ q.unitManifest base = .ok m' ∧
      WithoutRepeats base [] m.usingComponents.entries m'.usingComponents.entries

theorem WithoutRepeats.refl (base : Path) (seen : List Path) (es : List (String × String)) :
    WithoutRepeats base seen es es := by
  induction es generalizing seen with
  | nil => exact .nil
  | cons e es ih => exact .keep (ih _)

/-- Modules at a base are found alike, and what lies below is added alike. -/
def SameAt (find find' : Finder) (descend descend' : Descent) (base : Path) : Prop :=
  find' base = find base ∧ ∀ id chain g g',
    descend' id base chain g = .ok g' ↔ descend id base chain g = .ok g'

section fold

variable {find find' : Finder} {descend descend' : Descent} {parent : AssetId} {base : Path}
  {chain : List String} {seen : List Path} {es es' : List (String × String)}

theorem loadComponent_congr {declared : String × String}
    (hsame : ∀ target, resolveComponent? base declared.2 = some target →
      SameAt find find' descend descend' target) (g g' : AssetGraph) :
    loadComponent find' descend' parent base chain g declared = .ok g' ↔
      loadComponent find descend parent base chain g declared = .ok g' := by
  obtain ⟨tag, place⟩ := declared
  rcases hplace : resolveComponent? base place with - | target
  · rw [loadComponent_of_eq_none hplace, loadComponent_of_eq_none hplace]
  · obtain ⟨hfind, hdescend⟩ := hsame target hplace
    rw [loadComponent_eq_ok_iff hplace, loadComponent_eq_ok_iff hplace, hfind]
    simp only [hdescend]

/-- **What is left out would have changed nothing**, as all that it declares is there. -/
theorem WithoutRepeats.foldlM_eq_ok_iff (h : WithoutRepeats base seen es es')
    (hsettles : ∀ id base chain, Settles (descend id base chain))
    (hsame : ∀ declared ∈ es, ∀ target, resolveComponent? base declared.2 = some target →
      SameAt find find' descend descend' target) {g g' : AssetGraph}
    (hpresent : ∀ target ∈ seen, Present find descend parent chain g target) :
    es'.foldlM (loadComponent find' descend' parent base chain) g = .ok g' ↔
      es.foldlM (loadComponent find descend parent base chain) g = .ok g' := by
  induction h generalizing g with
  | nil => rw [List.foldlM_nil, List.foldlM_nil]
  | @keep seen declared es es' _ ih =>
    rw [List.foldlM_cons, List.foldlM_cons, Outcome.bind_eq_ok, Outcome.bind_eq_ok]
    refine exists_congr fun g₁ ↦ ?_
    rw [loadComponent_congr (hsame declared List.mem_cons_self)]
    refine and_congr_right fun hstep ↦
      ih (fun e he ↦ hsame e (List.mem_cons_of_mem _ he)) fun target htarget ↦ ?_
    have hext := (settles_loadComponent hsettles declared g g₁ hstep).1
    rcases List.mem_append.1 htarget with htarget | htarget
    · exact (hpresent target htarget).mono hext
    · exact (present_of_loadComponent hsettles (Option.mem_toList.1 htarget) hstep).2
  | @drop seen declared es es' target htarget hseen _ ih =>
    have hnothing : loadComponent find descend parent base chain g declared = .ok g :=
      (hpresent target hseen).loadComponent_eq htarget
    rw [List.foldlM_cons, hnothing]
    exact ih (fun e he ↦ hsame e (List.mem_cons_of_mem _ he)) hpresent

end fold

namespace Spares

variable {p q : Project} (h : p.Spares q)

include h

/-- The components of a base are added alike. -/
theorem read_eq_ok_iff {find find' : Finder} {descend descend' : Descent} {base : Path}
    (hbase : p.Reaches base) (hsettles : ∀ id base chain, Settles (descend id base chain))
    (hsame : ∀ target, p.Reaches target → SameAt find find' descend descend' target)
    (id : AssetId) (chain : List String) (g g' : AssetGraph) :
    (q.unitManifest base >>= fun m ↦
        m.usingComponents.entries.foldlM (loadComponent find' descend' id base chain) g) =
          .ok g' ↔
      (p.unitManifest base >>= fun m ↦
        m.usingComponents.entries.foldlM (loadComponent find descend id base chain) g) =
          .ok g' := by
  have hrepeats : ∀ {m m' : UnitManifest}, p.unitManifest base = .ok m →
      WithoutRepeats base [] m.usingComponents.entries m'.usingComponents.entries →
      (m'.usingComponents.entries.foldlM (loadComponent find' descend' id base chain) g = .ok g' ↔
        m.usingComponents.entries.foldlM (loadComponent find descend id base chain) g = .ok g') :=
    fun hm hwithout ↦ hwithout.foldlM_eq_ok_iff hsettles
      (fun _ hdeclared target htarget ↦ hsame target (.component hbase hm hdeclared htarget))
      fun _ ht ↦ absurd ht List.not_mem_nil
  rcases h.unitManifest base hbase with heq | ⟨m, m', hm, hm', hwithout⟩
  · rw [heq]
    rcases hm : p.unitManifest base with f | m
    · exact ⟨fun h ↦ (by cases h), fun h ↦ (by cases h)⟩
    · exact hrepeats hm (.refl base [] _)
  · rw [hm, hm']
    exact hrepeats hm hwithout

theorem loadComponents_eq_ok_iff (depth : ℕ) (id : AssetId) {base : Path} (hbase : p.Reaches base)
    (chain : List String) (g g' : AssetGraph) :
    q.loadComponents depth id base chain g = .ok g' ↔
      p.loadComponents depth id base chain g = .ok g' := by
  induction depth generalizing id base chain g g' with
  | zero =>
    exact h.read_eq_ok_iff hbase (fun _ _ _ ↦ settles_ok)
      (fun _ _ ↦ ⟨rfl, fun _ _ _ _ ↦ Iff.rfl⟩) _ _ _ _
  | succ depth ih =>
    exact h.read_eq_ok_iff hbase (p.settles_loadComponents depth) (fun target htarget ↦
      ⟨h.siblings target (.inr htarget), fun id chain g g' ↦ ih id htarget chain g g'⟩) _ _ _ _

theorem loadPage_eq_ok_iff {m : AppManifest} {route : String} (hm : p.appManifest = .ok m)
    (hroute : route ∈ m.pages) (app : AssetId) (g g' : AssetGraph) :
    q.loadPage app g route = .ok g' ↔ p.loadPage app g route = .ok g' := by
  have hbase : p.Reaches (pageBase route) := .page hm hroute
  rw [loadPage, loadPage, h.siblings _ (.inr hbase)]
  simp only [Outcome.bind_eq_ok, h.loadComponents_eq_ok_iff _ _ hbase]

/-- **A project is loaded to the same graph** with repeated declarations and without. -/
theorem load_eq_ok_iff (g : AssetGraph) : q.load = .ok g ↔ p.load = .ok g := by
  have hpages : ∀ {m : AppManifest}, p.appManifest = .ok m → ∀ (app : AssetId)
      (routes : List String), routes ⊆ m.pages → ∀ g g' : AssetGraph,
      routes.foldlM (q.loadPage app) g = .ok g' ↔ routes.foldlM (p.loadPage app) g = .ok g' := by
    intro m hm app routes
    induction routes with
    | nil =>
      intro _ g g'
      rw [List.foldlM_nil, List.foldlM_nil]
    | cons route routes ih =>
      intro hsub g g'
      obtain ⟨hroute, hroutes⟩ := List.cons_subset.1 hsub
      simp only [List.foldlM_cons, Outcome.bind_eq_ok, h.loadPage_eq_ok_iff hm hroute, ih hroutes]
  rw [load, load, h.appManifest, h.siblings appBase (.inl rfl)]
  simp only [Outcome.bind_eq_ok]
  refine exists_congr fun m ↦ and_congr_right fun hm ↦ ?_
  simp only [hpages hm _ _ (List.Subset.refl _)]

end Spares

end AppletBundle.Project
