import AppletBundle.Entry.Emission
import AppletBundle.Proofs.Files.Action

/-!
# Copying runtime files

The runtime files are copied while their directory is walked over, so every step works on a tree
that the steps before it have changed. But no step writes where the walk reads (`Apart`), and what a
step adds elsewhere is files at their places and directories (`RuntimeCopy`). So the files that the
walk meets are those that were there before it, and steps are put together to walks
(`RuntimeCopy.append`, `Walked.append`).

A walk meets the files below a directory in the order of their names, that of the directories above
deciding first: in the lexicographic order of the names that lead to them (`lt_of_within`).
-/

namespace AppletBundle

open FileTree

/-- All files below a location, each by the names that lead there, in the order of a walk that goes
down as it comes by a directory and takes names in ascending order. -/
structure FileTree.AreFilesBelow (t : FileTree) (l : Location) (rs : List Location) : Prop where
  ascending : rs.Pairwise (· < ·)
  mem_iff : ∀ r, r ∈ rs ↔ (t.fileAt? (l ++ r)).isSome

namespace Entry

/-! ### Paths of runtime files -/

/-- The path to which names lead, as a walk writes it. -/
def below (root : Path) (r : Location) : Path :=
  r.foldl (fun p n ↦ p.join ⟨n⟩) root

theorem below_concat (root : Path) (r : Location) (n : String) :
    below root (r ++ [n]) = (below root r).join ⟨n⟩ := by
  rw [below, List.foldl_append]
  rfl

/-- The place of a runtime file by its names, seen from the directory of the bundles. -/
def runtimePlace (r : Location) : Path :=
  Path.ofNames ("runtime" :: r)

/-- A module is a script or a style sheet. -/
def isModule (p : Path) : Bool :=
  (moduleKind? p).isSome

theorem isModule_iff {p : Path} :
    isModule p ↔ p.extension? = some "js" ∨ p.extension? = some "css" := by
  unfold isModule moduleKind?
  split <;> simp_all

theorem isFileName_runtime : Path.IsFileName "runtime" :=
  ⟨by decide, by decide⟩

section Names

variable {r : Location} (hr : ∀ n ∈ r, Path.IsFileName n)

include hr

theorem isFileName_of_mem_runtime : ∀ n ∈ "runtime" :: r, Path.IsFileName n :=
  List.forall_mem_cons.2 ⟨isFileName_runtime, hr⟩

theorem below_eq (root : Path) (hne : r ≠ []) : below root r = root.join (Path.ofNames r) := by
  induction r using List.reverseRecOn with
  | nil => exact absurd rfl hne
  | append_singleton r n ih =>
    have hn : Path.IsFileName n := hr n (by simp)
    have hinit : ∀ m ∈ r, Path.IsFileName m := fun m hm ↦ hr m (List.mem_append_left _ hm)
    rw [below_concat]
    by_cases hnil : r = []
    · rw [hnil]
      simp [below, Path.ofNames]
    · rw [← Path.join_ofNames_join hinit hnil hn, ← ih hinit hnil]

theorem locationOf_below (t : FileTree) (root : Path) :
    t.locationOf (below root r) = t.locationOf root ++ r := by
  by_cases hnil : r = []
  · rw [hnil, List.append_nil]
    rfl
  · rw [below_eq hr root hnil, locationOf_join_names t root hr hnil]

theorem placeOf_below (root : Path) (hne : r ≠ []) :
    Emitter.placeOf root (below root r) = runtimePlace r := by
  rw [Emitter.placeOf, below_eq hr root hne, Path.stripPrefix?_join_names hr hne,
    Option.getD_some]
  exact isFileName_runtime.join_ofNames hr hne

/-- A runtime file is a module exactly if its place is one. -/
theorem moduleKind?_below (root : Path) (hne : r ≠ []) :
    moduleKind? (below root r) = moduleKind? (runtimePlace r) := by
  have hlast : (below root r).components.getLast? = (runtimePlace r).components.getLast? := by
    have hnames : r.map Path.Component.normal ≠ [] := by simpa using hne
    rw [below_eq hr root hne, (Path.isInner_ofNames hr).components_join, Path.components_ofNames hr,
      runtimePlace, Path.components_ofNames (isFileName_of_mem_runtime hr), List.map_cons,
      List.getLast?_append_of_ne_nil _ hnames, List.getLast?_cons_of_ne_nil hnames]
  rw [moduleKind?, moduleKind?, Path.extension?, Path.extension?, Path.fileName?, Path.fileName?,
    hlast]

theorem locationOf_join_runtimePlace (t : FileTree) (outDir : Path) :
    t.locationOf (outDir.join (runtimePlace r)) = t.locationOf outDir ++ "runtime" :: r :=
  locationOf_join_names t outDir (isFileName_of_mem_runtime hr) (List.cons_ne_nil _ _)

end Names

theorem locationOf_join_pageName (t : FileTree) (outDir : Path) :
    t.locationOf (outDir.join pageName) = t.locationOf outDir ++ ["index.html"] := by
  have hname : Path.IsFileName "index.html" := ⟨by decide, by decide⟩
  have hself : pageName = Path.ofNames ["index.html"] := by simp [pageName, Path.ofNames]
  rw [hself]
  exact locationOf_join_names t outDir (by simpa using hname) (List.cons_ne_nil _ _)

/-! ### Copies -/

/-- Runtime files have been copied from one location to another, and these are the places of the
modules among them. Nothing but directories has been added beside. -/
structure RuntimeCopy (t t' : FileTree) (source target : Location) (rs : List Location)
    (places : List Path) : Prop where
  workDir : t'.workDir = t.workDir
  isTree : t'.IsTree
  copied : ∀ r ∈ rs, t'.fileAt? (target ++ r) = t.fileAt? (source ++ r)
  kept : ∀ l, (∀ r ∈ rs, l ≠ target ++ r) → t'.fileAt? l = t.fileAt? l
  places_eq : places = (rs.map runtimePlace).filter isModule

/-- No location below the one is below the other. -/
def Apart (source target : Location) : Prop :=
  ∀ r s, source ++ r ≠ target ++ s

theorem apart_of_not_below {source out : Location} (hsource : ¬ source <+: out)
    (hout : ¬ out <+: source) (below : Location) : Apart source (out ++ below) := by
  intro r s h
  rw [List.append_assoc] at h
  rcases List.prefix_or_prefix_of_prefix (List.prefix_append source r)
    (h ▸ List.prefix_append out (below ++ s)) with hbelow | hbelow
  · exact hsource hbelow
  · exact hout hbelow

namespace RuntimeCopy

variable {t t' t'' : FileTree} {source target : Location} {rs rs' : List Location}
  {places places' : List Path}

theorem of_grown (ht : t.IsTree) (h : Grown t t') : RuntimeCopy t t' source target [] [] :=
  ⟨h.workDir, h.isTree ht, fun _ hr ↦ absurd hr List.not_mem_nil, fun l _ ↦ h.fileAt? l, rfl⟩

theorem locationOf (h : RuntimeCopy t t' source target rs places) (p : Path) :
    t'.locationOf p = t.locationOf p := by
  rw [FileTree.locationOf, h.workDir, FileTree.locationOf]

/-- **No step writes where the walk reads.** -/
theorem fileAt?_source (h : RuntimeCopy t t' source target rs places) (hapart : Apart source target)
    (r : Location) : t'.fileAt? (source ++ r) = t.fileAt? (source ++ r) :=
  h.kept _ fun s _ ↦ hapart r s

/-- **Copies are put together.** -/
theorem append (h : RuntimeCopy t t' source target rs places)
    (h' : RuntimeCopy t' t'' source target rs' places') (hapart : Apart source target) :
    RuntimeCopy t t'' source target (rs ++ rs') (places ++ places') := by
  refine ⟨h'.workDir.trans h.workDir, h'.isTree, fun r hr ↦ ?_, fun l hl ↦ ?_, ?_⟩
  · by_cases hr' : r ∈ rs'
    · rw [h'.copied r hr', h.fileAt?_source hapart]
    · have hfirst := (List.mem_append.1 hr).resolve_right hr'
      rw [h'.kept, h.copied r hfirst]
      rintro s hs heq
      exact hr' (List.append_cancel_left heq ▸ hs)
  · rw [h'.kept l fun r hr ↦ hl r (List.mem_append_right rs hr),
      h.kept l fun r hr ↦ hl r (List.mem_append_left rs' hr)]
  · rw [h.places_eq, h'.places_eq, List.map_append, List.filter_append]

end RuntimeCopy

/-! ### One file -/

variable {e : Emitter} {root : Path} {t t' : FileTree} {places : List Path} {r : Location}

theorem of_copyRuntimeFile_eq_ok (hminify : e.minify = false) {p : Path}
    (h : (e.copyRuntimeFile root p).runOn t = (.ok places, t')) :
    ∃ t₁ u, Grown t t₁ ∧
      (FileAction.copy p (e.outDir.join (Emitter.placeOf root p))).runOn t₁ = (.ok u, t') ∧
      places = if isModule p then [Emitter.placeOf root p] else [] := by
  unfold Emitter.copyRuntimeFile at h
  obtain ⟨u, t₁, hparent, h⟩ := FileAction.bind_eq_ok.1 h
  have hgrown := FileAction.grown_makeParent hparent
  rw [hminify] at h
  unfold isModule
  cases hkind : moduleKind? p with
  | none =>
    rw [hkind] at h
    obtain ⟨u, t₂, hcopy, h⟩ := FileAction.bind_eq_ok.1 h
    obtain ⟨rfl, rfl⟩ := FileAction.pure_eq_ok.1 h
    exact ⟨t₁, u, hgrown, hcopy, rfl⟩
  | some kind =>
    rw [hkind] at h
    obtain ⟨u, t₂, hcopy, h⟩ := FileAction.bind_eq_ok.1 h
    obtain ⟨rfl, rfl⟩ := FileAction.pure_eq_ok.1 h
    exact ⟨t₁, u, hgrown, hcopy, rfl⟩

/-- **The runtime is no file**: nothing can be written at its place. -/
theorem copyRuntimeFile_root_ne_ok (hminify : e.minify = false) :
    (e.copyRuntimeFile root root).runOn t ≠ (.ok places, t') := by
  intro h
  obtain ⟨t₁, u, -, hcopy, -⟩ := of_copyRuntimeFile_eq_ok hminify h
  have hend : (e.outDir.join (Emitter.placeOf root root)).text.endsWith "/" := by
    have hempty : (⟨""⟩ : Path).isAbsolute = false := by
      rw [Bool.eq_false_iff, Ne, Path.isAbsolute_iff]
      decide
    have hnonempty : runtimeDirectory.text ≠ "" := by decide
    obtain ⟨s, hs⟩ := Path.exists_text_join hempty hnonempty
    rw [Emitter.placeOf, Path.stripPrefix?_self]
    exact Path.endsWith_join _ (Path.endsWith_separator_iff.2 ⟨s, hs⟩)
  replace hcopy := FileAction.blaming_eq_ok.1 hcopy
  split at hcopy
  · cases hcopy
  split at hcopy
  · cases hcopy
  · rename_i hwritten
    exact writeFile_ne_ok_of_endsWith hend _ hwritten

/-- **One step of the walk copies a file.** -/
theorem runtimeCopy_of_copyRuntimeFile (hminify : e.minify = false) (ht : t.IsTree)
    (hapart : Apart (t.locationOf root) (t.locationOf e.outDir ++ ["runtime"]))
    (hr : ∀ n ∈ r, Path.IsFileName n)
    (h : (e.copyRuntimeFile root (below root r)).runOn t = (.ok places, t')) :
    RuntimeCopy t t' (t.locationOf root) (t.locationOf e.outDir ++ ["runtime"]) [r] places := by
  have hne : r ≠ [] := by
    rintro rfl
    exact copyRuntimeFile_root_ne_ok hminify h
  obtain ⟨t₁, u, hgrown, hcopy, rfl⟩ := of_copyRuntimeFile_eq_ok hminify h
  have hlocation : ∀ p, t₁.locationOf p = t.locationOf p :=
    fun p ↦ by rw [locationOf, hgrown.workDir, locationOf]
  have hsource : t₁.locationOf (below root r) = t.locationOf root ++ r := by
    rw [hlocation, locationOf_below hr]
  have htarget : t₁.locationOf (e.outDir.join (runtimePlace r)) =
      t.locationOf e.outDir ++ ["runtime"] ++ r := by
    rw [hlocation, locationOf_join_runtimePlace hr, List.append_assoc, List.singleton_append]
  rw [placeOf_below hr root hne] at hcopy ⊢
  obtain ⟨content, hcontent, hholding⟩ := FileAction.holding_of_copy (hgrown.isTree ht)
    (by rw [hsource, htarget]; exact hapart r r) hcopy
  rw [hsource, hgrown.fileAt?] at hcontent
  rw [htarget] at hholding
  refine ⟨hholding.workDir.trans hgrown.workDir, hholding.isTree, fun s hs ↦ ?_, fun l hl ↦ ?_, ?_⟩
  · rw [List.mem_singleton.1 hs, hholding.fileAt?, if_pos rfl, hcontent]
  · rw [hholding.fileAt?, if_neg (hl r (List.mem_singleton_self r)), hgrown.fileAt?]
  · rw [isModule, moduleKind?_below hr root hne, List.map_singleton, List.filter_singleton,
      isModule, Bool.cond_eq_ite]

/-! ### The walk -/

/-- The locations at and below one, down to a depth. -/
def Within (r : Location) (depth : ℕ) (x : Location) : Prop :=
  r <+: x ∧ x.length < r.length + depth

/-- A walk has copied the files among the locations that it reaches, in ascending order. -/
structure Walked (t t' : FileTree) (source target : Location) (reach : Location → Prop)
    (rs : List Location) (places : List Path) : Prop
    extends RuntimeCopy t t' source target rs places where
  ascending : rs.Pairwise (· < ·)
  mem_iff : ∀ r, r ∈ rs ↔ reach r ∧ (t.fileAt? (source ++ r)).isSome

namespace Walked

variable {t'' : FileTree} {source target : Location} {reach reach' : Location → Prop}
  {rs rs' : List Location} {places' : List Path}

/-- A walk that reaches nothing. -/
theorem of_not_reach (ht : t.IsTree) (hreach : ∀ x, ¬ reach x) :
    Walked t t source target reach [] [] where
  toRuntimeCopy := .of_grown ht (.refl t)
  ascending := .nil
  mem_iff x := iff_of_false List.not_mem_nil fun hx ↦ hreach x hx.1

/-- Only files matter among what is reached. -/
theorem congr (h : Walked t t' source target reach rs places)
    (hreach : ∀ x, (t.fileAt? (source ++ x)).isSome → (reach x ↔ reach' x)) :
    Walked t t' source target reach' rs places where
  toRuntimeCopy := h.toRuntimeCopy
  ascending := h.ascending
  mem_iff x := (h.mem_iff x).trans (and_congr_left (hreach x))

/-- **A walk and one behind it are a walk.** -/
theorem append (h : Walked t t' source target reach rs places)
    (h' : Walked t' t'' source target reach' rs' places') (hapart : Apart source target)
    (hlt : ∀ x y, reach x → reach' y → x < y) :
    Walked t t'' source target (fun x ↦ reach x ∨ reach' x) (rs ++ rs') (places ++ places') where
  toRuntimeCopy := h.toRuntimeCopy.append h'.toRuntimeCopy hapart
  ascending := List.pairwise_append.2 ⟨h.ascending, h'.ascending, fun x hx y hy ↦
    hlt x y ((h.mem_iff x).1 hx).1 ((h'.mem_iff y).1 hy).1⟩
  mem_iff x := by
    rw [List.mem_append, h.mem_iff, h'.mem_iff, h.fileAt?_source hapart, or_and_right]

end Walked

/-- What is below a name comes before what is below a greater one. -/
theorem lt_of_within {depth : ℕ} {n m : String} (hlt : n < m) {x y : Location}
    (hx : Within (r ++ [n]) depth x) (hy : Within (r ++ [m]) depth y) : x < y := by
  obtain ⟨⟨x, rfl⟩, -⟩ := hx
  obtain ⟨⟨y, rfl⟩, -⟩ := hy
  rw [List.append_assoc, List.append_assoc]
  exact List.append_left_lt (List.cons_lt_cons_iff.2 (.inl hlt))

/-- At a file a walk reaches no other file. -/
theorem within_iff_of_isSome (ht : t.IsTree) {source : Location} {depth : ℕ}
    (hfile : (t.fileAt? (source ++ r)).isSome) {x : Location}
    (hx : (t.fileAt? (source ++ x)).isSome) : Within r (depth + 1) x ↔ x = r := by
  constructor
  · rintro ⟨⟨y, rfl⟩, -⟩
    by_contra hne
    have hy : y ≠ [] := fun hnil ↦ hne (by rw [hnil, List.append_nil])
    rw [← List.append_assoc] at hx
    have hdirectory := ht.hasDirectory_above hy (isSome_entry?_of_fileAt? hx)
    rw [fileAt?_eq_none_of_hasDirectory hdirectory] at hfile
    cases hfile
  · rintro rfl
    exact ⟨List.prefix_rfl, by omega⟩

/-- In a directory a walk reaches the files below the names there. -/
theorem within_iff_of_hasDirectory (ht : t.IsTree) {source : Location} {depth : ℕ}
    (hdirectory : t.hasDirectory (source ++ r)) {x : Location}
    (hx : (t.fileAt? (source ++ x)).isSome) :
    Within r (depth + 1) x ↔ ∃ n ∈ t.names (source ++ r), Within (r ++ [n]) depth x := by
  constructor
  · rintro ⟨⟨y, rfl⟩, hlength⟩
    cases y with
    | nil =>
      rw [List.append_nil, fileAt?_eq_none_of_hasDirectory hdirectory] at hx
      cases hx
    | cons n y =>
      have hsplit : r ++ n :: y = r ++ [n] ++ y := by simp
      refine ⟨n, mem_names_iff.2 ?_, ⟨y, hsplit.symm⟩, ?_⟩
      · rw [hsplit, ← List.append_assoc, ← List.append_assoc] at hx
        have hentry := isSome_entry?_of_fileAt? hx
        by_cases hy : y = []
        · rwa [hy, List.append_nil] at hentry
        · rw [hasDirectory_iff.1 (ht.hasDirectory_above hy hentry)]
          rfl
      · simp only [List.length_append, List.length_cons, List.length_nil] at hlength ⊢
        omega
  · rintro ⟨n, -, hbelow, hlength⟩
    rw [List.length_append, List.length_singleton] at hlength
    exact ⟨(List.prefix_append r [n]).trans hbelow, by omega⟩

/-- The trees on which the walk goes on: their paths lead to the same locations. -/
structure Ready (e : Emitter) (root : Path) (source target : Location) (t : FileTree) : Prop where
  isTree : t.IsTree
  source_eq : t.locationOf root = source
  target_eq : t.locationOf e.outDir ++ ["runtime"] = target

theorem RuntimeCopy.ready {source target : Location} {rs : List Location}
    (h : RuntimeCopy t t' source target rs places) (ht : Ready e root source target t) :
    Ready e root source target t' :=
  ⟨h.isTree, (h.locationOf root).trans ht.source_eq, by rw [h.locationOf, ht.target_eq]⟩

section Walk

variable {source target : Location} (hapart : Apart source target) {lost : FileFault → Failure}

include hapart

/-- **The names in a directory are walked over** if each of them is. -/
theorem exists_walked_names {depth : ℕ} {ns : List String} (hns : ns.Pairwise (· < ·))
    (hstep : ∀ n ∈ ns, ∀ {t t' : FileTree} {places}, Ready e root source target t →
      (FileAction.walk lost (e.copyRuntimeFile root) depth (below root (r ++ [n]))).runOn t =
        (.ok places, t') →
      ∃ rs, Walked t t' source target (Within (r ++ [n]) depth) rs places)
    (ht : Ready e root source target t) {found : List (List Path)}
    (h : (ns.mapM fun n ↦ FileAction.walk lost (e.copyRuntimeFile root) depth
      ((below root r).join ⟨n⟩)).runOn t = (.ok found, t')) :
    ∃ rs, Walked t t' source target (fun x ↦ ∃ n ∈ ns, Within (r ++ [n]) depth x) rs
      found.flatten := by
  induction ns generalizing t found with
  | nil =>
    obtain ⟨rfl, rfl⟩ := FileAction.mapM_nil_eq_ok.1 h
    exact ⟨[], .of_not_reach ht.isTree fun x ⟨n, hn, _⟩ ↦ absurd hn List.not_mem_nil⟩
  | cons n ns ih =>
    obtain ⟨hlt, hns⟩ := List.pairwise_cons.1 hns
    obtain ⟨places, t₁, found, hfirst, hrest, rfl⟩ := FileAction.mapM_cons_eq_ok.1 h
    rw [← below_concat] at hfirst
    obtain ⟨rs, hwalked⟩ := hstep n List.mem_cons_self ht hfirst
    obtain ⟨rs', hwalked'⟩ := ih hns (fun m hm ↦ hstep m (List.mem_cons_of_mem n hm))
      (hwalked.ready ht) hrest
    have hall := hwalked.append hwalked' hapart fun x y hx ⟨m, hm, hy⟩ ↦
      lt_of_within (hlt m hm) hx hy
    exact ⟨rs ++ rs', hall.congr fun x _ ↦ by simp⟩

/-- **The files that are reached are copied.** -/
theorem exists_walked (hminify : e.minify = false) {depth : ℕ} (hr : ∀ n ∈ r, Path.IsFileName n)
    (ht : Ready e root source target t)
    (h : (FileAction.walk lost (e.copyRuntimeFile root) depth (below root r)).runOn t =
      (.ok places, t')) :
    ∃ rs, Walked t t' source target (Within r depth) rs places := by
  induction depth generalizing r t t' places with
  | zero =>
    obtain ⟨rfl, rfl⟩ := FileAction.walk_zero_eq_ok.1 h
    refine ⟨[], .of_not_reach ht.isTree fun x ⟨hbelow, hlength⟩ ↦ ?_⟩
    exact absurd hbelow.length_le (Nat.not_le_of_lt hlength)
  | succ depth ih =>
    have hlocation : t.locationOf (below root r) = source ++ r := by
      rw [locationOf_below hr, ht.source_eq]
    rcases FileAction.walk_succ_eq_ok.1 h with ⟨hlist, h⟩ | ⟨ns, found, hlist, h, rfl⟩
    · obtain ⟨-, hfile⟩ | ⟨⟨⟩, -⟩ := of_list_eq hlist
      rw [hlocation] at hfile
      have hcopy : RuntimeCopy t t' source target [r] places := by
        rw [← ht.source_eq, ← ht.target_eq]
        refine runtimeCopy_of_copyRuntimeFile hminify ht.isTree ?_ hr h
        rwa [ht.source_eq, ht.target_eq]
      have hone : Walked t t' source target (· = r) [r] places := by
        refine ⟨hcopy, List.pairwise_singleton _ r, fun x ↦ ?_⟩
        rw [List.mem_singleton]
        exact ⟨fun hx ↦ ⟨hx, hx ▸ hfile⟩, And.left⟩
      exact ⟨[r], hone.congr fun x hx ↦ (within_iff_of_isSome ht.isTree hfile hx).symm⟩
    · obtain ⟨⟨⟩, -⟩ | ⟨hfound, hdirectory⟩ := of_list_eq hlist
      rw [hlocation] at hfound hdirectory
      obtain rfl := Listing.directory.inj hfound
      have hnames : ∀ n ∈ t.names (source ++ r), ∀ m ∈ r ++ [n], Path.IsFileName m := by
        intro n hn m hm
        rcases List.mem_append.1 hm with hm | hm
        · exact hr m hm
        · rw [List.mem_singleton.1 hm]
          exact ht.isTree.isFileName_of_mem (mem_names_iff.1 hn)
      obtain ⟨rs, hwalked⟩ := exists_walked_names hapart (ht.isTree.pairwise_names _)
        (fun n hn ↦ ih (hnames n hn)) ht h
      exact ⟨rs, hwalked.congr fun x hx ↦
        (within_iff_of_hasDirectory ht.isTree hdirectory hx).symm⟩

end Walk

/-! ### Emitting -/

/-- The failure of a walk at a path that leads nowhere. -/
def listingFailure (root : Path) (fault : FileFault) : Failure :=
  (Failure.ofCause (.format .listing fault.message)).inStep
    ("Failed to read runtime directory " ++ root.quoted)

/-- Copying the runtime is a walk over its directory. -/
theorem copyRuntime_eq_ok :
    (e.copyRuntime root).runOn t = (.ok places, t') ↔
      (FileAction.walk (listingFailure root) (e.copyRuntimeFile root) (t.depthBound e.outDir)
        root).runOn t = (.ok places, t') := by
  refine FileAction.bind_eq_ok.trans ⟨?_, fun h ↦ ?_⟩
  · rintro ⟨depth, t₁, hdepth, h⟩
    obtain ⟨hbound, rfl⟩ := FileAction.reading_eq_ok.1 hdepth
    obtain rfl := Except.ok.inj hbound
    exact h
  · exact ⟨_, t, FileAction.reading_eq_ok.2 ⟨rfl, rfl⟩, h⟩

/-- **The entry page is written last**, for the runtime that has been copied. -/
theorem emit_eq_ok {c : BuildContext} {page : Path} :
    (e.emit (some root) c).runOn t = (.ok page, t') ↔ ∃ loaded t₁ t₂,
      (e.copyRuntime root).runOn t = (.ok loaded, t₁) ∧
      t₁.makeDirectories e.outDir = (.ok (), t₂) ∧
      t₂.writeFile (e.outDir.join pageName)
        (.text (pageText (loaded ++ c.runtimeModules) c.manifestText)) = (.ok (), t') ∧
      page = e.outDir.join pageName := by
  unfold Emitter.emit
  refine FileAction.bind_eq_ok.trans (exists_congr fun loaded ↦ exists_congr fun t₁ ↦ ?_)
  constructor
  · rintro ⟨hcopy, h⟩
    obtain ⟨u, t₂, hmade, h⟩ := FileAction.bind_eq_ok.1 h
    obtain ⟨u', t₃, hwritten, h⟩ := FileAction.bind_eq_ok.1 h
    obtain ⟨rfl, rfl⟩ := FileAction.pure_eq_ok.1 h
    exact ⟨t₂, hcopy, FileAction.blaming_eq_ok.1 hmade, FileAction.blaming_eq_ok.1 hwritten, rfl⟩
  · rintro ⟨t₂, hcopy, hmade, hwritten, rfl⟩
    exact ⟨hcopy, FileAction.bind_eq_ok.2 ⟨(), t₂, FileAction.blaming_eq_ok.2 hmade,
      FileAction.bind_eq_ok.2 ⟨(), t', FileAction.blaming_eq_ok.2 hwritten,
        FileAction.pure_eq_ok.2 ⟨rfl, rfl⟩⟩⟩⟩

/-- A runtime with a style sheet further down and a file that is no module, and bundles of an
earlier build. -/
def libraryTree : FileTree where
  entries :=
    [(["w"], .directory), (["w", "rt"], .directory),
     (["w", "rt", "wx.js"], .file (.text "var wx = 1;")),
     (["w", "rt", "logo"], .file (.raw [255])),
     (["w", "rt", "lib"], .directory), (["w", "rt", "lib", "a.css"], .file (.text "a\x7b\x7d")),
     (["w", "out"], .directory), (["w", "out", "runtime"], .directory),
     (["w", "out", "runtime", "old.js"], .file (.text "old")),
     (["w", "out", "runtime", "wx.js"], .file (.text "old"))]
  workDir := ["w"]

theorem isTree_libraryTree : libraryTree.IsTree := by
  have hfile : ∀ n ∈ ["w", "rt", "wx.js", "logo", "lib", "a.css", "out", "runtime", "old.js"],
      '/' ∉ n.toList ∧ Path.ofSegment? n.toList = some (.normal n) := by decide
  have hplaced : ∀ l ∈ libraryTree.entries.map Prod.fst,
      libraryTree.hasDirectory l.dropLast ∧ ∃ n ∈ l.getLast?,
        n ∈ ["w", "rt", "wx.js", "logo", "lib", "a.css", "out", "runtime", "old.js"] := by decide
  refine ⟨by decide, fun l hl ↦ ?_⟩
  obtain ⟨hdirectory, n, hlast, hn⟩ := hplaced l hl
  exact ⟨l.dropLast, n, (List.dropLast_append_getLast? n hlast).symm, hdirectory, (hfile n hn).1,
    (hfile n hn).2⟩

/-- The bundles are written beside the runtime. -/
def libraryEmitter : Emitter :=
  ⟨⟨"../w/out/."⟩, .standard, false⟩

/-- The tree after a step of the walk over the library. -/
def afterFile (t : FileTree) (file : String) : FileTree :=
  ((libraryEmitter.copyRuntimeFile ⟨"rt"⟩ ⟨file⟩).runOn t).2

/-- The tree in which the library has been copied, file by file. -/
def copiedLibrary : FileTree :=
  afterFile (afterFile (afterFile libraryTree "rt/lib/a.css") "rt/logo") "rt/wx.js"

/-- The walk over the library from a path. -/
def walkLibrary (depth : ℕ) (p : Path) : FileAction (List Path) :=
  FileAction.walk (listingFailure ⟨"rt"⟩) (libraryEmitter.copyRuntimeFile ⟨"rt"⟩) depth p

theorem walkLibrary_file {t : FileTree} {depth : ℕ} {p : Path} {file : String} {places : List Path}
    (hp : p = ⟨file⟩) (hfile : t.isFile p)
    (h : ((libraryEmitter.copyRuntimeFile ⟨"rt"⟩ p).runOn t).1.toOption = some places) :
    (walkLibrary (depth + 1) p).runOn t = (.ok places, afterFile t file) := by
  subst hp
  exact FileAction.walk_succ_eq_ok.2 (.inl ⟨list_eq_file hfile, eq_ok_of_toOption h⟩)

/-- The walk takes the directory before the files behind it. -/
theorem walkLibrary_eq (depth : ℕ) : (walkLibrary (depth + 3) ⟨"rt"⟩).runOn libraryTree =
    (.ok [⟨"runtime/lib/a.css"⟩, ⟨"runtime/wx.js"⟩], copiedLibrary) := by
  have hroot : libraryTree.list ⟨"rt"⟩ = .ok (.directory ["lib", "logo", "wx.js"]) := by
    have hlocation : libraryTree.locationOf ⟨"rt"⟩ = ["w", "rt"] := by decide +kernel
    rw [list_eq_directory (by decide +kernel), hlocation,
      names_eq_of_perm (by decide : ["lib", "logo", "wx.js"].Pairwise (· ≤ ·)) (by decide)]
  have hlib : libraryTree.list ((⟨"rt"⟩ : Path).join ⟨"lib"⟩) = .ok (.directory ["a.css"]) := by
    have hlocation : libraryTree.locationOf ((⟨"rt"⟩ : Path).join ⟨"lib"⟩) =
      ["w", "rt", "lib"] := by decide +kernel
    rw [list_eq_directory (by decide +kernel), hlocation,
      names_eq_of_perm (by decide : ["a.css"].Pairwise (· ≤ ·)) (by decide)]
  let t₁ := afterFile libraryTree "rt/lib/a.css"
  let t₂ := afterFile t₁ "rt/logo"
  have hcss : (walkLibrary (depth + 1) (((⟨"rt"⟩ : Path).join ⟨"lib"⟩).join ⟨"a.css"⟩)).runOn
      libraryTree = (.ok [⟨"runtime/lib/a.css"⟩], t₁) :=
    walkLibrary_file (by decide +kernel) (by decide +kernel) (by decide +kernel)
  have hdirectory : (walkLibrary (depth + 2) ((⟨"rt"⟩ : Path).join ⟨"lib"⟩)).runOn libraryTree =
      (.ok [⟨"runtime/lib/a.css"⟩], t₁) :=
    FileAction.walk_succ_eq_ok.2 (.inr ⟨_, [[⟨"runtime/lib/a.css"⟩]], hlib,
      FileAction.mapM_cons_eq_ok.2 ⟨_, t₁, [], hcss, FileAction.mapM_nil_eq_ok.2 ⟨rfl, rfl⟩, rfl⟩,
      rfl⟩)
  have hlogo : (walkLibrary (depth + 2) ((⟨"rt"⟩ : Path).join ⟨"logo"⟩)).runOn t₁ = (.ok [], t₂) :=
    walkLibrary_file (by decide +kernel) (by decide +kernel) (by decide +kernel)
  have hscript : (walkLibrary (depth + 2) ((⟨"rt"⟩ : Path).join ⟨"wx.js"⟩)).runOn t₂ =
      (.ok [⟨"runtime/wx.js"⟩], copiedLibrary) :=
    walkLibrary_file (by decide +kernel) (by decide +kernel) (by decide +kernel)
  exact FileAction.walk_succ_eq_ok.2 (.inr ⟨_, [[⟨"runtime/lib/a.css"⟩], [], [⟨"runtime/wx.js"⟩]],
    hroot, FileAction.mapM_cons_eq_ok.2 ⟨_, t₁, _, hdirectory,
      FileAction.mapM_cons_eq_ok.2 ⟨_, t₂, _, hlogo,
        FileAction.mapM_cons_eq_ok.2 ⟨_, copiedLibrary, [], hscript,
          FileAction.mapM_nil_eq_ok.2 ⟨rfl, rfl⟩, rfl⟩, rfl⟩, rfl⟩, rfl⟩)

end Entry

end AppletBundle
