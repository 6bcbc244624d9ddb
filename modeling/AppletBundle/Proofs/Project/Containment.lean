import AppletBundle.Project.Basic
import AppletBundle.Proofs.Path.Inner
import AppletBundle.Proofs.Path.Reduction

/-!
# Components stay in their project

A declared place is followed from the directory of the base that declares it, or from the project's
directory when it opens with a slash (`wayTo`). The base to which it leads has the reduced components
of that way (`components_normalize_target`), so it is an inner path unless a parent is left, and a
parent is left exactly if the way climbs above the project's directory.

A second slash at the front is the exception: what stands after the first slash is an absolute path
then, and the place leads there (`exists_resolveComponent?_of_two_slashes`).
-/

namespace AppletBundle

open AppletBundle.Path

/-- Extensions that a configuration can have follow a dot in a file name. -/
theorem Extensions.isExtension_of_normalizeOne {kind : ModuleKind} {chosen extension : String}
    (h : Extensions.normalizeOne kind chosen = .ok extension) : IsExtension extension := by
  rw [Extensions.normalizeOne] at h
  set trimmed := chosen.toList.dropWhile (· == '.') with htrimmed
  split at h
  · cases h
  rename_i husable
  split at h
  · cases h
  cases h
  simp only [Bool.or_eq_true, List.isEmpty_iff, List.contains_iff_mem, not_or] at husable
  refine ⟨?_, ?_, ?_⟩
  · rw [String.toList_ofList]
    exact husable.1.2
  · intro h
    rw [String.ofList_eq_empty_iff] at h
    exact husable.1.1 h
  · intro h
    have hdot : trimmed = ['.'] := by
      rw [← String.toList_inj, String.toList_ofList] at h
      exact h
    have hhead := List.head?_dropWhile_not (· == '.') chosen.toList
    rw [← htrimmed, hdot] at hhead
    cases hhead

namespace Project

/-! ### Ways to declared places -/

/-- The path that a place stands for before it is made normal. -/
def target (declaring : Path) (place : String) : Path :=
  match place.toList with
  | '/' :: rest => ⟨.ofList rest⟩
  | _ => (declaring.parent?.getD ⟨""⟩).join ⟨place⟩

/-- The components that are followed from the project's directory to a place. -/
def wayTo (declaring : Path) (place : String) : List Component :=
  match place.toList with
  | '/' :: rest => (⟨.ofList rest⟩ : Path).components
  | _ => declaring.components.dropLast ++ (⟨place⟩ : Path).components

/-- A place in another program. -/
def IsForeign (place : String) : Prop :=
  Text.occursIn "://".toList place.toList

/-- A place that leads out of the project's directory on the way. -/
def LeavesRoot (declaring : Path) (place : String) : Prop :=
  Climbs (wayTo declaring place)

theorem resolveComponent?_eq (declaring : Path) (place : String) :
    resolveComponent? declaring place =
      if Text.occursIn "://".toList place.toList then none
      else if (target declaring place).normalize.startsWith ⟨".."⟩ then none
      else some (target declaring place).normalize := rfl

theorem startsWith_parent_iff {p : Path} :
    p.startsWith ⟨".."⟩ ↔ ∃ cs, p.components = .parent :: cs := by
  have hparent : (⟨".."⟩ : Path).components = [.parent] := by decide
  rw [startsWith, hparent, List.isPrefixOf_iff_prefix]
  constructor
  · rintro ⟨cs, hcs⟩
    exact ⟨cs, hcs.symm⟩
  · rintro ⟨cs, hcs⟩
    exact ⟨cs, hcs.symm⟩

variable {declaring : Path} {place : String}

/-- **The base of a place has the reduced components of the way to it.** -/
theorem components_normalize_target (hd : declaring.IsInner) :
    (target declaring place).normalize.components = reduce (wayTo declaring place) := by
  rw [components_normalize, target, wayTo]
  split
  · rfl
  rename_i hslash
  have hrelative : (⟨place⟩ : Path).isAbsolute = false := by
    rw [Bool.eq_false_iff]
    intro habs
    obtain ⟨rest, hrest⟩ := head?_eq_root_iff.1 (isAbsolute_iff.1 habs)
    exact hslash rest hrest
  have hfilter : ∀ cs : List Component, cs = (⟨place⟩ : Path).components ∨
      cs = bodyComponents place.toList → cs.filter (· ≠ .current) = bodyComponents place.toList := by
    rintro cs (rfl | rfl)
    · exact filter_components_of_not_isAbsolute hrelative
    · rw [← filter_components_of_not_isAbsolute hrelative, List.filter_filter]
      simp
  rw [components_join _ hrelative, hd.components_parent, ← reduce_filter_current,
    ← reduce_filter_current (_ ++ (⟨place⟩ : Path).components), List.filter_append,
    List.filter_append, hfilter _ (Or.inl rfl)]
  split
  · rw [hfilter _ (Or.inl rfl)]
  · rw [hfilter _ (Or.inr rfl)]

/-- A way without a second slash at the front has no root on it. -/
theorem root_not_mem_wayTo (hd : declaring.IsInner) (hplace : ¬ ['/', '/'] <+: place.toList) :
    Component.root ∉ wayTo declaring place := by
  intro hmem
  rw [wayTo] at hmem
  split at hmem
  · rename_i rest hrest
    have habs := isAbsolute_iff_mem.2 hmem
    rw [isAbsolute_iff, String.toList_ofList, head?_eq_root_iff] at habs
    obtain ⟨t, rfl⟩ := habs
    exact hplace (hrest ▸ ⟨t, rfl⟩)
  · rename_i hslash
    rcases List.mem_append.1 hmem with hmem | hmem
    · obtain ⟨name, hname⟩ := hd _ (List.dropLast_subset _ hmem)
      cases hname
    · obtain ⟨t, ht⟩ := head?_eq_root_iff.1 (isAbsolute_iff.1 (isAbsolute_iff_mem.2 hmem))
      exact hslash t ht

/-! ### Bases -/

/-- What is left of a way starts with a parent if the way climbs, and else has names only. -/
theorem components_normalize_target_cases (hd : declaring.IsInner)
    (hplace : ¬ ['/', '/'] <+: place.toList) :
    (LeavesRoot declaring place ∧ (target declaring place).normalize.startsWith ⟨".."⟩) ∨
      (¬ LeavesRoot declaring place ∧
        ¬ (target declaring place).normalize.startsWith ⟨".."⟩ ∧
        (target declaring place).normalize.IsInner) := by
  obtain ⟨names, k, hreduce, hclimbs⟩ := reduce_eq (root_not_mem_wayTo hd hplace)
  have hcomponents := (components_normalize_target hd).trans hreduce
  rcases Nat.eq_zero_or_pos k with rfl | hk
  · have hnames : (target declaring place).normalize.components = names.map .normal := hcomponents
    refine Or.inr ⟨fun h ↦ absurd (hclimbs.2 h) (Nat.lt_irrefl 0), fun h ↦ ?_, fun c hc ↦ ?_⟩
    · obtain ⟨cs, hcs⟩ := startsWith_parent_iff.1 h
      have hmem : Component.parent ∈ names.map .normal := by
        rw [← hnames, hcs]
        exact List.mem_cons_self
      simp at hmem
    · rw [hnames] at hc
      obtain ⟨name, -, rfl⟩ := List.mem_map.1 hc
      exact ⟨name, rfl⟩
  · obtain ⟨j, rfl⟩ : ∃ j, k = j + 1 := ⟨k - 1, by omega⟩
    exact Or.inl ⟨hclimbs.1 hk, startsWith_parent_iff.2 ⟨_, hcomponents⟩⟩

/-- **Components stay in their project.** A place without a second slash at the front leads nowhere
exactly if it is one of another program or leaves the project's directory on the way; and the base to
which it leads is a path of names only, so with any extension it names a file below the directory of
the project, wherever that is. -/
theorem resolveComponent?_contained (hd : declaring.IsInner)
    (hplace : ¬ ['/', '/'] <+: place.toList) :
    (resolveComponent? declaring place = none ↔
      IsForeign place ∨ LeavesRoot declaring place) ∧
    ∀ base, resolveComponent? declaring place = some base →
      base.IsInner ∧ ∀ (root : Path) (extension : String), IsExtension extension →
        ∃ names : List String, names ≠ [] ∧
          (root.join (base.withExtension extension)).components =
            root.components ++ names.map .normal := by
  rw [resolveComponent?_eq]
  by_cases hforeign : IsForeign place
  · rw [if_pos (by exact hforeign)]
    exact ⟨⟨fun _ ↦ Or.inl hforeign, fun _ ↦ rfl⟩, fun base hbase ↦ by cases hbase⟩
  rw [if_neg (by exact hforeign)]
  rcases components_normalize_target_cases hd hplace with
    ⟨hleaves, hstarts⟩ | ⟨hleaves, hstarts, hinner⟩
  · rw [if_pos hstarts]
    exact ⟨⟨fun _ ↦ Or.inr hleaves, fun _ ↦ rfl⟩, fun base hbase ↦ by cases hbase⟩
  · rw [if_neg hstarts]
    refine ⟨⟨fun h ↦ by (cases h), fun h ↦ ?_⟩, fun base hbase ↦ ?_⟩
    · rcases h with h | h
      · exact absurd h hforeign
      · exact absurd h hleaves
    · cases hbase
      refine ⟨hinner, fun root extension hext ↦ ?_⟩
      obtain ⟨hfile, hne⟩ := hinner.withExtension hext
      obtain ⟨names, hnames⟩ := isInner_iff.1 hfile
      refine ⟨names, fun h ↦ hne (by rw [hnames, h]; rfl), ?_⟩
      rw [hfile.components_join, hnames]

theorem resolveComponent?_contained_card :
    let page : Path := ⟨"pages/index/index"⟩
    let card : Path := ⟨"components/card/card"⟩
    page.IsInner ∧ ¬ ['/', '/'] <+: "../../components/./card//card".toList ∧
      resolveComponent? page "../../components/./card//card" = some card ∧ card.IsInner ∧
      ∃ names : List String, names ≠ [] ∧
        ((⟨"proj"⟩ : Path).join (card.withExtension "js")).components =
          (⟨"proj"⟩ : Path).components ++ names.map .normal := by
  intro page card
  have hpage : page.IsInner := isInner_iff.2 ⟨["pages", "index", "index"], by decide⟩
  have hplace : ¬ ['/', '/'] <+: "../../components/./card//card".toList := by decide
  have hresolve : resolveComponent? page "../../components/./card//card" = some card := by
    decide +kernel
  have hjs : IsExtension "js" := ⟨by decide, by decide, by decide⟩
  obtain ⟨-, hbase⟩ := resolveComponent?_contained hpage hplace
  obtain ⟨hcard, hfile⟩ := hbase card hresolve
  exact ⟨hpage, hplace, hresolve, hcard, hfile ⟨"proj"⟩ "js" hjs⟩

/-- **A second slash leads out.** A place that opens with two slashes, in whatever base it is
declared, is an absolute path after the first: its base starts at the root of the file system and not
in the project. -/
theorem exists_resolveComponent?_of_two_slashes (declaring : Path)
    (hplace : ['/', '/'] <+: place.toList) (hforeign : ¬ IsForeign place) :
    ∃ base, resolveComponent? declaring place = some base ∧ base.isAbsolute := by
  obtain ⟨t, ht⟩ := hplace
  have htarget : target declaring place = ⟨.ofList ('/' :: t)⟩ := by
    rw [target, ← ht]
    rfl
  have habs : (target declaring place).isAbsolute := by
    rw [htarget, isAbsolute_iff, head?_eq_root_iff, String.toList_ofList]
    exact ⟨t, rfl⟩
  obtain ⟨names, k, hreduce⟩ :=
    reduce_root (root_not_mem_bodyComponents (target declaring place).text.toList)
  have hcomponents : (target declaring place).normalize.components =
      .root :: (List.replicate k .parent ++ names.map .normal) := by
    rw [components_normalize, components_of_isAbsolute habs, hreduce]
  have hstarts : ¬ (target declaring place).normalize.startsWith ⟨".."⟩ := by
    intro h
    obtain ⟨cs, hcs⟩ := startsWith_parent_iff.1 h
    rw [hcomponents] at hcs
    cases hcs
  refine ⟨(target declaring place).normalize, ?_, ?_⟩
  · rw [resolveComponent?_eq, if_neg (by exact hforeign), if_neg hstarts]
  · rw [isAbsolute_iff_mem, hcomponents]
    exact List.mem_cons_self

end Project

end AppletBundle
