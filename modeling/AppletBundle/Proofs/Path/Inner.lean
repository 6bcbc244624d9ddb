import AppletBundle.Proofs.Path.Parent
import Mathlib.Data.Set.List

/-!
# Inner paths

An inner path is made of names only, so joined to a directory it leads to a place below it
(`IsInner.components_join`). What is made of an inner path is inner again: the path above it
(`IsInner.components_parent`), and the path with an extension (`IsInner.withExtension`).
-/

namespace AppletBundle.Path

/-- A path made of names only: it stays below any directory to which it is joined. -/
def IsInner (p : Path) : Prop :=
  ∀ c ∈ p.components, ∃ name, c = .normal name

theorem isInner_iff {p : Path} :
    p.IsInner ↔ ∃ names : List String, p.components = names.map .normal := by
  have hrange : p.components ∈ Set.range (List.map Component.normal) ↔ p.IsInner := by
    rw [Set.range_list_map]
    exact forall₂_congr fun c _ ↦ exists_congr fun name ↦ eq_comm
  rw [← hrange, Set.mem_range]
  exact exists_congr fun names ↦ eq_comm

namespace IsInner

variable {p : Path}

theorem not_isAbsolute (hp : p.IsInner) : p.isAbsolute = false := by
  rw [Bool.eq_false_iff]
  intro h
  obtain ⟨name, hname⟩ := hp _ (isAbsolute_iff_mem.1 h)
  cases hname

theorem head?_eq_none (hp : p.IsInner) : head? p.text.toList = none := by
  rcases head?_eq p.text.toList with h | h | h
  · exact h
  all_goals
    obtain ⟨name, hname⟩ := hp _ (mem_components_iff.2 (Or.inl h))
    cases hname

theorem components_eq (hp : p.IsInner) : p.components = bodyComponents p.text.toList := by
  rw [Path.components_eq, hp.head?_eq_none]
  rfl

/-- **Joined to a path, an inner path adds its names.** -/
theorem components_join (q : Path) (hp : p.IsInner) :
    (q.join p).components = q.components ++ p.components := by
  rw [Path.components_join q hp.not_isAbsolute]
  split
  · rfl
  · rw [hp.components_eq]

end IsInner

/-! ### The path above -/

/-- **The path above an inner path has its names but the last.** An empty path is above itself. -/
theorem IsInner.components_parent {p : Path} (hp : p.IsInner) :
    (p.parent?.getD ⟨""⟩).components = p.components.dropLast := by
  rcases parent?_cases p with ⟨hnone, hempty | hroot⟩ | ⟨q, c, hsome, -, hlast⟩
  · rw [hnone, hempty]
    rfl
  · obtain ⟨name, hname⟩ := hp .root (by rw [hroot]; exact List.mem_singleton_self _)
    cases hname
  · rw [hsome, hlast, List.dropLast_concat, Option.getD_some]

/-! ### The path with an extension -/

/-- A text that can follow a dot in a file name: it stays in one segment, and the dot before it does
not become a component that is no name. -/
structure IsExtension (extension : String) : Prop where
  not_mem : '/' ∉ extension.toList
  ne_empty : extension ≠ ""
  ne_dot : extension ≠ "."

/-- Text without separators goes on with the last segment. -/
theorem segments_append_of_not_mem (s : List Char) {t : List Char} (ht : '/' ∉ t) :
    ∃ us u, segments s = us ++ [u] ∧ segments (s ++ t) = us ++ [u ++ t] := by
  induction s with
  | nil => exact ⟨[], [], rfl, segments_of_not_mem ht⟩
  | cons c s ih =>
    obtain ⟨us, u, hs, hst⟩ := ih
    rw [List.cons_append, segments, segments, hs, hst]
    by_cases hc : c = '/'
    · rw [if_pos hc, if_pos hc]
      exact ⟨[] :: us, u, rfl, rfl⟩
    · rw [if_neg hc, if_neg hc]
      rcases us with - | ⟨v, us⟩
      · exact ⟨[], c :: u, rfl, rfl⟩
      · exact ⟨(c :: v) :: us, u, rfl, rfl⟩

/-- A text without a head gets none from an extension. -/
theorem head?_append_extension {s : List Char} {extension : String} (hs : head? s = none)
    (hext : IsExtension extension) : head? (s ++ '.' :: extension.toList) = none := by
  have hne : extension.toList ≠ [] := fun h ↦ hext.ne_empty (String.toList_eq_nil_iff.1 h)
  rcases head?_eq (s ++ '.' :: extension.toList) with h | h | h
  · exact h
  · obtain ⟨t, ht⟩ := head?_eq_root_iff.1 h
    rcases s with - | ⟨c, s⟩
    · cases ht
    · rw [List.cons_append, List.cons.injEq] at ht
      rw [head?_eq_root_iff.2 ⟨s, by rw [ht.1]⟩] at hs
      cases hs
  · rcases s with - | ⟨c, s⟩
    · rcases head?_eq_current_iff.1 h with ht | ⟨t, ht⟩
      · rw [List.nil_append, List.cons.injEq] at ht
        exact absurd ht.2 hne
      · rw [List.nil_append, List.cons.injEq] at ht
        exact absurd (ht.2 ▸ List.mem_cons_self) hext.not_mem
    · rcases head?_eq_current_iff.1 h with ht | ⟨t, ht⟩
      · rw [List.cons_append, List.cons.injEq, List.append_eq_nil_iff] at ht
        cases ht.2.2
      · -- the dot and the separator are in `s` already
        have hcurrent : head? (c :: s) = some .current := by
          rw [head?_eq_current_iff]
          rcases s with - | ⟨d, s⟩
          · cases ht
          · rw [List.cons_append, List.cons_append, List.cons.injEq, List.cons.injEq] at ht
            exact Or.inr ⟨s, by rw [ht.1, ht.2.1]⟩
        rw [hs] at hcurrent
        cases hcurrent

/-- A segment becomes a name by an extension. -/
theorem ofSegment?_append_extension (u : List Char) {extension : String}
    (hext : IsExtension extension) :
    ofSegment? (u ++ '.' :: extension.toList) =
      some (.normal (.ofList (u ++ '.' :: extension.toList))) := by
  have hne : extension.toList ≠ [] := fun h ↦ hext.ne_empty (String.toList_eq_nil_iff.1 h)
  have hdot : extension.toList ≠ ['.'] :=
    fun h ↦ hext.ne_dot (String.toList_inj.1 h)
  rcases u with - | ⟨c, u⟩
  · simp [ofSegment?, isIdle, hne, hdot]
  · rcases u with - | ⟨d, u⟩ <;> simp [ofSegment?, isIdle, hne]

theorem toList_withExtension (p : Path) (extension : String) :
    (p.withExtension extension).text.toList = p.text.toList ++ '.' :: extension.toList := by
  rw [withExtension, String.toList_append, String.toList_append]
  simp

/-- **An inner path with an extension is inner**, and leads to a file. -/
theorem IsInner.withExtension {p : Path} {extension : String} (hp : p.IsInner)
    (hext : IsExtension extension) :
    (p.withExtension extension).IsInner ∧ (p.withExtension extension).components ≠ [] := by
  have hslash : '/' ∉ '.' :: extension.toList := by
    rw [List.mem_cons, not_or]
    exact ⟨by decide, hext.not_mem⟩
  obtain ⟨us, u, hs, hst⟩ := segments_append_of_not_mem p.text.toList hslash
  have hbody : p.components = us.filterMap ofSegment? ++ (ofSegment? u).toList := by
    rw [hp.components_eq, bodyComponents, hs, List.filterMap_append]
    rcases hc : ofSegment? u with - | c <;> simp [hc]
  have hcomponents : (p.withExtension extension).components =
      us.filterMap ofSegment? ++ [.normal (.ofList (u ++ '.' :: extension.toList))] := by
    rw [Path.components_eq, toList_withExtension, head?_append_extension hp.head?_eq_none hext,
      bodyComponents, hst, List.filterMap_append]
    simp [ofSegment?_append_extension u hext]
  rw [IsInner, hcomponents]
  refine ⟨fun c hc ↦ ?_, by simp⟩
  rcases List.mem_append.1 hc with hc | hc
  · exact hp c (hbody ▸ List.mem_append_left _ hc)
  · exact ⟨_, List.mem_singleton.1 hc⟩

end AppletBundle.Path
