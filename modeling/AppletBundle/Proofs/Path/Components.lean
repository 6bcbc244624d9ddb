import AppletBundle.Path.Normal
import Mathlib.Data.List.Basic

/-!
# Components of paths

The components of a text are that of its head, if it has one, and those of its segments
(`components_eq`). Since the head cannot grow when a separator and more text follow, a path that is
joined to another has the components of both, only that an opening dot vanishes behind a text
(`components_join`).

`Component.IsPart` says which components a segment can be: they are their own segment again, so a
list of them is read back from the text that it is written as (`components_ofComponents`).
-/

namespace AppletBundle.Path

/-! ### Segments -/

theorem segments_ne_nil (s : List Char) : segments s ≠ [] := by
  cases s with
  | nil => simp [segments]
  | cons c s =>
    rw [segments]
    split
    · simp
    · split <;> simp

/-- A separator starts a new segment. -/
theorem segments_append_separator (s t : List Char) :
    segments (s ++ '/' :: t) = segments s ++ segments t := by
  induction s with
  | nil => simp [segments]
  | cons c s ih =>
    rw [List.cons_append, segments, segments, ih]
    by_cases hc : c = '/'
    · rw [if_pos hc, if_pos hc, List.cons_append]
    · rw [if_neg hc, if_neg hc]
      rcases hs : segments s with - | ⟨u, us⟩
      · exact absurd hs (segments_ne_nil s)
      · rfl

theorem segments_of_not_mem {s : List Char} (hs : '/' ∉ s) : segments s = [s] := by
  induction s with
  | nil => rfl
  | cons c s ih =>
    rw [List.mem_cons, not_or] at hs
    rw [segments, if_neg fun hc ↦ hs.1 hc.symm, ih hs.2]

theorem not_mem_of_mem_segments {s u : List Char} (hu : u ∈ segments s) : '/' ∉ u := by
  induction s generalizing u with
  | nil =>
    rw [segments, List.mem_singleton] at hu
    rw [hu]
    exact List.not_mem_nil
  | cons c s ih =>
    rw [segments] at hu
    by_cases hc : c = '/'
    · rw [if_pos hc] at hu
      rcases List.mem_cons.1 hu with rfl | hu
      · exact List.not_mem_nil
      · exact ih hu
    · rw [if_neg hc] at hu
      rcases hs : segments s with - | ⟨v, vs⟩
      · exact absurd hs (segments_ne_nil s)
      · rw [hs] at hu ih
        rcases List.mem_cons.1 hu with rfl | hu
        · rw [List.mem_cons, not_or]
          exact ⟨fun h ↦ hc h.symm, ih List.mem_cons_self⟩
        · exact ih (List.mem_cons_of_mem _ hu)

/-- Texts without separators are the segments of what they are joined to. -/
theorem segments_joinSegments {us : List (List Char)} (hne : us ≠ []) (hus : ∀ u ∈ us, '/' ∉ u) :
    segments (joinSegments us) = us := by
  induction us with
  | nil => exact absurd rfl hne
  | cons u us ih =>
    have hu : '/' ∉ u := hus u List.mem_cons_self
    cases us with
    | nil => exact segments_of_not_mem hu
    | cons v vs =>
      have hrest := ih (List.cons_ne_nil v vs) fun w hw ↦ hus w (List.mem_cons_of_mem _ hw)
      rw [joinSegments, segments_append_separator, segments_of_not_mem hu, hrest,
        List.singleton_append]

theorem joinSegments_eq_intercalate (us : List (List Char)) :
    joinSegments us = ['/'].intercalate us := by
  induction us with
  | nil => rfl
  | cons u us ih =>
    cases us with
    | nil => simp [joinSegments]
    | cons v vs =>
      rw [joinSegments, ih, List.intercalate_cons_of_ne_nil (List.cons_ne_nil v vs),
        List.append_assoc, List.singleton_append]

/-! ### Heads and bodies -/

/-- The component at the head of a text. -/
def head? (s : List Char) : Option Component :=
  (headAndBody s).2.1

/-- The components among the segments of a text. -/
def bodyComponents (s : List Char) : List Component :=
  (segments s).filterMap ofSegment?

theorem bodyComponents_append_separator (s t : List Char) :
    bodyComponents (s ++ '/' :: t) = bodyComponents s ++ bodyComponents t := by
  rw [bodyComponents, segments_append_separator, List.filterMap_append, bodyComponents,
    bodyComponents]

/-- The segment in front of a separator may be the head; it is idle then. -/
theorem components_eq (p : Path) :
    p.components = (head? p.text.toList).toList ++ bodyComponents p.text.toList := by
  change (headAndBody p.text.toList).2.1.toList ++
    (headAndBody p.text.toList).2.2.filterMap ofSegment? = _
  unfold head? headAndBody bodyComponents
  split <;> simp_all [segments, ofSegment?, isIdle]

theorem head?_eq_root_iff {s : List Char} : head? s = some .root ↔ ∃ t, s = '/' :: t := by
  unfold head? headAndBody
  split <;> simp_all

theorem head?_eq_current_iff {s : List Char} :
    head? s = some .current ↔ s = ['.'] ∨ ∃ t, s = '.' :: '/' :: t := by
  unfold head? headAndBody
  split <;> simp_all

/-- A head is the root or an opening dot. -/
theorem head?_eq (s : List Char) :
    head? s = none ∨ head? s = some .root ∨ head? s = some .current := by
  unfold head? headAndBody
  split <;> simp

/-- A head does not grow when a separator follows. -/
theorem head?_append_separator {s : List Char} (hs : s ≠ []) (t : List Char) :
    head? (s ++ '/' :: t) = head? s := by
  obtain ⟨c, s, rfl⟩ := List.exists_cons_of_ne_nil hs
  by_cases hroot : c = '/'
  · subst hroot
    rw [head?_eq_root_iff.2 ⟨s, rfl⟩]
    exact head?_eq_root_iff.2 ⟨s ++ '/' :: t, rfl⟩
  by_cases hdot : c = '.'
  · subst hdot
    rcases s with - | ⟨d, s⟩
    · rfl
    by_cases hd : d = '/'
    · subst hd
      rfl
    · have hnone : ∀ u : List Char, head? ('.' :: d :: u) = none := by
        intro u
        rcases head?_eq ('.' :: d :: u) with h | h | h
        · exact h
        · obtain ⟨v, hv⟩ := head?_eq_root_iff.1 h
          cases hv
        · rcases head?_eq_current_iff.1 h with hv | ⟨v, hv⟩
          · cases hv
          · cases hv
            exact absurd rfl hd
      exact (hnone _).trans (hnone s).symm
  · have hnone : ∀ u : List Char, head? (c :: u) = none := by
      intro u
      rcases head?_eq (c :: u) with h | h | h
      · exact h
      · obtain ⟨v, hv⟩ := head?_eq_root_iff.1 h
        cases hv
        exact absurd rfl hroot
      · rcases head?_eq_current_iff.1 h with hv | ⟨v, hv⟩ <;> cases hv <;> exact absurd rfl hdot
    exact (hnone _).trans (hnone s).symm

theorem isAbsolute_iff {p : Path} : p.isAbsolute ↔ head? p.text.toList = some .root := by
  rw [isAbsolute, String.startsWith_string_iff, head?_eq_root_iff]
  constructor
  · rintro ⟨t, ht⟩
    exact ⟨t, ht.symm⟩
  · rintro ⟨t, ht⟩
    exact ⟨t, ht.symm⟩

/-! ### Components that a segment can be -/

/-- A component that is its own segment: a parent or a name. -/
def Component.IsPart (c : Component) : Prop :=
  '/' ∉ c.text.toList ∧ ofSegment? c.text.toList = some c

theorem Component.IsPart.ne_root {c : Component} (hc : c.IsPart) : c ≠ .root := by
  rintro rfl
  exact hc.1 (by decide)

theorem Component.IsPart.ne_current {c : Component} (hc : c.IsPart) : c ≠ .current := by
  rintro rfl
  have hnone : ofSegment? Component.current.text.toList = none := by decide
  rw [hc.2] at hnone
  cases hnone

theorem Component.isPart_of_ofSegment? {u : List Char} {c : Component} (hu : '/' ∉ u)
    (h : ofSegment? u = some c) : c.IsPart := by
  have hself : c.text.toList = u := by
    unfold ofSegment? at h
    split at h
    · cases h
    · split at h
      · rename_i hparent
        cases h
        exact hparent.symm
      · cases h
        exact String.toList_ofList
  rw [Component.IsPart, hself]
  exact ⟨hu, h⟩

theorem isPart_of_mem_bodyComponents {s : List Char} {c : Component}
    (hc : c ∈ bodyComponents s) : c.IsPart := by
  obtain ⟨u, hu, h⟩ := List.mem_filterMap.1 hc
  exact Component.isPart_of_ofSegment? (not_mem_of_mem_segments hu) h

/-- A component of a path is its head or can be a segment. -/
theorem mem_components_iff {p : Path} {c : Component} :
    c ∈ p.components ↔ head? p.text.toList = some c ∨ c ∈ bodyComponents p.text.toList := by
  rw [components_eq, List.mem_append, Option.mem_toList]

/-- A path is absolute exactly if the root is among its components. -/
theorem isAbsolute_iff_mem {p : Path} : p.isAbsolute ↔ Component.root ∈ p.components := by
  rw [isAbsolute_iff, mem_components_iff]
  exact ⟨Or.inl, fun h ↦ h.resolve_right fun hc ↦ (isPart_of_mem_bodyComponents hc).ne_root rfl⟩

/-- The components after the head, which is no more than a dot, are those without a dot. -/
theorem filter_components_of_not_isAbsolute {p : Path} (hp : p.isAbsolute = false) :
    p.components.filter (· ≠ .current) = bodyComponents p.text.toList := by
  have hbody : (bodyComponents p.text.toList).filter (· ≠ .current) =
      bodyComponents p.text.toList :=
    List.filter_eq_self.2 fun c hc ↦ by simpa using (isPart_of_mem_bodyComponents hc).ne_current
  rw [components_eq, List.filter_append, hbody]
  rcases head?_eq p.text.toList with h | h | h
  · rw [h]
    rfl
  · rw [isAbsolute_iff.2 h] at hp
    cases hp
  · rw [h]
    rfl

/-! ### Joining -/

theorem endsWith_separator_iff {s : String} :
    s.endsWith "/" ↔ ∃ t : List Char, s.toList = t ++ ['/'] := by
  rw [String.endsWith_eq_endsWith_toSlice, String.Slice.endsWith_string_iff]
  constructor
  · rintro ⟨t, ht⟩
    exact ⟨t, by simpa using ht.symm⟩
  · rintro ⟨t, ht⟩
    exact ⟨t, by simpa using ht.symm⟩

/-- A separator at the end of a text adds no component, and what follows it is body. -/
theorem components_ofList_append_separator (s t : List Char) :
    (⟨.ofList (s ++ '/' :: t)⟩ : Path).components =
      (⟨.ofList (s ++ ['/'])⟩ : Path).components ++ bodyComponents t := by
  have hnil : bodyComponents [] = [] := rfl
  rw [components_eq, components_eq, String.toList_ofList, String.toList_ofList,
    bodyComponents_append_separator, bodyComponents_append_separator, hnil, List.append_nil]
  rcases s with - | ⟨c, s⟩
  · have hroot : head? ([] ++ '/' :: t) = head? ([] ++ ['/']) := rfl
    rw [hroot, hnil, List.nil_append, List.nil_append, List.append_nil]
  · rw [head?_append_separator (List.cons_ne_nil c s),
      head?_append_separator (List.cons_ne_nil c s), List.append_assoc]

theorem components_ofList_concat_separator {s : List Char} (hs : s ≠ []) :
    (⟨.ofList (s ++ ['/'])⟩ : Path).components = (⟨.ofList s⟩ : Path).components := by
  have hnil : bodyComponents [] = [] := rfl
  rw [components_eq, components_eq, String.toList_ofList, String.toList_ofList,
    bodyComponents_append_separator, head?_append_separator hs, hnil, List.append_nil]

/-- **A joined path has the components of both**, but the second loses an opening dot behind a
text. -/
theorem components_join (p : Path) {q : Path} (hq : q.isAbsolute = false) :
    (p.join q).components =
      p.components ++ if p.text = "" then q.components else bodyComponents q.text.toList := by
  have hp : p = ⟨.ofList p.text.toList⟩ := by rw [String.ofList_toList]
  rw [join, if_neg (by rw [hq]; exact Bool.false_ne_true)]
  by_cases hempty : p.text = ""
  · have hnone : p.components = [] := by
      rw [hp, hempty]
      rfl
    rw [if_pos (by simp [hempty]), if_pos hempty, hnone, hempty, String.empty_append,
      List.nil_append]
  · rw [if_neg hempty]
    have hne : p.text.toList ≠ [] := by
      intro h
      exact hempty (String.toList_eq_nil_iff.1 h)
    by_cases hend : p.text.endsWith "/"
    · obtain ⟨s, hs⟩ := endsWith_separator_iff.1 hend
      have htext : p.text ++ q.text = .ofList (s ++ '/' :: q.text.toList) := by
        rw [← String.toList_inj, String.toList_append, hs, String.toList_ofList]
        simp
      rw [if_pos (by rw [hend, Bool.or_true]), htext, components_ofList_append_separator, ← hs,
        String.ofList_toList]
    · have htext : p.text ++ "/" ++ q.text = .ofList (p.text.toList ++ '/' :: q.text.toList) := by
        rw [← String.toList_inj, String.toList_append, String.toList_append, String.toList_ofList]
        simp
      rw [if_neg (by simp [hempty, hend]), htext, components_ofList_append_separator,
        components_ofList_concat_separator hne, String.ofList_toList]

/-! ### Writing components -/

/-- A joined list of segments has a head only if its first segment is idle. -/
theorem head?_joinSegments {u : List Char} (hu : '/' ∉ u) (hidle : isIdle u = false)
    (us : List (List Char)) : head? (joinSegments (u :: us)) = none := by
  obtain ⟨t, ht⟩ : ∃ t, joinSegments (u :: us) = u ++ t := by
    cases us with
    | nil => exact ⟨[], (List.append_nil _).symm⟩
    | cons w ws => exact ⟨_, rfl⟩
  rw [ht]
  rcases u with - | ⟨c, v⟩
  · cases hidle
  rw [List.mem_cons, not_or] at hu
  rcases head?_eq (c :: v ++ t) with h | h | h
  · exact h
  · obtain ⟨w, hw⟩ := head?_eq_root_iff.1 h
    rw [List.cons_append, List.cons.injEq] at hw
    exact absurd hw.1.symm hu.1
  · -- the segment would be a dot, or go on after a separator
    rcases v with - | ⟨d, v⟩
    · rcases head?_eq_current_iff.1 h with hw | ⟨w, hw⟩
      all_goals
        rw [List.cons_append, List.cons.injEq] at hw
        rw [hw.1] at hidle
        cases hidle
    · have hd : '/' ≠ d := fun hd ↦ hu.2 (hd ▸ List.mem_cons_self)
      rcases head?_eq_current_iff.1 h with hw | ⟨w, hw⟩
      · cases hw
      · rw [List.cons_append, List.cons_append, List.cons.injEq, List.cons.injEq] at hw
        exact absurd hw.2.1.symm hd

theorem toList_intercalate_text (cs : List Component) :
    ("/".intercalate (cs.map Component.text)).toList =
      joinSegments (cs.map fun c ↦ c.text.toList) := by
  rw [String.toList_intercalate, joinSegments_eq_intercalate, List.map_map]
  rfl

theorem bodyComponents_joinSegments {cs : List Component} (hcs : ∀ c ∈ cs, c.IsPart) :
    bodyComponents (joinSegments (cs.map fun c ↦ c.text.toList)) = cs := by
  rcases cs with - | ⟨c, cs⟩
  · rfl
  have hslash : ∀ u ∈ (c :: cs).map fun c ↦ c.text.toList, '/' ∉ u := by
    intro u hu
    obtain ⟨d, hd, rfl⟩ := List.mem_map.1 hu
    exact (hcs d hd).1
  have hself : ∀ d ∈ c :: cs, (ofSegment? ∘ fun c ↦ c.text.toList) d = some d :=
    fun d hd ↦ (hcs d hd).2
  rw [bodyComponents, segments_joinSegments (by simp) hslash, List.filterMap_map,
    List.filterMap_congr hself, List.filterMap_some]

/-- **Components that can be segments are read back** from the path that they are written as. -/
theorem components_ofComponents {cs : List Component} (hcs : ∀ c ∈ cs, c.IsPart) :
    (ofComponents cs).components = cs := by
  have htext : (ofComponents cs).text.toList = joinSegments (cs.map fun c ↦ c.text.toList) := by
    rw [← toList_intercalate_text]
    unfold ofComponents
    split
    · rename_i rest
      exact absurd rfl (hcs .root List.mem_cons_self).ne_root
    · rfl
  have hhead : head? (joinSegments (cs.map fun c ↦ c.text.toList)) = none := by
    rcases cs with - | ⟨c, cs⟩
    · rfl
    · have hc := hcs c List.mem_cons_self
      refine head?_joinSegments hc.1 ?_ _
      by_contra hidle
      have hnone : ofSegment? c.text.toList = none := if_pos (by simpa using hidle)
      rw [hc.2] at hnone
      cases hnone
  rw [components_eq, htext, hhead, bodyComponents_joinSegments hcs]
  rfl

/-- They are read back behind the root, too. -/
theorem components_ofComponents_root {cs : List Component} (hcs : ∀ c ∈ cs, c.IsPart) :
    (ofComponents (.root :: cs)).components = .root :: cs := by
  have htext : (ofComponents (.root :: cs)).text.toList =
      '/' :: joinSegments (cs.map fun c ↦ c.text.toList) := by
    rw [← toList_intercalate_text, ofComponents, String.toList_append]
    rfl
  have hbody : bodyComponents ('/' :: joinSegments (cs.map fun c ↦ c.text.toList)) = cs :=
    (bodyComponents_append_separator [] _).trans (bodyComponents_joinSegments hcs)
  rw [components_eq, htext, hbody]
  rfl

end AppletBundle.Path
