import AppletBundle.Path.Normal
import AppletBundle.Proofs.Path.Inner
import AppletBundle.Proofs.Path.Reduction

/-!
# Keys of paths

The key of a path is the text of its components, with slashes in between. Read as a path again it
has these components (`components_projectKey`): names and parents are segments as they stand, and so
is an opening dot, while the root, which is written as a slash of its own, leaves an idle segment.
So a key tells all that matters of a path (`projectKey_eq_iff`), and all there is of a normal one
(`projectKey_injective`).
-/

namespace AppletBundle.Path

/-! ### Trimmed bodies -/

theorem trimIdleEnd_cons_of_not_isIdle {u : List Char} (hu : isIdle u = false)
    (us : List (List Char)) : ∃ vs, trimIdleEnd (u :: us) = u :: vs := by
  have hself : [u].dropWhile isIdle = [u] := List.dropWhile_cons_of_neg (ne_true_of_eq_false hu)
  rw [trimIdleEnd, List.reverse_cons, List.dropWhile_append, hself]
  split
  · exact ⟨[], rfl⟩
  · rw [List.reverse_append]
    exact ⟨_, rfl⟩

theorem bodyComponents_joinSegments_trimIdleEnd (s : List Char) :
    bodyComponents (joinSegments (trimIdleEnd (segments s))) = bodyComponents s := by
  have hslash : ∀ u ∈ trimIdleEnd (segments s), '/' ∉ u := fun u hu ↦
    not_mem_of_mem_segments ((prefix_trimIdleEnd _).subset hu)
  rw [bodyComponents_joinSegments_eq hslash, filterMap_trimIdleEnd, bodyComponents]

/-- Nothing is lost when nothing is taken away. -/
theorem components_stripPrefix?_empty (p : Path) :
    ((p.stripPrefix? ⟨""⟩).getD p).components = p.components := by
  obtain ⟨s⟩ := p
  have hnone : (⟨""⟩ : Path).components = [] := rfl
  have hstarts : (⟨s⟩ : Path).startsWith ⟨""⟩ := by
    rw [startsWith, hnone]
    rfl
  have hstrip : (⟨s⟩ : Path).stripPrefix? ⟨""⟩ = some ⟨.ofList ((headAndBody s.toList).1 ++
      joinSegments (trimIdleEnd (headAndBody s.toList).2.2))⟩ := by
    rw [stripPrefix?, if_pos hstarts]
    rfl
  rw [hstrip, Option.getD_some, components_eq, components_eq, String.toList_ofList]
  show _ = (head? s.toList).toList ++ bodyComponents s.toList
  rcases hhead : head? s.toList with - | c
  · rw [headAndBody_of_head?_eq_none hhead, List.nil_append,
      bodyComponents_joinSegments_trimIdleEnd]
    refine congrArg (Option.toList · ++ _) ?_
    by_cases hempty : s.toList = []
    · rw [hempty]
      rfl
    · obtain ⟨u, us, hsegments, hu⟩ := exists_segments_eq_cons hempty hhead
      obtain ⟨vs, hvs⟩ := trimIdleEnd_cons_of_not_isIdle hu us
      have hslash : '/' ∉ u := not_mem_of_mem_segments (hsegments ▸ List.mem_cons_self)
      rw [hsegments, hvs, head?_joinSegments hslash hu]
  · have hslash : ∀ v : List Char, bodyComponents ('/' :: v) = bodyComponents v :=
      bodyComponents_append_separator []
    rcases head?_eq s.toList with h | h | h
    · rw [h] at hhead
      cases hhead
    · obtain ⟨v, hv⟩ := head?_eq_root_iff.1 h
      have hsplit : headAndBody ('/' :: v) = (['/'], some .root, segments v) := rfl
      rw [← hhead, hv, hsplit, List.singleton_append, hslash, hslash,
        bodyComponents_joinSegments_trimIdleEnd]
      rfl
    · rcases head?_eq_current_iff.1 h with hv | ⟨v, hv⟩
      · rw [← hhead, hv]
        rfl
      · have hsplit : headAndBody ('.' :: '/' :: v) = (['.'], some .current, [] :: segments v) :=
          rfl
        have hdot : ∀ w : List Char, bodyComponents ('.' :: '/' :: w) = bodyComponents w :=
          bodyComponents_append_separator ['.']
        have hbody : (trimIdleEnd ([] :: segments v)).filterMap ofSegment? = bodyComponents v :=
          filterMap_trimIdleEnd ([] :: segments v)
        have hprefix := prefix_trimIdleEnd ([] :: segments v)
        rw [← hhead, hv, hsplit, List.singleton_append, hdot, ← hbody]
        -- what is left is the dot alone, or the dot and a separator before a segment
        generalize trimIdleEnd ([] :: segments v) = us at hprefix
        rcases us with - | ⟨u, - | ⟨w, ws⟩⟩
        · rfl
        · obtain ⟨rfl, -⟩ := List.cons_prefix_cons.1 hprefix
          rfl
        · obtain ⟨rfl, hws⟩ := List.cons_prefix_cons.1 hprefix
          have hjoined : joinSegments ([] :: w :: ws) = '/' :: joinSegments (w :: ws) := rfl
          rw [hjoined, hdot, bodyComponents_joinSegments_eq fun u hu ↦
            not_mem_of_mem_segments (hws.subset hu)]
          rfl

/-! ### Keys -/

theorem projectKey_empty (p : Path) :
    projectKey ⟨""⟩ p = "/".intercalate (p.components.map Component.text) := by
  rw [projectKey, components_stripPrefix?_empty]

/-- **A key, read as a path, has the components of the path.** -/
theorem components_projectKey (p : Path) :
    (⟨projectKey ⟨""⟩ p⟩ : Path).components = p.components := by
  have hparts : ∀ c ∈ bodyComponents p.text.toList, c.IsPart :=
    fun _ hc ↦ isPart_of_mem_bodyComponents hc
  rw [projectKey_empty, components_eq p]
  rcases head?_eq p.text.toList with h | h | h
  · have hpath : (⟨"/".intercalate ((bodyComponents p.text.toList).map Component.text)⟩ : Path) =
        ofComponents (bodyComponents p.text.toList) := by
      unfold ofComponents
      split
      · rename_i rest heq
        exact absurd rfl (hparts .root (heq ▸ List.mem_cons_self)).ne_root
      · rfl
    rw [h, Option.toList_none, List.nil_append, hpath, components_ofComponents hparts]
  all_goals
    -- the head is written as a segment of its own, and the separator behind it changes nothing
    have hbody := bodyComponents_joinSegments hparts
    rw [h, components_eq, toList_intercalate_text, Option.toList_some, List.singleton_append,
      List.map_cons]
    generalize (bodyComponents p.text.toList).map (fun c ↦ c.text.toList) = us at hbody
    rcases us with - | ⟨u, us⟩
    · exact congrArg (_ :: ·) hbody
    · refine congrArg (_ :: ·) (Eq.trans ?_ hbody)
      exact bodyComponents_append_separator _ (joinSegments (u :: us))

/-- **Paths have the same key exactly if they have the same components.** -/
theorem projectKey_eq_iff {p q : Path} :
    projectKey ⟨""⟩ p = projectKey ⟨""⟩ q ↔ p.components = q.components := by
  refine ⟨fun h ↦ ?_, fun h ↦ by rw [projectKey_empty, h, projectKey_empty]⟩
  rw [← components_projectKey, h, components_projectKey]

/-- **Different normal paths have different keys.** -/
theorem projectKey_injective {p q : Path}
    (h : projectKey ⟨""⟩ p.normalize = projectKey ⟨""⟩ q.normalize) :
    p.normalize = q.normalize := by
  have hcomponents := projectKey_eq_iff.1 h
  rw [components_normalize, components_normalize] at hcomponents
  rw [normalize, hcomponents, normalize]

end AppletBundle.Path
