import AppletBundle.Proofs.Path.Components
import Mathlib.Data.List.TakeWhile
import Mathlib.Logic.Relation

/-!
# Paths above a path

A path is cut at the end of its body, where idle segments are dropped before and after the last one
that counts. The cut leaves the head alone, so what is left has the components of the head and of
the segments that are left (`components_front`). Hence a path lies in the path of its components but
the last, unless it is empty or the root (`parent?_cases`).

The paths above a path (`Above`) are the one it lies in and those above that. Their components open
those of the path, and a root is among the components of all of them or of none
(`Above.exists_components_eq`).
-/

namespace AppletBundle.Path

/-! ### Trimmed bodies -/

/-- Idle segments at the end of a body do not matter. -/
theorem filterMap_reverse_dropWhile_isIdle (us : List (List Char)) :
    (us.dropWhile isIdle).reverse.filterMap ofSegment? = us.reverse.filterMap ofSegment? := by
  have hidle : (us.takeWhile isIdle).reverse.filterMap ofSegment? = [] := by
    rw [List.filterMap_eq_nil_iff]
    intro u hu
    exact if_pos (List.mem_takeWhile_imp (List.mem_reverse.1 hu))
  conv_rhs => rw [← List.takeWhile_append_dropWhile (p := isIdle) (l := us)]
  rw [List.reverse_append, List.filterMap_append, hidle, List.append_nil]

theorem filterMap_trimIdleEnd (us : List (List Char)) :
    (trimIdleEnd us).filterMap ofSegment? = us.filterMap ofSegment? := by
  rw [trimIdleEnd, filterMap_reverse_dropWhile_isIdle, List.reverse_reverse]

theorem prefix_trimIdleEnd (us : List (List Char)) : trimIdleEnd us <+: us := by
  rw [trimIdleEnd, ← List.reverse_suffix, List.reverse_reverse]
  exact List.dropWhile_suffix _

/-- The last segment that is left counts. -/
theorem not_isIdle_of_mem_getLast?_trimIdleEnd {us : List (List Char)} {u : List Char}
    (hu : u ∈ (trimIdleEnd us).getLast?) : isIdle u = false := by
  rw [trimIdleEnd, List.getLast?_reverse] at hu
  have hfirst := List.head?_dropWhile_not isIdle us.reverse
  rw [hu] at hfirst
  simpa using hfirst

/-- Joined segments have the components that the segments are. -/
theorem bodyComponents_joinSegments_eq {us : List (List Char)} (hus : ∀ u ∈ us, '/' ∉ u) :
    bodyComponents (joinSegments us) = us.filterMap ofSegment? := by
  rcases us with - | ⟨u, us⟩
  · rfl
  · rw [bodyComponents, segments_joinSegments (List.cons_ne_nil u us) hus]

/-- A segment that counts is a component, and not the root. -/
theorem exists_ofSegment?_eq_some {u : List Char} (hu : isIdle u = false) :
    ∃ c, ofSegment? u = some c ∧ c ≠ .root := by
  rw [ofSegment?, if_neg (ne_true_of_eq_false hu)]
  split
  · exact ⟨.parent, rfl, by rintro ⟨⟩⟩
  · exact ⟨.normal (.ofList u), rfl, by rintro ⟨⟩⟩

/-! ### Texts without a head -/

/-- The first segment of a text without a head is no idle one. -/
theorem exists_segments_eq_cons {s : List Char} (hs : s ≠ []) (hhead : head? s = none) :
    ∃ u us, segments s = u :: us ∧ isIdle u = false := by
  rcases s with - | ⟨c, s⟩
  · exact absurd rfl hs
  have hc : c ≠ '/' := by
    rintro rfl
    rw [head?_eq_root_iff.2 ⟨s, rfl⟩] at hhead
    cases hhead
  rw [segments, if_neg hc]
  rcases hsegs : segments s with - | ⟨u, us⟩
  · exact absurd hsegs (segments_ne_nil s)
  refine ⟨c :: u, us, rfl, ?_⟩
  by_contra hidle
  have hdot : c = '.' ∧ u = [] := by simpa [isIdle] using hidle
  obtain ⟨rfl, rfl⟩ := hdot
  have hcurrent : head? ('.' :: s) = some .current := by
    rw [head?_eq_current_iff]
    rcases s with - | ⟨d, s⟩
    · exact Or.inl rfl
    · by_cases hd : d = '/'
      · exact Or.inr ⟨s, by rw [hd]⟩
      · rw [segments, if_neg hd] at hsegs
        split at hsegs <;> cases hsegs
  rw [hhead] at hcurrent
  cases hcurrent

theorem headAndBody_of_head?_eq_none {s : List Char} (hs : head? s = none) :
    headAndBody s = ([], none, segments s) := by
  unfold head? headAndBody at hs
  unfold headAndBody
  split at hs
  · cases hs
  · cases hs
  · cases hs
  · rfl

/-! ### Cut paths -/

/-- **A text that is cut in its body**, behind a segment that counts, keeps the components in front
of the cut. -/
theorem components_front {s : List Char} {vs : List (List Char)} (hvs : vs <+: (headAndBody s).2.2)
    (hlast : ∀ v ∈ vs.getLast?, isIdle v = false) :
    (⟨.ofList ((headAndBody s).1 ++ joinSegments vs)⟩ : Path).components =
      (head? s).toList ++ vs.filterMap ofSegment? := by
  have hrest : ∀ {rest : List Char} {us : List (List Char)}, us <+: segments rest →
      bodyComponents (joinSegments us) = us.filterMap ofSegment? := fun hus ↦
    bodyComponents_joinSegments_eq fun u hu ↦ not_mem_of_mem_segments (hus.subset hu)
  rcases head?_eq s with hs | hs | hs
  · rw [headAndBody_of_head?_eq_none hs] at hvs ⊢
    rw [hs, List.nil_append, components_eq, String.toList_ofList, hrest hvs]
    suffices hnone : head? (joinSegments vs) = none by rw [hnone]
    rcases vs with - | ⟨v, vs⟩
    · rfl
    refine head?_joinSegments (not_mem_of_mem_segments (hvs.subset List.mem_cons_self)) ?_ vs
    by_cases hempty : s = []
    · subst hempty
      obtain ⟨rfl, hnil⟩ := List.cons_prefix_cons.1 hvs
      obtain rfl := List.prefix_nil.1 hnil
      exact hlast _ rfl
    · obtain ⟨u, us, hsegments, hu⟩ := exists_segments_eq_cons hempty hs
      rw [hsegments] at hvs
      rw [(List.cons_prefix_cons.1 hvs).1, hu]
  · obtain ⟨rest, rfl⟩ := head?_eq_root_iff.1 hs
    rw [hs, ← hrest hvs]
    show components ⟨.ofList ('/' :: joinSegments vs)⟩ = _
    rw [components, String.toList_ofList]
    rfl
  · rcases head?_eq_current_iff.1 hs with rfl | ⟨rest, rfl⟩
    · -- the body is one idle segment, so nothing is left of it
      rcases vs with - | ⟨v, vs⟩
      · rfl
      · obtain ⟨rfl, hnil⟩ := List.cons_prefix_cons.1 hvs
        obtain rfl := List.prefix_nil.1 hnil
        cases hlast _ rfl
    · rcases vs with - | ⟨v, - | ⟨w, vs⟩⟩
      · rw [hs]
        show components ⟨.ofList ['.']⟩ = _
        rw [components, String.toList_ofList]
        rfl
      · obtain ⟨rfl, -⟩ := List.cons_prefix_cons.1 hvs
        cases hlast _ rfl
      · obtain ⟨rfl, hws⟩ := List.cons_prefix_cons.1 hvs
        have hidle : ([] :: w :: vs).filterMap ofSegment? = (w :: vs).filterMap ofSegment? := rfl
        rw [hs, hidle, ← hrest hws]
        show components ⟨.ofList ('.' :: '/' :: joinSegments (w :: vs))⟩ = _
        rw [components, String.toList_ofList]
        rfl

/-- **A path lies in the path of its components but the last**, unless it is empty or the root. -/
theorem parent?_cases (p : Path) :
    p.parent? = none ∧ (p.components = [] ∨ p.components = [.root]) ∨
      ∃ q c, p.parent? = some q ∧ c ≠ .root ∧ p.components = q.components ++ [c] := by
  have hcomponents : p.components = (head? p.text.toList).toList ++
      (trimIdleEnd (headAndBody p.text.toList).2.2).filterMap ofSegment? := by
    rw [filterMap_trimIdleEnd]
    rfl
  have hbody := prefix_trimIdleEnd (headAndBody p.text.toList).2.2
  have hfront := fun vs ↦ @components_front p.text.toList vs
  have hhead := head?_eq p.text.toList
  unfold parent?
  unfold head? at hcomponents hfront hhead
  generalize headAndBody p.text.toList = cut at *
  obtain ⟨head, component, body⟩ := cut
  dsimp only at *
  unfold trimIdleEnd at hcomponents hbody
  rcases hdrop : body.reverse.dropWhile isIdle with - | ⟨u, us⟩
  · rw [hdrop] at hcomponents
    rcases hhead with rfl | rfl | rfl
    · exact .inl ⟨rfl, .inl hcomponents⟩
    · exact .inl ⟨rfl, .inr hcomponents⟩
    · exact .inr ⟨⟨""⟩, .current, rfl, by rintro ⟨⟩, hcomponents⟩
  · have hu : isIdle u = false := by
      have hfirst := List.head?_dropWhile_not isIdle body.reverse
      rw [hdrop] at hfirst
      simpa using hfirst
    obtain ⟨c, hc, hroot⟩ := exists_ofSegment?_eq_some hu
    rw [hdrop, List.reverse_cons] at hcomponents hbody
    refine .inr ⟨_, c, rfl, hroot, ?_⟩
    have hleft : trimIdleEnd us.reverse <+: body :=
      (prefix_trimIdleEnd _).trans ((List.prefix_append _ _).trans hbody)
    have hparent := hfront (trimIdleEnd us.reverse) hleft fun v hv ↦
      not_isIdle_of_mem_getLast?_trimIdleEnd hv
    rw [filterMap_trimIdleEnd, trimIdleEnd, List.reverse_reverse] at hparent
    rw [hparent, hcomponents, List.filterMap_append, List.append_assoc]
    simp [hc]

/-! ### Paths above -/

/-- The path that a path lies in, and those above that. -/
def Above (q p : Path) : Prop :=
  Relation.TransGen (fun p q ↦ p.parent? = some q) p q

theorem above_of_parent? {p q r : Path} (h : p.parent? = some q) (hr : r = q ∨ r.Above q) :
    r.Above p := by
  rcases hr with rfl | hr
  · exact .single h
  · exact .head h hr

theorem components_of_parent? {p q : Path} (h : p.parent? = some q) :
    ∃ c, c ≠ .root ∧ p.components = q.components ++ [c] := by
  rcases parent?_cases p with ⟨hnone, -⟩ | ⟨q', c, hsome, hc, hp⟩
  · rw [hnone] at h
    cases h
  · rw [hsome] at h
    obtain rfl := Option.some.inj h
    exact ⟨c, hc, hp⟩

/-- **The components of a path above open those of the path**, and the root is not among the
others. -/
theorem Above.exists_components_eq {p q : Path} (h : q.Above p) :
    ∃ cs, cs ≠ [] ∧ .root ∉ cs ∧ p.components = q.components ++ cs := by
  induction h with
  | single h =>
    obtain ⟨c, hc, hp⟩ := components_of_parent? h
    exact ⟨[c], List.cons_ne_nil c [], fun hmem ↦ hc (List.mem_singleton.1 hmem).symm, hp⟩
  | tail _ h ih =>
    obtain ⟨c, hc, hq⟩ := components_of_parent? h
    obtain ⟨cs, -, hcs, hp⟩ := ih
    refine ⟨c :: cs, List.cons_ne_nil c cs, fun hmem ↦ ?_, ?_⟩
    · exact (List.mem_cons.1 hmem).elim (fun heq ↦ hc heq.symm) hcs
    · rw [hp, hq, List.append_assoc, List.singleton_append]

end AppletBundle.Path
