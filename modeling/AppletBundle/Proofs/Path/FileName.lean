import AppletBundle.Proofs.Path.Inner

/-!
# Files in a directory

A file name is a text that is one name of a path (`IsFileName`). Joined to a directory, however that
is written, it adds itself as the last component (`IsFileName.components_join`), and taking the
directory away again leaves the name as it was written (`IsFileName.stripPrefix?_join`). The same is
true of several names below each other (`stripPrefix?_join_names`).

For the second the text is followed through its segments: those of the joined path are some for the
directory and then the names, and as many of the former count as the directory has components.
-/

namespace AppletBundle.Path

/-- A text that is a name as it stands. -/
structure IsFileName (name : String) : Prop where
  not_mem : '/' ∉ name.toList
  ofSegment?_eq : ofSegment? name.toList = some (.normal name)

namespace IsFileName

variable {name : String}

theorem not_isIdle (h : IsFileName name) : isIdle name.toList = false := by
  rw [Bool.eq_false_iff]
  intro hidle
  have hnone : ofSegment? name.toList = none := if_pos hidle
  rw [h.ofSegment?_eq] at hnone
  cases hnone

theorem components_eq (h : IsFileName name) : (⟨name⟩ : Path).components = [.normal name] := by
  have hhead : head? name.toList = none := head?_joinSegments h.not_mem h.not_isIdle []
  rw [Path.components_eq, hhead, bodyComponents, segments_of_not_mem h.not_mem,
    List.filterMap_cons_some h.ofSegment?_eq]
  rfl

theorem isInner (h : IsFileName name) : (⟨name⟩ : Path).IsInner := by
  intro c hc
  rw [h.components_eq, List.mem_singleton] at hc
  exact ⟨name, hc⟩

/-- **A file name is one more component.** -/
theorem components_join (h : IsFileName name) (dir : Path) :
    (dir.join ⟨name⟩).components = dir.components ++ [.normal name] := by
  rw [h.isInner.components_join, h.components_eq]

end IsFileName

/-- A name with an extension that is a name itself. -/
theorem isFileName_append {base extension : String} (hbase : '/' ∉ base.toList)
    (hslash : '/' ∉ extension.toList) (hlength : 2 ≤ extension.toList.length) :
    IsFileName (base ++ "." ++ extension) := by
  have htext : (base ++ "." ++ extension).toList = base.toList ++ '.' :: extension.toList := by
    rw [String.toList_append, String.toList_append]
    simp
  have hlong : 3 ≤ (base ++ "." ++ extension).toList.length := by
    rw [htext, List.length_append, List.length_cons]
    omega
  have hne : ∀ u : List Char, u.length ≤ 2 → (base ++ "." ++ extension).toList ≠ u := by
    rintro u hu rfl
    omega
  refine ⟨?_, ?_⟩
  · rw [htext, List.mem_append, List.mem_cons]
    rintro (h | h | h)
    · exact hbase h
    · cases h
    · exact hslash h
  · have hidle : isIdle (base ++ "." ++ extension).toList = false := by
      rw [isIdle, Bool.or_eq_false_iff, beq_eq_false_iff_ne, beq_eq_false_iff_ne]
      exact ⟨hne [] (by decide), hne ['.'] (by decide)⟩
    rw [ofSegment?, if_neg (ne_true_of_eq_false hidle), if_neg (hne ['.', '.'] (by decide)),
      String.ofList_toList]

/-! ### Several names -/

/-- Names below each other, as a path. -/
def ofNames (names : List String) : Path :=
  ⟨"/".intercalate names⟩

theorem ofNames_eq_ofComponents (names : List String) :
    ofNames names = ofComponents (names.map .normal) := by
  have htexts : (names.map Component.normal).map Component.text = names := by
    rw [List.map_map]
    exact List.map_id' names
  unfold ofComponents
  split
  · rename_i rest hroot
    have hmem : Component.root ∈ names.map Component.normal := by
      rw [hroot]
      exact List.mem_cons_self
    obtain ⟨n, -, hn⟩ := List.mem_map.1 hmem
    cases hn
  · rw [htexts, ofNames]

section Names

variable {names : List String} (hnames : ∀ n ∈ names, IsFileName n)

include hnames

theorem components_ofNames : (ofNames names).components = names.map .normal := by
  rw [ofNames_eq_ofComponents]
  refine components_ofComponents fun c hc ↦ ?_
  obtain ⟨n, hn, rfl⟩ := List.mem_map.1 hc
  exact ⟨(hnames n hn).not_mem, (hnames n hn).ofSegment?_eq⟩

theorem isInner_ofNames : (ofNames names).IsInner := by
  intro c hc
  rw [components_ofNames hnames] at hc
  obtain ⟨n, -, rfl⟩ := List.mem_map.1 hc
  exact ⟨n, rfl⟩

theorem segments_ofNames (hne : names ≠ []) :
    segments (ofNames names).text.toList = names.map String.toList := by
  have htext : (ofNames names).text.toList = joinSegments (names.map String.toList) := by
    rw [ofNames, String.toList_intercalate, joinSegments_eq_intercalate]
    rfl
  rw [htext]
  refine segments_joinSegments (by simpa using hne) fun u hu ↦ ?_
  obtain ⟨n, hn, rfl⟩ := List.mem_map.1 hu
  exact (hnames n hn).not_mem

theorem not_isIdle_of_mem_map {u : List Char} (hu : u ∈ names.map String.toList) :
    isIdle u = false := by
  obtain ⟨n, hn, rfl⟩ := List.mem_map.1 hu
  exact (hnames n hn).not_isIdle

end Names

/-! ### Taking a directory away -/

/-- The body of a text is made of its segments, without the head. -/
theorem body_eq (s : List Char) :
    (headAndBody s).2.2 = match head? s with
      | none => segments s
      | some .current => [] :: (segments s).tail
      | some _ => (segments s).tail := by
  unfold head? headAndBody
  split <;> simp [segments]

/-- What follows a separator is in the body. -/
theorem exists_body_append (s u : List Char) :
    ∃ us, (headAndBody (s ++ '/' :: u)).2.2 = us ++ segments u := by
  obtain ⟨v, vs, hv⟩ := List.exists_cons_of_ne_nil (segments_ne_nil s)
  have hsegments : segments (s ++ '/' :: u) = v :: (vs ++ segments u) := by
    rw [segments_append_separator, hv]
    rfl
  rw [body_eq, hsegments]
  rcases head?_eq (s ++ '/' :: u) with h | h | h
  · rw [h]
    exact ⟨v :: vs, rfl⟩
  · rw [h]
    exact ⟨vs, rfl⟩
  · rw [h]
    exact ⟨[] :: vs, rfl⟩

theorem ofSegment?_eq_none_iff {s : List Char} : ofSegment? s = none ↔ isIdle s := by
  refine ⟨fun h ↦ ?_, fun h ↦ if_pos h⟩
  unfold ofSegment? at h
  split at h
  · assumption
  · split at h <;> cases h

theorem dropWhile_isIdle_eq_self {us : List (List Char)} (hus : ∀ u ∈ us, isIdle u = false) :
    us.dropWhile isIdle = us := by
  cases us with
  | nil => rfl
  | cons u us =>
    exact List.dropWhile_cons_of_neg (ne_true_of_eq_false (hus u List.mem_cons_self))

/-- Segments are dropped by their number, not counting idle ones. -/
theorem dropComponents_append {vs : List (List Char)} (hvs : ∀ v ∈ vs, isIdle v = false)
    (us : List (List Char)) :
    dropComponents (us.filterMap ofSegment?).length (us ++ vs) = vs := by
  induction us with
  | nil =>
    rw [List.nil_append, List.filterMap_nil, List.length_nil, dropComponents]
    exact dropWhile_isIdle_eq_self hvs
  | cons v us ih =>
    rcases hv : ofSegment? v with - | c
    · have hidle := ofSegment?_eq_none_iff.1 hv
      rw [List.filterMap_cons_none hv, List.cons_append]
      -- an idle segment is passed over, whatever is left to drop
      rcases hn : (us.filterMap ofSegment?).length with - | n
      · rw [hn, dropComponents] at ih
        rw [dropComponents, List.dropWhile_cons_of_pos hidle, ih]
      · rw [dropComponents, if_pos hidle, ← hn, ih]
    · have hidle : ¬ isIdle v := by
        rw [← ofSegment?_eq_none_iff, hv]
        exact Option.some_ne_none c
      rw [List.filterMap_cons_some hv, List.length_cons, List.cons_append, dropComponents,
        if_neg hidle, ih]

theorem trimIdleEnd_eq_self {us : List (List Char)} (hus : ∀ u ∈ us, isIdle u = false) :
    trimIdleEnd us = us := by
  rw [trimIdleEnd, dropWhile_isIdle_eq_self fun u hu ↦ hus u (List.mem_reverse.1 hu),
    List.reverse_reverse]

/-- A text without components is empty. -/
theorem text_eq_empty_of_components_eq_nil {p : Path} (hp : p.components = []) : p.text = "" := by
  rw [components_eq, List.append_eq_nil_iff] at hp
  obtain ⟨hhead, hbody⟩ := hp
  by_contra hne
  have hne' : p.text.toList ≠ [] := fun h ↦ hne (String.toList_eq_nil_iff.1 h)
  have hnone : head? p.text.toList = none := by
    rcases h : head? p.text.toList with - | c
    · rfl
    · rw [h] at hhead
      cases hhead
  obtain ⟨u, us, hsegments, hu⟩ := exists_segments_eq_cons hne' hnone
  rw [bodyComponents, hsegments] at hbody
  have hfirst := List.filterMap_eq_nil_iff.1 hbody u List.mem_cons_self
  rw [ofSegment?_eq_none_iff, hu] at hfirst
  cases hfirst

/-- What the text of a joined path is. -/
theorem exists_text_join {dir q : Path} (hq : q.isAbsolute = false) (hdir : dir.text ≠ "") :
    ∃ s, (dir.join q).text.toList = s ++ '/' :: q.text.toList := by
  rw [join, if_neg (ne_true_of_eq_false hq)]
  by_cases hend : dir.text.endsWith "/"
  · obtain ⟨s, hs⟩ := endsWith_separator_iff.1 hend
    rw [if_pos (by rw [hend, Bool.or_true])]
    exact ⟨s, by rw [String.toList_append, hs]; simp⟩
  · rw [if_neg (by simp [hdir, hend])]
    exact ⟨dir.text.toList, by rw [String.toList_append, String.toList_append]; simp⟩

/-- **The directory of a file is taken away again.** -/
theorem stripPrefix?_join_names {names : List String} (hnames : ∀ n ∈ names, IsFileName n)
    (hne : names ≠ []) (dir : Path) :
    (dir.join (ofNames names)).stripPrefix? dir = some (ofNames names) := by
  have hinner := isInner_ofNames hnames
  have hsegments := segments_ofNames hnames hne
  have hidle : ∀ u ∈ names.map String.toList, isIdle u = false :=
    fun u hu ↦ not_isIdle_of_mem_map hnames hu
  have hcomponents : (dir.join (ofNames names)).components =
      dir.components ++ names.map .normal := by
    rw [hinner.components_join, components_ofNames hnames]
  have hstarts : (dir.join (ofNames names)).startsWith dir := by
    rw [startsWith, hcomponents, List.isPrefixOf_iff_prefix]
    exact List.prefix_append _ _
  have hjoined : joinSegments (trimIdleEnd (names.map String.toList)) =
      (ofNames names).text.toList := by
    rw [trimIdleEnd_eq_self hidle, ofNames, String.toList_intercalate, joinSegments_eq_intercalate]
    rfl
  rw [stripPrefix?, if_pos hstarts]
  by_cases hempty : dir.text = ""
  · have htext : dir.join (ofNames names) = ofNames names := by
      rw [join, if_neg (ne_true_of_eq_false hinner.not_isAbsolute), hempty]
      simp
    have hnone : dir.components = [] := by
      rw [Path.components_eq, hempty]
      rfl
    rw [htext, headAndBody_of_head?_eq_none hinner.head?_eq_none, hnone, hsegments]
    show some (Path.mk (.ofList ([] ++ joinSegments (trimIdleEnd (names.map String.toList))))) = _
    rw [hjoined, List.nil_append, String.ofList_toList]
  · have hlength : dir.components.length ≠ 0 := by
      intro hzero
      exact hempty (text_eq_empty_of_components_eq_nil (List.eq_nil_of_length_eq_zero hzero))
    obtain ⟨s, hs⟩ := exists_text_join hinner.not_isAbsolute hempty
    obtain ⟨us, hus⟩ := exists_body_append s (ofNames names).text.toList
    rw [hsegments] at hus
    have hbody : (names.map String.toList).filterMap ofSegment? = names.map .normal := by
      rw [← hsegments]
      exact hinner.components_eq.symm.trans (components_ofNames hnames)
    -- the directory has the head and the segments before the names
    have hdir : dir.components =
        (head? (s ++ '/' :: (ofNames names).text.toList)).toList ++ us.filterMap ofSegment? := by
      have hall : (dir.join (ofNames names)).components =
          (head? (s ++ '/' :: (ofNames names).text.toList)).toList ++
            (headAndBody (s ++ '/' :: (ofNames names).text.toList)).2.2.filterMap ofSegment? := by
        rw [← hs]
        rfl
      rw [hus, List.filterMap_append, hbody, ← List.append_assoc, hcomponents] at hall
      exact List.append_inj_left' hall rfl
    have hcount : dir.components.length -
        (head? (s ++ '/' :: (ofNames names).text.toList)).toList.length =
          (us.filterMap ofSegment?).length := by
      rw [hdir, List.length_append, Nat.add_sub_cancel_left]
    rw [hs]
    show some (Path.mk (.ofList (if dir.components.length = 0 then _ else joinSegments (trimIdleEnd
      (dropComponents (dir.components.length -
          (head? (s ++ '/' :: (ofNames names).text.toList)).toList.length)
        (headAndBody (s ++ '/' :: (ofNames names).text.toList)).2.2))))) = _
    rw [if_neg hlength, hcount, hus, dropComponents_append hidle, hjoined, String.ofList_toList]

theorem IsFileName.stripPrefix?_join {name : String} (h : IsFileName name) (dir : Path) :
    (dir.join ⟨name⟩).stripPrefix? dir = some ⟨name⟩ := by
  have hself : ofNames [name] = ⟨name⟩ := by simp [ofNames]
  rw [← hself]
  exact stripPrefix?_join_names (by simpa using h) (List.cons_ne_nil name []) dir

/-- Nothing is left of a directory without itself. -/
theorem stripPrefix?_self (p : Path) : p.stripPrefix? p = some ⟨""⟩ := by
  have hstarts : p.startsWith p := List.isPrefixOf_iff_prefix.2 List.prefix_rfl
  have hcomponents : p.components = (headAndBody p.text.toList).2.1.toList ++
      (headAndBody p.text.toList).2.2.filterMap ofSegment? := rfl
  rw [stripPrefix?, if_pos hstarts]
  by_cases hzero : p.components.length = 0
  · obtain ⟨text⟩ := p
    obtain rfl : text = "" :=
      text_eq_empty_of_components_eq_nil (List.eq_nil_of_length_eq_zero hzero)
    rfl
  · have hcount : p.components.length - (headAndBody p.text.toList).2.1.toList.length =
        ((headAndBody p.text.toList).2.2.filterMap ofSegment?).length := by
      rw [hcomponents, List.length_append, Nat.add_sub_cancel_left]
    have hdropped := dropComponents_append (List.forall_mem_nil (isIdle · = false))
      (headAndBody p.text.toList).2.2
    rw [List.append_nil, ← hcount] at hdropped
    show some (Path.mk (.ofList (if p.components.length = 0 then _ else joinSegments (trimIdleEnd
      (dropComponents (p.components.length - (headAndBody p.text.toList).2.1.toList.length)
        (headAndBody p.text.toList).2.2))))) = _
    rw [if_neg hzero, hdropped]
    rfl

/-! ### Going down by names -/

theorem ofNames_text_ne_empty {names : List String} (hnames : ∀ n ∈ names, IsFileName n)
    (hne : names ≠ []) : (ofNames names).text ≠ "" := by
  intro hempty
  have hsegments := segments_ofNames hnames hne
  rw [hempty] at hsegments
  have hidle : isIdle [] = false :=
    not_isIdle_of_mem_map hnames (hsegments ▸ List.mem_singleton_self [])
  cases hidle

theorem not_endsWith_ofNames {names : List String} (hnames : ∀ n ∈ names, IsFileName n)
    (hne : names ≠ []) : ¬ (ofNames names).text.endsWith "/" := by
  intro hend
  obtain ⟨s, hs⟩ := endsWith_separator_iff.1 hend
  have hsegments := segments_ofNames hnames hne
  rw [hs, segments_append_separator] at hsegments
  have hidle : isIdle [] = false := not_isIdle_of_mem_map hnames
    (hsegments ▸ List.mem_append_right _ (List.mem_singleton_self []))
  cases hidle

theorem not_endsWith_append (s : String) {u : String} (hne : u ≠ "") (hend : ¬ u.endsWith "/") :
    ¬ (s ++ u).endsWith "/" := by
  have hu : u.toList ≠ [] := fun h ↦ hne (String.toList_eq_nil_iff.1 h)
  rw [endsWith_separator_iff] at hend ⊢
  rintro ⟨v, hv⟩
  rw [String.toList_append, ← List.dropLast_append_getLast hu, ← List.append_assoc] at hv
  have hlast := (List.append_inj' hv rfl).2
  exact hend ⟨u.toList.dropLast, by rw [← hlast, List.dropLast_append_getLast hu]⟩

theorem ofNames_cons (name : String) {names : List String} (hne : names ≠ []) :
    (ofNames (name :: names)).text = name ++ "/" ++ (ofNames names).text :=
  String.intercalate_cons_of_ne_nil hne

theorem ofNames_concat {names : List String} (hne : names ≠ []) (n : String) :
    (ofNames (names ++ [n])).text = (ofNames names).text ++ "/" ++ n := by
  induction names with
  | nil => exact absurd rfl hne
  | cons name names ih =>
    cases names with
    | nil => simp [ofNames]
    | cons other names =>
      rw [List.cons_append, ofNames_cons name (by simp), ih (List.cons_ne_nil other names),
        ofNames_cons name (List.cons_ne_nil other names)]
      simp only [String.append_assoc]

/-- What a path is joined to stands in front of it. -/
theorem exists_join_eq (p : Path) :
    ∃ front : String, ∀ q : Path, q.isAbsolute = false → p.join q = ⟨front ++ q.text⟩ := by
  by_cases hend : p.text.isEmpty || p.text.endsWith "/"
  · refine ⟨p.text, fun q hq ↦ ?_⟩
    rw [join, if_neg (ne_true_of_eq_false hq), if_pos hend]
  · refine ⟨p.text ++ "/", fun q hq ↦ ?_⟩
    rw [join, if_neg (ne_true_of_eq_false hq), if_neg hend]

/-- A separator at the end stays there. -/
theorem endsWith_join (p : Path) {q : Path} (hq : q.text.endsWith "/") :
    (p.join q).text.endsWith "/" := by
  by_cases habsolute : q.isAbsolute
  · rwa [join, if_pos habsolute]
  · obtain ⟨front, hfront⟩ := exists_join_eq p
    obtain ⟨s, hs⟩ := endsWith_separator_iff.1 hq
    rw [hfront q (by simpa using habsolute)]
    exact endsWith_separator_iff.2 ⟨front.toList ++ s, by
      rw [String.toList_append, hs, List.append_assoc]⟩

/-- **One more name is joined behind the others.** -/
theorem join_ofNames_join {names : List String} (hnames : ∀ n ∈ names, IsFileName n)
    (hne : names ≠ []) {n : String} (hn : IsFileName n) (p : Path) :
    (p.join (ofNames names)).join ⟨n⟩ = p.join (ofNames (names ++ [n])) := by
  obtain ⟨front, hfront⟩ := exists_join_eq p
  have hall : ∀ m ∈ names ++ [n], IsFileName m := by
    intro m hm
    rcases List.mem_append.1 hm with hm | hm
    · exact hnames m hm
    · rwa [List.mem_singleton.1 hm]
  have htext := ofNames_concat hne n
  have hopen : ¬ ((front ++ (ofNames names).text).isEmpty ||
      (front ++ (ofNames names).text).endsWith "/") := by
    rw [Bool.or_eq_true, not_or]
    refine ⟨?_, not_endsWith_append front (ofNames_text_ne_empty hnames hne)
      (not_endsWith_ofNames hnames hne)⟩
    simp [ofNames_text_ne_empty hnames hne]
  rw [hfront _ (isInner_ofNames hnames).not_isAbsolute,
    hfront _ (isInner_ofNames hall).not_isAbsolute, join,
    if_neg (ne_true_of_eq_false hn.isInner.not_isAbsolute), if_neg hopen, htext,
    String.append_assoc, String.append_assoc, String.append_assoc]

/-- A name is joined in front of the others. -/
theorem IsFileName.join_ofNames {name : String} (h : IsFileName name) {names : List String}
    (hnames : ∀ n ∈ names, IsFileName n) (hne : names ≠ []) :
    (⟨name⟩ : Path).join (ofNames names) = ofNames (name :: names) := by
  have hempty : ¬ name.isEmpty := by
    rw [String.isEmpty_iff]
    rintro rfl
    cases h.ofSegment?_eq
  have hend : ¬ name.endsWith "/" := by
    rw [endsWith_separator_iff]
    rintro ⟨s, hs⟩
    exact h.not_mem (hs ▸ List.mem_append_right s (List.mem_singleton_self '/'))
  have htext := ofNames_cons name hne
  rw [join, if_neg (ne_true_of_eq_false (isInner_ofNames hnames).not_isAbsolute),
    if_neg (by simp [hempty, hend]), ← htext]

end AppletBundle.Path
