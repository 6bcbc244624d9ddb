import AppletBundle.Proofs.Style.Scanning
import AppletBundle.Proofs.Text.Trim
import Mathlib.Data.List.Induction
import Mathlib.Data.List.TakeWhile

/-!
# Where an attribute is inserted

The search for the place of an attribute reads a selector by its compounds and bracketed groups; the
scan behind a split reads it by its strings. They disagree on much, since a compound may hold a
quotation mark and a group may begin inside a string. But they agree on backslashes (`Agrees`): where
the scan has an escape pending, the search has one too, or is inside a group. So the attribute never
comes between a backslash in a string and the character it escapes, unless nothing follows
(`insertionPoint_spec`), and for the scan the selector stays what it was
(`isWhole_injectAttribute`, `settle_scan_injectAttribute`).
-/

namespace AppletBundle.Style

open AppletBundle.Text

/-! ### The search and the scan -/

/-- The two readers agree on backslashes, the inside of groups apart. -/
def Agrees : SelectorState → Quoting → Prop
  | .pseudoArgument .., _ => True
  | .brackets .., _ => True
  | .compoundEscape, q => ∀ quote, q ≠ .inside quote
  | _, q => ∀ quote, q ≠ .escaped quote

theorem Quoting.step_ne_escaped {c : Char} (hc : c ≠ '\\') (q : Quoting) (quote : Char) :
    q.step c ≠ .escaped quote := by
  cases q with
  | outside =>
    show (if _ then Quoting.inside c else .outside) ≠ _
    split <;> nofun
  | inside quote' =>
    show (if c = '\\' then Quoting.escaped quote' else if c = quote' then .outside
      else .inside quote') ≠ _
    rw [if_neg hc]
    split <;> nofun
  | escaped quote' => nofun

theorem Quoting.step_backslash_ne_inside {q : Quoting} (hq : ∀ quote, q ≠ .escaped quote)
    (quote : Char) : q.step '\\' ≠ .inside quote := by
  cases q with
  | outside => nofun
  | inside quote' => nofun
  | escaped quote' => exact absurd rfl (hq quote')

/-- The first character of a part. A backslash begins an escape for both readers. -/
theorem agrees_start {q : Quoting} (hq : ∀ quote, q ≠ .escaped quote) (c : Char) :
    Agrees (SelectorState.start c) (q.step c) := by
  unfold SelectorState.start
  split
  · rename_i hc
    exact q.step_ne_escaped (by rintro rfl; simp [isCombinator] at hc)
  · split
    · rename_i hc
      exact q.step_ne_escaped (by rintro rfl; simp at hc)
    · split
      · trivial
      · split
        · rename_i hc
          subst hc
          exact Quoting.step_backslash_ne_inside hq
        · exact q.step_ne_escaped ‹_›

/-- Groups close with a character that is no backslash, so the readers agree after them whatever
they made of the inside. -/
theorem agrees_inGroup {opener closer : Char} {group : Quoting → ℕ → SelectorState}
    (hgroup : ∀ own depth q, Agrees (group own depth) q) (hcloser : closer ≠ '\\') (own : Quoting)
    (depth : ℕ) (q : Quoting) (c : Char) :
    Agrees (SelectorState.inGroup opener closer group own depth c) (q.step c) := by
  unfold SelectorState.inGroup
  split
  · split
    · exact hgroup _ _ _
    · split
      · rename_i hc
        subst hc
        split
        · exact q.step_ne_escaped hcloser
        · exact hgroup _ _ _
      · exact hgroup _ _ _
  · exact hgroup _ _ _

/-- **The readers go on agreeing.** -/
theorem Agrees.step {state : SelectorState} {q : Quoting} (h : Agrees state q) (c : Char) :
    Agrees (state.step c) (q.step c) := by
  cases state with
  | gap => exact agrees_start h c
  | colon =>
    show Agrees (if isIdentChar c || c = ':' then .pseudoName
      else if c = '(' then .pseudoArgument .outside 0 else .start c) _
    split
    · rename_i hc
      exact q.step_ne_escaped (by rintro rfl; exact absurd hc (by decide))
    · split
      · trivial
      · exact agrees_start h c
  | pseudoName =>
    show Agrees (if isIdentChar c then .pseudoName
      else if c = '(' then .pseudoArgument .outside 0 else .start c) _
    split
    · rename_i hc
      exact q.step_ne_escaped (by rintro rfl; exact absurd hc (by decide))
    · split
      · trivial
      · exact agrees_start h c
  | pseudoArgument own depth =>
    have hgroup : ∀ own depth q, Agrees (.pseudoArgument own depth) q := fun _ _ _ ↦ trivial
    exact agrees_inGroup hgroup (by decide) own depth q c
  | brackets own depth =>
    have hgroup : ∀ own depth q, Agrees (.brackets own depth) q := fun _ _ _ ↦ trivial
    exact agrees_inGroup hgroup (by decide) own depth q c
  | compound =>
    show Agrees (if isCombinator c || c = ':' || c = '[' || c = '\\' then .start c else .compound) _
    split
    · exact agrees_start h c
    · rename_i hc
      exact q.step_ne_escaped (by rintro rfl; exact hc (by decide))
  | compoundEscape =>
    -- no string is open that the character could escape from
    intro quote
    cases q with
    | outside =>
      show (if _ then Quoting.inside c else .outside) ≠ _
      split <;> nofun
    | inside quote' => exact absurd rfl (h quote')
    | escaped quote' => nofun

/-! ### The place -/

/-- The quoting after a text that begins outside strings. -/
def quotingAfter (t : List Char) : Quoting :=
  t.foldl Quoting.step .outside

theorem quotingAfter_concat (t : List Char) (c : Char) :
    quotingAfter (t ++ [c]) = (quotingAfter t).step c :=
  List.foldl_append

theorem scan_fst (depth : ℕ) (t : List Char) :
    (scan (.outside, depth) t).1 = quotingAfter t := by
  have hrun : ∀ s : ScanState, (scan s t).1 = t.foldl Quoting.step s.1 := by
    induction t with
    | nil => exact fun _ ↦ rfl
    | cons c t ih => exact fun s ↦ ih (scanStep s c)
  exact hrun _

/-- The search after a text. -/
def searchAfter (t : List Char) : InsertionSearch :=
  t.foldl InsertionSearch.step ⟨.gap, 0, none⟩

theorem searchAfter_concat (t : List Char) (c : Char) :
    searchAfter (t ++ [c]) = (searchAfter t).step c :=
  List.foldl_append

theorem searchAfter_count (t : List Char) : (searchAfter t).count = t.length := by
  induction t using List.reverseRecOn with
  | nil => rfl
  | append_singleton t c ih =>
    rw [searchAfter_concat, List.length_append, List.length_singleton, ← ih]
    rfl

theorem agrees_searchAfter (t : List Char) : Agrees (searchAfter t).state (quotingAfter t) := by
  induction t using List.reverseRecOn with
  | nil => exact fun quote ↦ nofun
  | append_singleton t c ih =>
    rw [searchAfter_concat, quotingAfter_concat]
    exact ih.step c

theorem SelectorState.step_of_isEnd {state next : SelectorState} (h : isEnd state next = true) :
    next = .compound ∨ next = .compoundEscape ∨ next = .gap := by
  unfold isEnd at h
  split at h
  · exact Or.inl rfl
  · exact Or.inr (Or.inl rfl)
  · exact Or.inr (Or.inr rfl)
  · exact absurd h (by decide)

/-- No escape is pending at a place that the search remembers, unless the text ends there. -/
theorem searchAfter_last {t : List Char} {p : ℕ} (hp : (searchAfter t).last = some p) :
    p ≤ t.length ∧ ((∀ quote, quotingAfter (t.take p) ≠ .escaped quote) ∨
      p = t.length ∧ (searchAfter t).state = .compoundEscape) := by
  induction t using List.reverseRecOn with
  | nil => exact absurd hp.symm (Option.some_ne_none p)
  | append_singleton t c ih =>
    have hagrees := agrees_searchAfter (t ++ [c])
    rw [searchAfter_concat] at hp hagrees ⊢
    rw [List.length_append, List.length_singleton]
    change (if SelectorState.isEnd (searchAfter t).state ((searchAfter t).state.step c)
      then some ((searchAfter t).count + 1) else (searchAfter t).last) = some p at hp
    change Agrees ((searchAfter t).state.step c) _ at hagrees
    split at hp
    · rename_i hend
      have hlength : p = t.length + 1 := by
        rw [searchAfter_count, Option.some.injEq] at hp
        exact hp.symm
      subst hlength
      refine ⟨Nat.le_refl _, ?_⟩
      rw [List.take_of_length_le (by simp)]
      rcases SelectorState.step_of_isEnd hend with hnext | hnext | hnext
      · rw [hnext] at hagrees
        exact Or.inl hagrees
      · exact Or.inr ⟨rfl, hnext⟩
      · rw [hnext] at hagrees
        exact Or.inl hagrees
    · rename_i hend
      obtain ⟨hle, hsafe | ⟨-, hstate⟩⟩ := ih hp
      · rw [List.take_append_of_le_length hle]
        exact ⟨Nat.le_succ_of_le hle, Or.inl hsafe⟩
      · -- whatever follows a backslash belongs to its compound
        rw [hstate] at hend
        exact absurd rfl hend

theorem insertionPoint?_spec {t : List Char} {p : ℕ} (hp : insertionPoint? t = some p) :
    p = t.length ∨ ∀ quote, quotingAfter (t.take p) ≠ .escaped quote := by
  have hsearch : t.foldl InsertionSearch.step ⟨.gap, 0, none⟩ = searchAfter t := rfl
  rw [insertionPoint?, hsearch] at hp
  split at hp
  · rw [searchAfter_count, Option.some.injEq] at hp
    exact Or.inl hp.symm
  · obtain ⟨-, hsafe | ⟨hlength, -⟩⟩ := searchAfter_last hp
    · exact Or.inr hsafe
    · exact Or.inl hlength

/-- **The attribute never comes between a backslash in a string and the character it escapes**,
unless it comes last. -/
theorem injectAttribute_spec (t : List Char) :
    ∃ before after, trim t = before ++ after ∧
      (∀ attr, injectAttribute t attr = before ++ attributeSelector attr ++ after) ∧
      (after = [] ∨ ∀ quote, quotingAfter before ≠ .escaped quote) := by
  refine ⟨(trim t).take ((insertionPoint? (trim t)).getD 0),
    (trim t).drop ((insertionPoint? (trim t)).getD 0),
    (List.take_append_drop _ _).symm, fun _ ↦ rfl, ?_⟩
  rcases hp : insertionPoint? (trim t) with - | p
  · exact Or.inr fun quote ↦ nofun
  · rcases insertionPoint?_spec hp with hend | hsafe
    · exact Or.inl (List.drop_of_length_le (Nat.le_of_eq hend.symm))
    · exact Or.inr hsafe

/-! ### Trimmed text -/

variable {s : ScanState}

theorem isProper_of_eq_outside (hs : s.1 = .outside) : s.1.IsProper := by
  rw [hs]
  trivial

theorem scan_plain_outside (hs : s.1 = .outside) {t : List Char} (ht : IsPlain t) :
    scan s t = s := by
  rcases t with - | ⟨c, t⟩
  · rfl
  · rw [scan_plain (isProper_of_eq_outside hs) ht (List.cons_ne_nil _ _)]
    exact ScanState.settle_eq_self fun quote ↦ by rw [hs]; nofun

/-- The scan of a text and of what trimming at the end leaves. -/
theorem settle_scan_trimEnd (hs : s.1.IsProper) (t : List Char) :
    (scan s (trimEnd t)).settle = (scan s t).settle := by
  obtain ⟨blanks, hblanks, ht⟩ := exists_blanks_trimEnd t
  conv_rhs => rw [ht, scan_append]
  exact (settle_scan_plain (isProper_scan hs _) (isPlain_of_isBlank hblanks)).symm

theorem isWhole_trimEnd {t : List Char} (ht : IsWhole ',' s t) : IsWhole ',' s (trimEnd t) := by
  obtain ⟨blanks, -, htrim⟩ := exists_blanks_trimEnd t
  rw [htrim] at ht
  exact (isWhole_append.1 ht).1

theorem scan_trimStart (hs : s.1 = .outside) (t : List Char) :
    scan s (trimStart t) = scan s t := by
  obtain ⟨blanks, hblanks, ht⟩ := exists_blanks_trimStart t
  conv_rhs => rw [ht, scan_append, scan_plain_outside hs (isPlain_of_isBlank hblanks)]

theorem isWhole_trimStart (hs : s.1 = .outside) {t : List Char} (ht : IsWhole ',' s t) :
    IsWhole ',' s (trimStart t) := by
  obtain ⟨blanks, hblanks, htrim⟩ := exists_blanks_trimStart t
  rw [htrim, isWhole_append, scan_plain_outside hs (isPlain_of_isBlank hblanks)] at ht
  exact ht.2

/-- The scan of a text and of what trimming leaves, outside strings. -/
theorem settle_scan_trim (hs : s.1 = .outside) (t : List Char) :
    (scan s (trim t)).settle = (scan s t).settle := by
  rw [trim, settle_scan_trimEnd (isProper_of_eq_outside hs), scan_trimStart hs]

theorem isWhole_trim (hs : s.1 = .outside) {t : List Char} (ht : IsWhole ',' s t) :
    IsWhole ',' s (trim t) :=
  isWhole_trimEnd (isWhole_trimStart hs ht)

/-! ### Selectors with an attribute -/

/-- Inside a string only quotation marks and backslashes matter. -/
theorem scan_inside {quote : Char} (hquote : (Quoting.inside quote).IsProper) {depth : ℕ}
    {t : List Char} (ht : ∀ c ∈ t, c ≠ '"' ∧ c ≠ '\'' ∧ c ≠ '\\') :
    scan (.inside quote, depth) t = (.inside quote, depth) := by
  induction t with
  | nil => rfl
  | cons c t ih =>
    obtain ⟨⟨hdouble, hsingle, hbackslash⟩, htail⟩ := List.forall_mem_cons.1 ht
    have hne : c ≠ quote := by
      rcases hquote with rfl | rfl
      · exact hdouble
      · exact hsingle
    have hstep : scanStep (.inside quote, depth) c = (.inside quote, depth) := by
      simp [scanStep, Quoting.step, hbackslash, hne]
    rw [scan_cons, hstep]
    exact ih htail

/-- **An attribute selector leaves the scan where it is**, but for a pending escape. -/
theorem scan_attributeSelector (hs : s.1.IsProper) {attr : List Char} (hattr : IsPlain attr) :
    scan s (attributeSelector attr) = s.settle := by
  have hchars : ∀ c ∈ attr ++ [']'], c ≠ '"' ∧ c ≠ '\'' ∧ c ≠ '\\' := by
    intro c hc
    rcases List.mem_append.1 hc with hc | hc
    · have hnone := hattr c hc
      simp only [scanChars, List.mem_cons, not_or] at hnone
      exact ⟨hnone.1, hnone.2.1, hnone.2.2.1⟩
    · rw [List.mem_singleton.1 hc]
      decide
  obtain ⟨q, depth⟩ := s
  rw [attributeSelector, List.cons_append]
  cases q with
  | outside =>
    have hopen : scanStep (.outside, depth) '[' = (.outside, depth + 1) := rfl
    rw [scan_cons, hopen, scan_append, scan_plain_outside rfl hattr]
    rfl
  | inside quote =>
    refine scan_inside hs (List.forall_mem_cons.2 ⟨?_, hchars⟩)
    decide
  | escaped quote => exact scan_inside hs hchars

theorem isWhole_attributeSelector {attr : List Char} (hattr : IsPlain attr) :
    IsWhole ',' s (attributeSelector attr) := by
  refine isWhole_of_not_mem fun hmem ↦ ?_
  have hmem' : ',' ∈ attr := by simpa [attributeSelector] using hmem
  exact hattr _ hmem' (by decide)

/-- Outside a pending escape an attribute selector does not move the scan at all. -/
theorem settle_scan_before (hs : s.1 = .outside) {before : List Char}
    (hbefore : ∀ quote, quotingAfter before ≠ .escaped quote) :
    (scan s before).settle = scan s before := by
  obtain ⟨q, depth⟩ := s
  obtain rfl : q = .outside := hs
  refine ScanState.settle_eq_self fun quote ↦ ?_
  rw [scan_fst]
  exact hbefore quote

/-- **The scan does not see that a selector got an attribute**, but for an escape that is pending at
its end. -/
theorem settle_scan_injectAttribute (hs : s.1 = .outside) {attr : List Char}
    (hattr : IsPlain attr) (t : List Char) :
    (scan s (injectAttribute t attr)).settle = (scan s t).settle := by
  obtain ⟨before, after, htrim, hinject, hplace⟩ := injectAttribute_spec t
  have hproper : (scan s before).1.IsProper := isProper_scan (isProper_of_eq_outside hs) _
  rw [hinject, ← settle_scan_trim hs t, htrim, scan_append, scan_append, scan_append,
    scan_attributeSelector hproper hattr]
  rcases hplace with rfl | hbefore
  · exact ScanState.settle_settle _
  · rw [settle_scan_before hs hbefore]

/-- **A selector that is one part stays one part** when it gets an attribute. -/
theorem isWhole_injectAttribute (hs : s.1 = .outside) {attr : List Char} (hattr : IsPlain attr)
    {t : List Char} (ht : IsWhole ',' s t) : IsWhole ',' s (injectAttribute t attr) := by
  obtain ⟨before, after, htrim, hinject, hplace⟩ := injectAttribute_spec t
  have hproper : (scan s before).1.IsProper := isProper_scan (isProper_of_eq_outside hs) _
  obtain ⟨hbefore, hafter⟩ := isWhole_append.1 (htrim ▸ isWhole_trim hs ht)
  rw [hinject, isWhole_append, isWhole_append, scan_append, scan_attributeSelector hproper hattr]
  refine ⟨⟨hbefore, isWhole_attributeSelector hattr⟩, ?_⟩
  rcases hplace with rfl | hsafe
  · trivial
  · rwa [settle_scan_before hs hsafe]

theorem attributeSelector_infix_injectAttribute (t attr : List Char) :
    attributeSelector attr <:+: injectAttribute t attr := by
  obtain ⟨before, after, -, hinject, -⟩ := injectAttribute_spec t
  exact ⟨before, after, (hinject attr).symm⟩

end AppletBundle.Style
