import AppletBundle.Style.Selector
import Mathlib.Data.List.Basic

/-!
# The scan behind a split

Splitting at the top level is a scan with a state, the quoting and the depth of brackets. A text in
which the scan meets no separator outside strings and brackets is a whole part (`IsWhole`), and a
split is described by what each part is to the scan: `parts_splitTopLevel` for the parts of a text,
`exists_infix_of_mem_splitTopLevel` for the parts of texts that were joined.

Two facts say when one text may stand for another. Greater depth never frees a separator
(`DeepBy.isWhole`), and plain characters, among them those of an attribute selector, leave the scan
where it is but for a pending escape (`scan_plain`, `scan_attributeSelector`).
-/

namespace AppletBundle.Style

/-! ### Scanning -/

/-- The state of a scan: the quoting, and the depth of brackets outside strings. -/
abbrev ScanState := Quoting × ℕ

/-- The state at the beginning of a text. -/
def ScanState.start : ScanState :=
  (.outside, 0)

/-- One character of a scan. -/
def scanStep (s : ScanState) (c : Char) : ScanState :=
  (s.1.step c, if s.1 = .outside then nest s.2 c else s.2)

/-- The state after a text. -/
def scan (s : ScanState) (t : List Char) : ScanState :=
  t.foldl scanStep s

@[simp] theorem scan_nil (s : ScanState) : scan s [] = s :=
  rfl

@[simp] theorem scan_cons (s : ScanState) (c : Char) (t : List Char) :
    scan s (c :: t) = scan (scanStep s c) t :=
  rfl

@[simp] theorem scan_append (s : ScanState) (t u : List Char) :
    scan s (t ++ u) = scan (scan s t) u :=
  List.foldl_append

/-- The scan of a text meets no separator outside strings and brackets. -/
def IsWhole (separator : Char) : ScanState → List Char → Prop
  | _, [] => True
  | s, c :: t => ¬ (c = separator ∧ s = .start) ∧ IsWhole separator (scanStep s c) t

variable {separator : Char} {s : ScanState}

theorem isWhole_append {t u : List Char} :
    IsWhole separator s (t ++ u) ↔ IsWhole separator s t ∧ IsWhole separator (scan s t) u := by
  induction t generalizing s with
  | nil => simp [IsWhole]
  | cons c t ih =>
    rw [List.cons_append, IsWhole, IsWhole, ih, scan_cons, and_assoc]

theorem isWhole_of_not_mem {t : List Char} (ht : separator ∉ t) : IsWhole separator s t := by
  induction t generalizing s with
  | nil => trivial
  | cons c t ih =>
    rw [List.mem_cons, not_or] at ht
    exact ⟨fun h ↦ ht.1 h.1.symm, ih ht.2⟩

/-! ### Splitting -/

theorem splitTopLevel_cons (c : Char) (t : List Char) :
    splitTopLevel separator s.1 s.2 (c :: t) =
      if c = separator ∧ s = .start then [] :: splitTopLevel separator .outside 0 t
      else consPart c (splitTopLevel separator (scanStep s c).1 (scanStep s c).2 t) := by
  obtain ⟨q, d⟩ := s
  cases q <;> simp [splitTopLevel, scanStep, ScanState.start]

theorem splitTopLevel_ne_nil (separator : Char) (q : Quoting) (d : ℕ) (t : List Char) :
    splitTopLevel separator q d t ≠ [] := by
  cases t with
  | nil => exact List.cons_ne_nil _ _
  | cons c t =>
    rw [splitTopLevel_cons (s := (q, d))]
    split
    · exact List.cons_ne_nil _ _
    · unfold consPart
      split <;> exact List.cons_ne_nil _ _

/-- Splitting loses nothing but the separators. -/
theorem intercalate_splitTopLevel (separator : Char) (s : ScanState) (t : List Char) :
    [separator].intercalate (splitTopLevel separator s.1 s.2 t) = t := by
  induction t generalizing s with
  | nil => rfl
  | cons c t ih =>
    rw [splitTopLevel_cons]
    split
    · rename_i hc
      obtain ⟨p, ps, hps⟩ :=
        List.exists_cons_of_ne_nil (splitTopLevel_ne_nil separator .outside 0 t)
      have hrest : [separator].intercalate (splitTopLevel separator .outside 0 t) = t := ih .start
      rw [hps] at hrest ⊢
      rw [List.intercalate_cons_cons, hrest, hc.1]
      rfl
    · obtain ⟨p, ps, hps⟩ := List.exists_cons_of_ne_nil
        (splitTopLevel_ne_nil separator (scanStep s c).1 (scanStep s c).2 t)
      have hrest := ih (scanStep s c)
      rw [hps] at hrest ⊢
      rw [← hrest]
      cases ps <;> rfl

/-- What the parts of a text are to the scan: each is whole, and the scan is at the beginning again
after each but the last. -/
def Parts (separator : Char) : ScanState → List (List Char) → Prop
  | _, [] => False
  | s, [p] => IsWhole separator s p
  | s, p :: q :: ps => IsWhole separator s p ∧ scan s p = .start ∧ Parts separator .start (q :: ps)

theorem Parts.consPart {c : Char} {ps : List (List Char)} (hc : ¬ (c = separator ∧ s = .start))
    (h : Parts separator (scanStep s c) ps) : Parts separator s (consPart c ps) := by
  match ps with
  | [] => exact h.elim
  | [p] => exact ⟨hc, h⟩
  | p :: q :: ps => exact ⟨⟨hc, h.1⟩, h.2⟩

/-- **The parts of a text are what a scan makes of it.** -/
theorem parts_splitTopLevel (separator : Char) (s : ScanState) (t : List Char) :
    Parts separator s (splitTopLevel separator s.1 s.2 t) := by
  induction t generalizing s with
  | nil => trivial
  | cons c t ih =>
    rw [splitTopLevel_cons]
    split
    · rename_i h
      obtain ⟨p, ps, hps⟩ :=
        List.exists_cons_of_ne_nil (splitTopLevel_ne_nil separator .outside 0 t)
      have hrest := ih .start
      rw [hps]
      rw [show splitTopLevel separator ScanState.start.1 ScanState.start.2 t = p :: ps from hps]
        at hrest
      exact ⟨trivial, h.2, hrest⟩
    · rename_i h
      exact (ih (scanStep s c)).consPart h

/-- A whole text goes in front of the first part of what follows. -/
theorem splitTopLevel_append {t : List Char} (ht : IsWhole separator s t) (u : List Char) :
    ∃ p ps, splitTopLevel separator (scan s t).1 (scan s t).2 u = p :: ps ∧
      splitTopLevel separator s.1 s.2 (t ++ u) = (t ++ p) :: ps := by
  induction t generalizing s with
  | nil =>
    obtain ⟨p, ps, hps⟩ :=
      List.exists_cons_of_ne_nil (splitTopLevel_ne_nil separator s.1 s.2 u)
    exact ⟨p, ps, hps, hps⟩
  | cons c t ih =>
    obtain ⟨p, ps, hu, htu⟩ := ih ht.2
    refine ⟨p, ps, hu, ?_⟩
    rw [List.cons_append, splitTopLevel_cons, if_neg ht.1, htu]
    rfl

theorem Parts.isWhole {ps : List (List Char)} (h : Parts separator .start ps) :
    ∀ p ∈ ps, IsWhole separator .start p := by
  induction ps with
  | nil => exact h.elim
  | cons p ps ih =>
    cases ps with
    | nil => exact List.forall_mem_singleton.2 h
    | cons q ps => exact List.forall_mem_cons.2 ⟨h.1, ih h.2.2⟩

theorem Parts.scan_eq_start {ps : List (List Char)} (h : Parts separator .start ps) :
    ∀ p ∈ ps.dropLast, scan .start p = .start := by
  induction ps with
  | nil => exact h.elim
  | cons p ps ih =>
    cases ps with
    | nil => exact fun p hp ↦ absurd hp List.not_mem_nil
    | cons q ps => exact List.forall_mem_cons.2 ⟨h.2.1, ih h.2.2⟩

/-- The parts of a text occur in it, the first one at its beginning. -/
theorem exists_splitTopLevel_eq_cons (separator : Char) (s : ScanState) (t : List Char) :
    ∃ p ps, splitTopLevel separator s.1 s.2 t = p :: ps ∧ p <+: t ∧ ∀ q ∈ ps, q <:+: t := by
  induction t generalizing s with
  | nil => exact ⟨[], [], rfl, List.nil_prefix, fun q hq ↦ absurd hq List.not_mem_nil⟩
  | cons c t ih =>
    rw [splitTopLevel_cons]
    split
    · obtain ⟨p, ps, hsplit, hp, hps⟩ := ih .start
      refine ⟨[], _, rfl, List.nil_prefix, fun q hq ↦ ?_⟩
      have hsplit' : splitTopLevel separator .outside 0 t = p :: ps := hsplit
      rw [hsplit'] at hq
      rcases List.mem_cons.1 hq with rfl | hq
      · exact hp.isInfix.trans (List.suffix_cons c t).isInfix
      · exact (hps q hq).trans (List.suffix_cons c t).isInfix
    · obtain ⟨p, ps, hsplit, hp, hps⟩ := ih (scanStep s c)
      rw [hsplit]
      refine ⟨c :: p, ps, rfl, List.cons_prefix_cons.2 ⟨rfl, hp⟩, fun q hq ↦ ?_⟩
      exact (hps q hq).trans (List.suffix_cons c t).isInfix

theorem infix_of_mem_splitTopLevel {t p : List Char}
    (hp : p ∈ splitTopLevel separator s.1 s.2 t) : p <:+: t := by
  obtain ⟨q, qs, hsplit, hq, hqs⟩ := exists_splitTopLevel_eq_cons separator s t
  rw [hsplit] at hp
  rcases List.mem_cons.1 hp with rfl | hp
  · exact hq.isInfix
  · exact hqs p hp

/-- A whole text that ends outside strings, in front of a comma. The comma ends the first part, or
an open bracket keeps it inside that part; the parts after it come from what follows the comma. -/
theorem splitTopLevel_append_comma {t : List Char} (ht : IsWhole ',' s t)
    (hend : (scan s t).1 = .outside) (u : List Char) :
    ∃ p ps depth, splitTopLevel ',' s.1 s.2 (t ++ ',' :: u) = (t ++ p) :: ps ∧
      ∀ q ∈ ps, q ∈ splitTopLevel ',' .outside depth u := by
  obtain ⟨p, ps, hrest, hsplit⟩ := splitTopLevel_append ht (',' :: u)
  rw [splitTopLevel_cons] at hrest
  split at hrest
  · obtain ⟨-, rfl⟩ := List.cons.inj hrest
    exact ⟨p, _, 0, hsplit, fun q hq ↦ hq⟩
  · have hcomma : scanStep (scan s t) ',' = (.outside, (scan s t).2) := by
      rw [scanStep, hend]
      rfl
    obtain ⟨p', ps', hu, -, -⟩ := exists_splitTopLevel_eq_cons ',' (.outside, (scan s t).2) u
    rw [hcomma, hu] at hrest
    obtain ⟨-, rfl⟩ := List.cons.inj hrest
    refine ⟨p, ps', (scan s t).2, hsplit, fun q hq ↦ ?_⟩
    have hu' : splitTopLevel ',' .outside (scan s t).2 u = p' :: ps' := hu
    exact hu' ▸ List.mem_cons_of_mem _ hq

/-- **Joined texts do not lose their cores in a split**: when each text is whole wherever it begins
outside strings, and each but the last ends outside strings, every part of the texts joined by
commas contains one of them. A bracket that a text leaves open only keeps parts together. -/
theorem exists_infix_of_mem_splitTopLevel {items : List (List Char)} (hne : items ≠ [])
    (hwhole : ∀ item ∈ items, ∀ depth, IsWhole ',' (.outside, depth) item)
    (houtside : ∀ item ∈ items.dropLast, ∀ depth, (scan (.outside, depth) item).1 = .outside)
    {depth : ℕ} {p : List Char}
    (hp : p ∈ splitTopLevel ',' .outside depth ([','].intercalate items)) :
    ∃ item ∈ items, item <:+: p := by
  induction items generalizing depth with
  | nil => exact absurd rfl hne
  | cons item items ih =>
    rw [List.forall_mem_cons] at hwhole
    rcases items with - | ⟨next, items⟩
    · obtain ⟨q, qs, hrest, hsplit⟩ := splitTopLevel_append (hwhole.1 depth) []
      obtain ⟨-, rfl⟩ := List.cons.inj hrest
      have hjoin : [','].intercalate [item] = item ++ [] := by simp [List.intercalate]
      have hsplit' : splitTopLevel ',' .outside depth (item ++ []) = [item ++ q] := hsplit
      rw [hjoin, hsplit', List.mem_singleton] at hp
      exact ⟨item, List.mem_cons_self, hp ▸ (List.prefix_append item q).isInfix⟩
    · rw [List.dropLast_cons_cons, List.forall_mem_cons] at houtside
      have hjoin : [','].intercalate (item :: next :: items) =
          item ++ ',' :: [','].intercalate (next :: items) := by simp [List.intercalate]
      obtain ⟨q, qs, later, hsplit, hqs⟩ := splitTopLevel_append_comma (hwhole.1 depth)
        (houtside.1 depth) ([','].intercalate (next :: items))
      have hsplit' : splitTopLevel ',' .outside depth
          (item ++ ',' :: [','].intercalate (next :: items)) = (item ++ q) :: qs := hsplit
      rw [hjoin, hsplit'] at hp
      rcases List.mem_cons.1 hp with rfl | hp
      · exact ⟨item, List.mem_cons_self, (List.prefix_append item q).isInfix⟩
      · obtain ⟨found, hfound, hinfix⟩ :=
          ih (List.cons_ne_nil _ _) hwhole.2 houtside.2 (hqs p hp)
        exact ⟨found, List.mem_cons_of_mem _ hfound, hinfix⟩

/-! ### Depth -/

/-- The second scan stands in the same quoting, at most `k` brackets less deep. -/
def DeepBy (k : ℕ) (s s' : ScanState) : Prop :=
  s.1 = s'.1 ∧ s.2 ≤ s'.2 + k

theorem DeepBy.refl (s : ScanState) : DeepBy 0 s s :=
  ⟨rfl, Nat.le_refl _⟩

theorem nest_le {m n k : ℕ} (h : m ≤ n + k) (c : Char) : nest m c ≤ nest n c + k := by
  unfold nest
  split
  · omega
  · split <;> omega

variable {k : ℕ} {s' : ScanState}

theorem DeepBy.scanStep (h : DeepBy k s s') (c : Char) :
    DeepBy k (scanStep s c) (scanStep s' c) := by
  refine ⟨congrArg (Quoting.step · c) h.1, ?_⟩
  show (if s.1 = .outside then nest s.2 c else s.2) ≤
    (if s'.1 = .outside then nest s'.2 c else s'.2) + k
  rw [← h.1]
  split
  · exact nest_le h.2 c
  · exact h.2

theorem DeepBy.scan (h : DeepBy k s s') (t : List Char) : DeepBy k (scan s t) (scan s' t) := by
  induction t generalizing s s' with
  | nil => exact h
  | cons c t ih => exact ih (h.scanStep c)

/-- What is whole is whole at any greater depth. -/
theorem DeepBy.isWhole (h : DeepBy 0 s s') {t : List Char} (ht : IsWhole separator s t) :
    IsWhole separator s' t := by
  induction t generalizing s s' with
  | nil => trivial
  | cons c t ih =>
    refine ⟨fun hc ↦ ht.1 ⟨hc.1, ?_⟩, ih (h.scanStep c) ht.2⟩
    have hs' : s' = (.outside, 0) := hc.2
    have hdepth : s.2 ≤ s'.2 + 0 := h.2
    rw [hs'] at hdepth
    exact Prod.ext (h.1.trans (congrArg Prod.fst hs')) (Nat.le_zero.1 hdepth)

theorem deepBy_start (depth : ℕ) : DeepBy 0 .start (.outside, depth) :=
  ⟨rfl, Nat.zero_le _⟩

/-! ### Plain text -/

/-- The quoting without a pending escape. -/
def Quoting.settle : Quoting → Quoting
  | outside => outside
  | inside quote => inside quote
  | escaped quote => inside quote

/-- The state without a pending escape. -/
def ScanState.settle (s : ScanState) : ScanState :=
  (s.1.settle, s.2)

@[simp] theorem ScanState.settle_settle (s : ScanState) : s.settle.settle = s.settle := by
  obtain ⟨q, d⟩ := s
  cases q <;> rfl

theorem ScanState.settle_eq_self (hs : ∀ quote, s.1 ≠ .escaped quote) : s.settle = s := by
  obtain ⟨q, d⟩ := s
  cases q with
  | escaped quote => exact absurd rfl (hs quote)
  | outside => rfl
  | inside quote => rfl

theorem Quoting.settle_eq_outside_iff {q : Quoting} : q.settle = .outside ↔ q = .outside := by
  cases q <;> simp [Quoting.settle]

/-- The string, if the scan is in one, was opened by a quotation mark. -/
def Quoting.IsProper : Quoting → Prop
  | outside => True
  | inside quote => quote = '"' ∨ quote = '\''
  | escaped quote => quote = '"' ∨ quote = '\''

theorem Quoting.IsProper.step {q : Quoting} (hq : q.IsProper) (c : Char) : (q.step c).IsProper := by
  cases q with
  | outside =>
    show (if c = '"' ∨ c = '\'' then Quoting.inside c else .outside).IsProper
    split
    · assumption
    · trivial
  | inside quote =>
    show (if c = '\\' then Quoting.escaped quote else if c = quote then .outside
      else .inside quote).IsProper
    split
    · exact hq
    · split
      · trivial
      · exact hq
  | escaped quote => exact hq

theorem isProper_scan (hs : s.1.IsProper) (t : List Char) : (scan s t).1.IsProper := by
  induction t generalizing s with
  | nil => exact hs
  | cons c t ih => exact ih (hs.step c)

theorem isProper_scan_start (t : List Char) : (scan .start t).1.IsProper :=
  isProper_scan (s := .start) trivial t

/-- The characters that a scan looks for. -/
def scanChars : List Char :=
  ['"', '\'', '\\', '(', ')', '[', ']', ',']

/-- No character of the text is one that a scan looks for. -/
def IsPlain (t : List Char) : Prop :=
  ∀ c ∈ t, c ∉ scanChars

instance (t : List Char) : Decidable (IsPlain t) :=
  List.decidableBAll (fun c ↦ c ∉ scanChars) t

theorem isPlain_of_isIdentChar {t : List Char} (ht : ∀ c ∈ t, isIdentChar c) : IsPlain t := by
  have hnone : (scanChars.all fun c ↦ !isIdentChar c) = true := by decide
  intro c hc hmem
  have hident := List.all_eq_true.1 hnone c hmem
  rw [ht c hc] at hident
  cases hident

theorem isPlain_of_isBlank {t : List Char} (ht : ∀ c ∈ t, Text.isBlank c) : IsPlain t := by
  have hnone : (scanChars.all fun c ↦ !Text.isBlank c) = true := by decide
  intro c hc hmem
  have hblank := List.all_eq_true.1 hnone c hmem
  rw [ht c hc] at hblank
  cases hblank

theorem IsPlain.isWhole {t : List Char} (ht : IsPlain t) : IsWhole ',' s t :=
  isWhole_of_not_mem fun hmem ↦ ht _ hmem (by decide)

theorem scanStep_plain (hs : s.1.IsProper) {c : Char} (hc : c ∉ scanChars) :
    scanStep s c = s.settle := by
  obtain ⟨q, d⟩ := s
  simp only [scanChars, List.mem_cons, List.not_mem_nil, or_false, not_or] at hc
  cases q with
  | outside => simp [scanStep, Quoting.step, nest, ScanState.settle, Quoting.settle, hc]
  | inside quote =>
    have hquote : c ≠ quote := by
      rcases hs with rfl | rfl
      · exact hc.1
      · exact hc.2.1
    simp [scanStep, Quoting.step, ScanState.settle, Quoting.settle, hc, hquote]
  | escaped quote => rfl

/-- **Plain text leaves the scan where it is**, but for a pending escape. -/
theorem scan_plain (hs : s.1.IsProper) {t : List Char} (ht : IsPlain t) (hne : t ≠ []) :
    scan s t = s.settle := by
  induction t generalizing s with
  | nil => exact absurd rfl hne
  | cons c t ih =>
    have hc := scanStep_plain hs (ht c List.mem_cons_self)
    rw [scan_cons, hc]
    rcases t with - | ⟨c', t⟩
    · rfl
    · have hsettled : s.settle.1.IsProper := hc ▸ hs.step c
      rw [ih hsettled (fun c hc ↦ ht c (List.mem_cons_of_mem _ hc)) (List.cons_ne_nil _ _),
        ScanState.settle_settle]

theorem settle_scan_plain (hs : s.1.IsProper) {t : List Char} (ht : IsPlain t) :
    (scan s t).settle = s.settle := by
  rcases t.eq_nil_or_concat with rfl | ⟨t', c, rfl⟩
  · rfl
  · rw [scan_plain hs ht (by simp), ScanState.settle_settle]

end AppletBundle.Style
