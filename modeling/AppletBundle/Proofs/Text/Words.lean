import AppletBundle.Proofs.Text.Trim
import AppletBundle.Text.Split

/-!
# The parts and the words of a text

Cutting at a class of characters is the cut of the library (`splitAt_eq_splitOnP`), so parts that
hold no separator are the parts of the text that joins them, and every text is the join of its
parts.

What there is to know about the words of a text follows from one equation: a blank separates them
(`words_append_blank`). So the white space around a text does not count (`words_trim`), and words
are the words of the text that joins them (`words_joinWith`).
-/

namespace AppletBundle.Text

variable {cut : Char → Bool} {c : Char} {s t w : List Char} {ws : List (List Char)}

/-! ### Runs -/

section Runs

variable {p : Char → Bool} (hs : ∀ c ∈ s, p c = true) (ht : ∀ c ∈ t.head?, p c = false)

include hs ht

/-- A run of characters of a class ends in front of a character that is none. -/
theorem takeWhile_append_stop : (s ++ t).takeWhile p = s := by
  rw [List.takeWhile_append_of_pos hs]
  rcases t with - | ⟨c, t⟩
  · rw [List.takeWhile_nil, List.append_nil]
  · rw [List.takeWhile_cons_of_neg (by rw [ht c rfl]; decide), List.append_nil]

theorem dropWhile_append_stop : (s ++ t).dropWhile p = t := by
  rw [List.dropWhile_append_of_pos hs]
  rcases t with - | ⟨c, t⟩
  · rfl
  · rw [List.dropWhile_cons_of_neg (by rw [ht c rfl]; decide)]

end Runs

/-! ### Parts -/

theorem splitAt_eq_splitOnP (cut : Char → Bool) (s : List Char) :
    splitAt cut s = s.splitOnP cut := by
  induction s with
  | nil => rfl
  | cons c s ih =>
    rw [splitAt, List.splitOnP_cons_eq_if_modifyHead, ← ih]
    split
    · rfl
    · obtain ⟨p, ps, hps⟩ := List.exists_cons_of_ne_nil (l := splitAt cut s)
        (by rw [ih]; exact List.splitOnP_ne_nil _ _)
      rw [hps]
      rfl

theorem splitAt_ne_nil (cut : Char → Bool) (s : List Char) : splitAt cut s ≠ [] := by
  rw [splitAt_eq_splitOnP]
  exact List.splitOnP_ne_nil _ _

/-- A part holds characters of the text, and none at which the text is cut. -/
theorem mem_of_mem_splitAt {p : List Char} (hp : p ∈ splitAt cut s) :
    ∀ c ∈ p, c ∈ s ∧ cut c = false := by
  induction s generalizing p with
  | nil =>
    obtain rfl := List.mem_singleton.1 hp
    exact fun c hc ↦ absurd hc List.not_mem_nil
  | cons x s ih =>
    have hrest : ∀ q ∈ splitAt cut s, ∀ c ∈ q, c ∈ x :: s ∧ cut c = false := fun q hq c hc ↦
      ⟨List.mem_cons_of_mem _ (ih hq c hc).1, (ih hq c hc).2⟩
    rw [splitAt] at hp
    split at hp
    · rcases List.mem_cons.1 hp with rfl | hp
      · exact fun c hc ↦ absurd hc List.not_mem_nil
      · exact hrest p hp
    · rename_i hx
      obtain ⟨q, qs, hqs⟩ := List.exists_cons_of_ne_nil (splitAt_ne_nil cut s)
      rw [hqs] at hp hrest
      rcases List.mem_cons.1 hp with rfl | hp
      · refine List.forall_mem_cons.2 ⟨⟨List.mem_cons_self, ?_⟩, hrest q List.mem_cons_self⟩
        simpa using hx
      · exact hrest p (List.mem_cons_of_mem _ hp)

/-- Parts without the separator are the parts of their join. -/
theorem splitAt_joinWith {parts : List (List Char)} (hparts : ∀ p ∈ parts, c ∉ p)
    (hne : parts ≠ []) : splitAt (· == c) (joinWith [c] parts) = parts := by
  rw [splitAt_eq_splitOnP]
  exact List.splitOn_intercalate c hparts hne

theorem joinWith_splitAt (c : Char) (s : List Char) : joinWith [c] (splitAt (· == c) s) = s := by
  rw [splitAt_eq_splitOnP]
  exact List.intercalate_splitOn c

theorem mem_joinWith {x : Char} {parts : List (List Char)} (hc : c ∈ joinWith [x] parts) :
    c = x ∨ ∃ p ∈ parts, c ∈ p := by
  induction parts with
  | nil => cases hc
  | cons p parts ih =>
    cases parts with
    | nil => exact .inr ⟨p, List.mem_singleton_self p, by simpa [joinWith] using hc⟩
    | cons q parts =>
      rw [joinWith, List.intercalate_cons_cons, List.append_assoc] at hc
      rcases List.mem_append.1 hc with hc | hc
      · exact .inr ⟨p, List.mem_cons_self, hc⟩
      · rcases List.mem_cons.1 hc with rfl | hc
        · exact .inl rfl
        · exact (ih hc).imp_right fun ⟨u, hu, hcu⟩ ↦ ⟨u, List.mem_cons_of_mem _ hu, hcu⟩

/-! ### Words -/

/-- **A blank separates words.** -/
theorem words_append_blank (hc : isBlank c = true) (s t : List Char) :
    words (s ++ c :: t) = words s ++ words t := by
  simp only [words, splitAt_eq_splitOnP]
  rw [List.splitOnP_append_cons s t hc, List.filter_append]

theorem words_cons_blank (hc : isBlank c = true) (t : List Char) : words (c :: t) = words t :=
  words_append_blank hc [] t

theorem words_eq_nil (h : ∀ c ∈ s, isBlank c = true) : words s = [] := by
  induction s with
  | nil => rfl
  | cons c s ih =>
    rw [words_cons_blank (h c List.mem_cons_self)]
    exact ih fun d hd ↦ h d (List.mem_cons_of_mem _ hd)

theorem words_blanks_append {blanks : List Char} (h : ∀ c ∈ blanks, isBlank c = true)
    (t : List Char) : words (blanks ++ t) = words t := by
  induction blanks with
  | nil => rfl
  | cons c blanks ih =>
    rw [List.cons_append, words_cons_blank (h c List.mem_cons_self)]
    exact ih fun d hd ↦ h d (List.mem_cons_of_mem _ hd)

theorem words_append_blanks {blanks : List Char} (h : ∀ c ∈ blanks, isBlank c = true)
    (t : List Char) : words (t ++ blanks) = words t := by
  rcases blanks with - | ⟨c, blanks⟩
  · rw [List.append_nil]
  · obtain ⟨hc, hblanks⟩ := List.forall_mem_cons.1 h
    rw [words_append_blank hc, words_eq_nil hblanks, List.append_nil]

theorem words_trim (t : List Char) : words (trim t) = words t := by
  obtain ⟨front, hfront, ht⟩ := exists_blanks_trimStart t
  obtain ⟨back, hback, htrim⟩ := exists_blanks_trimEnd (trimStart t)
  conv_rhs => rw [ht, words_blanks_append hfront, htrim, words_append_blanks hback]
  rfl

/-- A text without blanks is one word. -/
theorem words_of_forall (hne : w ≠ []) (h : ∀ c ∈ w, isBlank c = false) : words w = [w] := by
  rw [words, splitAt_eq_splitOnP, List.splitOnP_eq_singleton h]
  simpa using hne

theorem mem_words (hw : w ∈ words s) : w ≠ [] ∧ ∀ c ∈ w, c ∈ s ∧ isBlank c = false := by
  obtain ⟨hpart, hne⟩ := List.mem_filter.1 hw
  exact ⟨by simpa using hne, mem_of_mem_splitAt hpart⟩

/-- **Words are the words of their join.** -/
theorem words_joinWith (h : ∀ w ∈ ws, w ≠ [] ∧ ∀ c ∈ w, isBlank c = false) :
    words (joinWith [' '] ws) = ws := by
  induction ws with
  | nil => rfl
  | cons w ws ih =>
    obtain ⟨⟨hne, hw⟩, hws⟩ := List.forall_mem_cons.1 h
    rcases ws with - | ⟨v, ws⟩
    · simpa [joinWith] using words_of_forall hne hw
    · rw [joinWith, List.intercalate_cons_cons, List.append_assoc, List.singleton_append,
        words_append_blank (by decide), words_of_forall hne hw]
      exact congrArg (w :: ·) (ih hws)

/-- White space apart, a text is its words. -/
theorem flatten_words (s : List Char) : (words s).flatten = s.filter (!isBlank ·) := by
  rw [words, List.flatten_filter_not_isEmpty]
  induction s with
  | nil => rfl
  | cons c s ih =>
    rw [splitAt, List.filter_cons]
    split
    · rename_i hc
      rw [hc]
      exact ih
    · rename_i hc
      obtain ⟨p, ps, hps⟩ := List.exists_cons_of_ne_nil (splitAt_ne_nil isBlank s)
      rw [hps] at ih ⊢
      rw [← ih]
      simp [hc]

end AppletBundle.Text
