import AppletBundle.Proofs.Style.Groups
import AppletBundle.Proofs.Style.Offset.Scan

/-!
# Splitting is exact

A list of selectors is split at the commas that stand at the top level, which are those outside strings
with no bracket open. What that means is said without the scan: a text leads from one depth of brackets
to another (`Nests`), string by string and bracket by bracket, and a comma stands at the top level if
the text in front of it leads from no depth to none.

* `Nests.scan_eq` reads a text whose strings are closed and whose brackets are all there to be closed;
  the scan comes to the depth to which the text leads. For any other text the scan takes a bracket that
  closes nothing for no bracket.
* `Nests.of_append` goes the other way for a front of such a text: when the scan is outside strings
  behind it, the front leads to the depth at which the scan stands.
* `splitTopLevel_append_comma_of_scan` splits a text that brings the scan back to its beginning, and
  what follows the comma behind it, one after the other.

The main result is `splitTopLevel_exact`.
-/

namespace AppletBundle.Style

/-! ### Depth -/

/-- A text whose strings are closed leads from one depth of brackets to another. Brackets of both kinds
count alike, and each that closes closes one that is open. -/
inductive Nests : ℕ → List Char → ℕ → Prop
  | nil (d : ℕ) : Nests d [] d
  | char {d e : ℕ} {c : Char} {t : List Char} :
    IsOrdinary .parenthesis c → IsOrdinary .square c → Nests d t e → Nests d (c :: t) e
  | string {d e : ℕ} {quote : Char} {body t : List Char} :
    quote = '"' ∨ quote = '\'' → IsStringBody quote body → Nests d t e →
      Nests d (quote :: (body ++ quote :: t)) e
  | opener {d e : ℕ} {t : List Char} (b : Bracket) : Nests (d + 1) t e → Nests d (b.opener :: t) e
  | closer {d e : ℕ} {t : List Char} (b : Bracket) : Nests d t e → Nests (d + 1) (b.closer :: t) e

/-- Text with closed strings, in which all brackets are closed that are opened, and no others. -/
def IsEven (t : List Char) : Prop :=
  Nests 0 t 0

/-- A comma in a text stands outside strings with no bracket open. -/
def HasTopComma (t : List Char) : Prop :=
  ∃ before after, t = before ++ ',' :: after ∧ IsEven before

variable {d e : ℕ} {quote c : Char} {body t u : List Char}

/-! ### The scan of a text that nests -/

theorem scanStep_outside (d : ℕ) (c : Char) :
    scanStep (.outside, d) c = (Quoting.outside.step c, nest d c) :=
  rfl

theorem scanStep_opener (b : Bracket) (d : ℕ) :
    scanStep (.outside, d) b.opener = (.outside, d + 1) := by
  cases b <;> rfl

theorem scanStep_closer (b : Bracket) (d : ℕ) :
    scanStep (.outside, d + 1) b.closer = (.outside, d) := by
  cases b <;> rfl

theorem scanStep_ordinary (hround : IsOrdinary .parenthesis c) (hsquare : IsOrdinary .square c)
    (d : ℕ) : scanStep (.outside, d) c = (.outside, d) := by
  have hopen : ¬ (c = '(' ∨ c = '[') := not_or.2 ⟨hround.notBracket.1, hsquare.notBracket.1⟩
  have hclose : ¬ (c = ')' ∨ c = ']') := not_or.2 ⟨hround.notBracket.2, hsquare.notBracket.2⟩
  rw [scanStep_outside, hround.step_outside, nest, if_neg hopen, if_neg hclose]

theorem scanStep_opening (hquote : quote = '"' ∨ quote = '\'') (d : ℕ) :
    scanStep (.outside, d) quote = (.inside quote, d) := by
  rcases hquote with rfl | rfl <;> rfl

theorem scanStep_inside (hc : c ≠ quote) (hbackslash : c ≠ '\\') (d : ℕ) :
    scanStep (.inside quote, d) c = (.inside quote, d) :=
  Prod.ext (Quoting.step_inside hc hbackslash) rfl

theorem scanStep_backslash (quote : Char) (d : ℕ) :
    scanStep (.inside quote, d) '\\' = (.escaped quote, d) :=
  Prod.ext (Quoting.step_inside_backslash quote) rfl

theorem scanStep_escaped (quote c : Char) (d : ℕ) :
    scanStep (.escaped quote, d) c = (.inside quote, d) :=
  rfl

theorem scan_stringBody (h : IsStringBody quote body) (d : ℕ) :
    scan (.inside quote, d) body = (.inside quote, d) := by
  induction h with
  | nil => rfl
  | char hc hbackslash _ ih => rw [scan_cons, scanStep_inside hc hbackslash, ih]
  | escape c _ ih => rw [scan_cons, scanStep_backslash, scan_cons, scanStep_escaped, ih]

theorem scan_string (hquote : quote = '"' ∨ quote = '\'') (hbody : IsStringBody quote body) (d : ℕ)
    (t : List Char) :
    scan (.outside, d) (quote :: (body ++ quote :: t)) = scan (.outside, d) t := by
  have hclose : scanStep (.inside quote, d) quote = (.outside, d) :=
    Prod.ext (Quoting.step_quote hquote) rfl
  rw [scan_cons, scanStep_opening hquote, scan_append, scan_stringBody hbody, scan_cons, hclose]

/-- **The scan comes to the depth to which a text leads.** -/
theorem Nests.scan_eq (h : Nests d t e) : scan (.outside, d) t = (.outside, e) := by
  induction h with
  | nil d => rfl
  | char hround hsquare _ ih => rw [scan_cons, scanStep_ordinary hround hsquare, ih]
  | string hquote hbody _ ih => rw [scan_string hquote hbody, ih]
  | opener b _ ih => rw [scan_cons, scanStep_opener, ih]
  | closer b _ ih => rw [scan_cons, scanStep_closer, ih]

/-! ### The front of a text that nests -/

/-- Inside a string the scan does not come out of it. -/
theorem scan_ne_outside_of_prefix (h : IsStringBody quote body) (d : ℕ) {front : List Char}
    (hfront : front <+: body) : (scan (.inside quote, d) front).1 ≠ .outside := by
  induction h generalizing front with
  | nil =>
    rw [List.prefix_nil.1 hfront]
    nofun
  | char hc hbackslash _ ih =>
    rcases front with - | ⟨a, front⟩
    · nofun
    · obtain ⟨rfl, hrest⟩ := List.cons_prefix_cons.1 hfront
      rw [scan_cons, scanStep_inside hc hbackslash]
      exact ih hrest
  | escape c _ ih =>
    rcases front with - | ⟨a, - | ⟨b, front⟩⟩
    · nofun
    · rw [(List.cons_prefix_cons.1 hfront).1, scan_cons, scanStep_backslash]
      nofun
    · obtain ⟨ha, hrest⟩ := List.cons_prefix_cons.1 hfront
      rw [ha, scan_cons, scanStep_backslash, scan_cons, scanStep_escaped]
      exact ih (List.cons_prefix_cons.1 hrest).2

/-- **A text that nests is cut in two** where the scan is outside strings. -/
theorem Nests.of_append (h : Nests d (t ++ u) e) (houtside : (scan (.outside, d) t).1 = .outside) :
    Nests d t (scan (.outside, d) t).2 ∧ Nests (scan (.outside, d) t).2 u e := by
  generalize hwhole : t ++ u = whole at h
  induction h generalizing t with
  | nil d =>
    obtain ⟨rfl, rfl⟩ := List.append_eq_nil_iff.1 hwhole
    exact ⟨.nil d, .nil d⟩
  | @char d e c rest hround hsquare hrest ih =>
    rcases t with - | ⟨a, t⟩
    · obtain rfl : u = c :: rest := hwhole
      exact ⟨.nil d, .char hround hsquare hrest⟩
    · obtain ⟨rfl, rfl⟩ := List.cons.inj hwhole
      rw [scan_cons, scanStep_ordinary hround hsquare] at houtside ⊢
      obtain ⟨hfront, hback⟩ := ih houtside rfl
      exact ⟨.char hround hsquare hfront, hback⟩
  | @string d e quote body rest hquote hbody hrest ih =>
    rcases t with - | ⟨a, t⟩
    · obtain rfl : u = quote :: (body ++ quote :: rest) := hwhole
      exact ⟨.nil d, .string hquote hbody hrest⟩
    · obtain ⟨rfl, htail⟩ := List.cons.inj hwhole
      -- the cut is behind the string, since the scan is inside up to its last quotation mark
      have hbehind : ¬ t <+: body := by
        intro hfront
        rw [scan_cons, scanStep_opening hquote] at houtside
        exact scan_ne_outside_of_prefix hbody d hfront houtside
      rcases List.append_eq_append_iff.1 htail with ⟨back, rfl, -⟩ | ⟨back, rfl, hback⟩
      · exact absurd (List.prefix_append t back) hbehind
      · rcases back with - | ⟨b, back⟩
        · exact absurd (by rw [List.append_nil]) hbehind
        · obtain ⟨rfl, rfl⟩ := List.cons.inj hback
          rw [scan_string hquote hbody] at houtside ⊢
          obtain ⟨hfront, hback⟩ := ih houtside rfl
          exact ⟨.string hquote hbody hfront, hback⟩
  | @opener d e rest b hrest ih =>
    rcases t with - | ⟨a, t⟩
    · obtain rfl : u = b.opener :: rest := hwhole
      exact ⟨.nil d, .opener b hrest⟩
    · obtain ⟨rfl, rfl⟩ := List.cons.inj hwhole
      rw [scan_cons, scanStep_opener] at houtside ⊢
      obtain ⟨hfront, hback⟩ := ih houtside rfl
      exact ⟨.opener b hfront, hback⟩
  | @closer d e rest b hrest ih =>
    rcases t with - | ⟨a, t⟩
    · obtain rfl : u = b.closer :: rest := hwhole
      exact ⟨.nil _, .closer b hrest⟩
    · obtain ⟨rfl, rfl⟩ := List.cons.inj hwhole
      rw [scan_cons, scanStep_closer] at houtside ⊢
      obtain ⟨hfront, hback⟩ := ih houtside rfl
      exact ⟨.closer b hfront, hback⟩

/-- A comma at the top level cuts an even text into even texts. -/
theorem IsEven.of_append_comma (h : IsEven (t ++ ',' :: u)) (hstart : scan .start t = .start) :
    IsEven t ∧ IsEven u := by
  have hscan : scan (.outside, 0) t = (.outside, 0) := hstart
  obtain ⟨hfront, hback⟩ := Nests.of_append h (congrArg Prod.fst hscan)
  rw [hscan] at hfront hback
  exact ⟨hfront, (Nests.of_append (t := [',']) hback rfl).2⟩

/-! ### Parts -/

theorem consPart_append (c : Char) {ps : List (List Char)} (hps : ps ≠ []) (qs : List (List Char)) :
    consPart c (ps ++ qs) = consPart c ps ++ qs := by
  obtain ⟨p, ps, rfl⟩ := List.exists_cons_of_ne_nil hps
  rfl

/-- **A text that brings the scan back to its beginning is split on its own.** -/
theorem splitTopLevel_append_comma_of_scan {s : ScanState} (h : scan s t = .start) (u : List Char) :
    splitTopLevel ',' s.1 s.2 (t ++ ',' :: u) =
      splitTopLevel ',' s.1 s.2 t ++ splitTopLevel ',' .outside 0 u := by
  induction t generalizing s with
  | nil =>
    rw [List.nil_append, splitTopLevel_cons, if_pos ⟨rfl, h⟩]
    rfl
  | cons c t ih =>
    rw [List.cons_append, splitTopLevel_cons, splitTopLevel_cons]
    split
    · rename_i hcomma
      obtain ⟨rfl, rfl⟩ := hcomma
      exact congrArg ([] :: ·) (ih (s := .start) h)
    · rw [ih h, consPart_append c (splitTopLevel_ne_nil _ _ _ _)]

/-- The scan is at its beginning behind parts that others follow. -/
theorem Parts.scan_intercalate {s : ScanState} {front back : List (List Char)}
    (h : Parts ',' s (front ++ back)) (hfront : front ≠ []) (hback : back ≠ []) :
    scan s ([','].intercalate front) = .start := by
  induction front generalizing s with
  | nil => exact absurd rfl hfront
  | cons p front ih =>
    rcases front with - | ⟨q, front⟩
    · obtain ⟨q, back, rfl⟩ := List.exists_cons_of_ne_nil hback
      rw [List.intercalate_singleton]
      exact h.2.1
    · have hcomma : scan .start [','] = .start := rfl
      rw [List.intercalate_cons_cons, scan_append, scan_append, h.2.1, hcomma]
      exact ih h.2.2 (List.cons_ne_nil _ _)

theorem intercalate_append_of_ne_nil {front back : List (List Char)} (hfront : front ≠ [])
    (hback : back ≠ []) :
    [','].intercalate (front ++ back) = [','].intercalate front ++ ',' :: [','].intercalate back := by
  induction front with
  | nil => exact absurd rfl hfront
  | cons p front ih =>
    rcases front with - | ⟨q, front⟩
    · obtain ⟨q, back, rfl⟩ := List.exists_cons_of_ne_nil hback
      simp
    · have hrest := ih (List.cons_ne_nil _ _)
      rw [List.cons_append] at hrest
      rw [List.cons_append, List.cons_append, List.intercalate_cons_cons, hrest,
        List.intercalate_cons_cons]
      simp

/-- The parts of an even text are even. -/
theorem Parts.isEven {ps : List (List Char)} (h : Parts ',' .start ps)
    (heven : IsEven ([','].intercalate ps)) : ∀ p ∈ ps, IsEven p := by
  induction ps with
  | nil => exact h.elim
  | cons p ps ih =>
    rcases ps with - | ⟨q, ps⟩
    · rw [List.intercalate_singleton] at heven
      exact List.forall_mem_singleton.2 heven
    · rw [List.intercalate_cons_cons, List.append_assoc] at heven
      obtain ⟨hp, hrest⟩ := IsEven.of_append_comma heven h.2.1
      exact List.forall_mem_cons.2 ⟨hp, ih h.2.2 hrest⟩

/-- What is whole has no comma at the top level. -/
theorem not_hasTopComma_of_isWhole (h : IsWhole ',' .start t) : ¬ HasTopComma t := by
  rintro ⟨before, after, rfl, heven⟩
  have hscan : scan .start before = .start := heven.scan_eq
  obtain ⟨hcomma, -⟩ := (isWhole_append.1 h).2
  exact hcomma ⟨rfl, hscan⟩

/-! ### The result -/

/-- **Splitting at the top level is exact.** The parts joined by commas are the text, whatever it is,
and bytes and characters are split alike. An even text is cut at commas at the top level only, and no
part of it has another one; so what follows a comma behind an even text is split on its own. -/
theorem splitTopLevel_exact (t : List Char) :
    Offset.splitTopLevel? t ',' = some (splitTopLevel ',' .outside 0 t) ∧
      [','].intercalate (splitTopLevel ',' .outside 0 t) = t ∧
      (IsEven t →
        (∀ p ∈ splitTopLevel ',' .outside 0 t, IsEven p ∧ ¬ HasTopComma p) ∧
          (∀ front back, front ≠ [] → back ≠ [] →
            splitTopLevel ',' .outside 0 t = front ++ back →
              t = [','].intercalate front ++ ',' :: [','].intercalate back ∧
                IsEven ([','].intercalate front)) ∧
          ∀ u, splitTopLevel ',' .outside 0 (t ++ ',' :: u) =
            splitTopLevel ',' .outside 0 t ++ splitTopLevel ',' .outside 0 u) := by
  have hparts : Parts ',' .start (splitTopLevel ',' .outside 0 t) :=
    parts_splitTopLevel ',' .start t
  have hjoin : [','].intercalate (splitTopLevel ',' .outside 0 t) = t :=
    intercalate_splitTopLevel ',' .start t
  refine ⟨Offset.splitTopLevel?_eq t, hjoin, fun heven ↦ ⟨fun p hp ↦ ?_, ?_, ?_⟩⟩
  · exact ⟨hparts.isEven (hjoin.symm ▸ heven) p hp,
      not_hasTopComma_of_isWhole (hparts.isWhole p hp)⟩
  · intro front back hfront hback hsplit
    rw [hsplit] at hparts hjoin
    have hcut := hjoin.symm.trans (intercalate_append_of_ne_nil hfront hback)
    refine ⟨hcut, ?_⟩
    rw [hcut] at heven
    exact (heven.of_append_comma (hparts.scan_intercalate hfront hback)).1
  · exact splitTopLevel_append_comma_of_scan (s := .start) heven.scan_eq

/-- A comma in a group, one in a string, and one at the top level. -/
theorem splitTopLevel_exact_list :
    IsEven ":is(a,\"(,\"),b".toList ∧
      [','].intercalate (splitTopLevel ',' .outside 0 ":is(a,\"(,\"),b".toList) =
        ":is(a,\"(,\"),b".toList ∧
      splitTopLevel ',' .outside 0 (":is(a,\"(,\"),b".toList ++ ",c)".toList) =
        [":is(a,\"(,\")".toList, "b".toList, "c)".toList] := by
  have heven : IsEven ":is(a,\"(,\"),b".toList := by
    refine .char (by decide) (by decide) <| .char (by decide) (by decide) <|
      .char (by decide) (by decide) <| .opener .parenthesis <| .char (by decide) (by decide) <|
      .char (by decide) (by decide) <| .string (.inl rfl)
        (.char (by decide) (by decide) <| .char (by decide) (by decide) .nil) <|
      .closer .parenthesis <| .char (by decide) (by decide) <| .char (by decide) (by decide) <|
      .nil 0
  obtain ⟨-, hjoin, hexact⟩ := splitTopLevel_exact ":is(a,\"(,\"),b".toList
  exact ⟨heven, hjoin, ((hexact heven).2.2 "c)".toList).trans (by decide)⟩

end AppletBundle.Style
