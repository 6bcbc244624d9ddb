import AppletBundle.Proofs.Style.Insertion
import AppletBundle.Style.Stylesheet

/-!
# How a stylesheet is read

The reader bounds nesting and length by the length of the text. `Reads` is the same reading without
a bound: a rule is cut off, what follows it is read, and what stands in a group is read as well,
until no complete rule is left. The bound is always enough (`reads_ofChars`), so what is to be known
about a stylesheet is shown by induction over `Reads`, with one case for each kind of rule.

The first such fact is that nothing gets lost: the text of a stylesheet is what it was read from
(`Stylesheet.chars_ofChars`).
-/

namespace AppletBundle.Style

open AppletBundle.Text

/-! ### Cuts -/

theorem splitAtDelimiter?_eq {z : Zone} {depth : ℕ} {s before after : List Char} {delimiter : Char}
    (h : splitAtDelimiter? z depth s = some (before, delimiter, after)) :
    s = before ++ delimiter :: after ∧ (delimiter = '\x7b' ∨ delimiter = ';') := by
  induction s generalizing z depth before with
  | nil => cases h
  | cons c s ih =>
    unfold splitAtDelimiter? at h
    dsimp only at h
    split at h
    · rename_i hfound
      obtain ⟨rfl, rfl, rfl⟩ : [] = before ∧ c = delimiter ∧ s = after := by simpa using h
      simp only [Bool.and_eq_true, Bool.or_eq_true, beq_iff_eq] at hfound
      exact ⟨rfl, hfound.2⟩
    · obtain ⟨⟨before', delimiter', after'⟩, hrest, heq⟩ := Option.map_eq_some_iff.1 h
      obtain ⟨rfl, rfl, rfl⟩ : c :: before' = before ∧ delimiter' = delimiter ∧ after' = after := by
        simpa using heq
      obtain ⟨hs, hdelimiter⟩ := ih hrest
      exact ⟨congrArg (c :: ·) hs, hdelimiter⟩

theorem closeBlock?_eq {z : Zone} {depth : ℕ} {s body after : List Char}
    (h : closeBlock? z depth s = some (body, after)) : s = body ++ '\x7d' :: after := by
  induction s generalizing z depth body with
  | nil => cases h
  | cons c s ih =>
    have hcons : ∀ z' depth', (closeBlock? z' depth' s).map (fun r ↦ (c :: r.1, r.2)) =
        some (body, after) → c :: s = body ++ '\x7d' :: after := by
      intro z' depth' hmap
      obtain ⟨⟨body', after'⟩, hrest, heq⟩ := Option.map_eq_some_iff.1 hmap
      obtain ⟨rfl, rfl⟩ := Prod.ext_iff.1 heq
      exact congrArg (c :: ·) (ih hrest)
    unfold closeBlock? at h
    dsimp only at h
    split at h
    · exact hcons _ _ h
    · split at h
      · rename_i hclose
        simp only [Bool.and_eq_true, beq_iff_eq] at hclose
        split at h
        · obtain ⟨rfl, rfl⟩ := Prod.ext_iff.1 (Option.some.inj h)
          exact congrArg (· :: s) hclose.2
        · exact hcons _ _ h
      · exact hcons _ _ h

/-- A text begins with a block, and the text before its opening brace, its body and the text after
its closing brace are these. -/
def BeginsWithBlock (s before body after : List Char) : Prop :=
  ∃ rest, splitAtDelimiter? .code 0 s = some (before, '\x7b', rest) ∧
    closeBlock? .code 0 rest = some (body, after)

variable {s before body after : List Char}

theorem BeginsWithBlock.eq (h : BeginsWithBlock s before body after) :
    s = before ++ inBraces body ++ after := by
  obtain ⟨rest, hsplit, hclose⟩ := h
  rw [(splitAtDelimiter?_eq hsplit).1, closeBlock?_eq hclose]
  simp [inBraces]

/-- No rule of a text is complete: it has no delimiter, or one that opens a block which is never
closed. -/
def HasNoRule (s : List Char) : Prop :=
  ∀ before delimiter after, splitAtDelimiter? .code 0 s = some (before, delimiter, after) →
    delimiter ≠ ';' ∧ closeBlock? .code 0 after = none

/-! ### Preludes -/

theorem Prelude.chars_ofChars (s : List Char) : (Prelude.ofChars s).chars = s := by
  have hhead : trimEnd (s.drop (triviaLength .gap s)) <+: s.drop (triviaLength .gap s) := by
    obtain ⟨blanks, -, hrest⟩ := exists_blanks_trimEnd (s.drop (triviaLength .gap s))
    exact ⟨blanks, hrest.symm⟩
  show s.take (triviaLength .gap s) ++ trimEnd (s.drop (triviaLength .gap s)) ++
    (s.drop (triviaLength .gap s)).drop (trimEnd (s.drop (triviaLength .gap s))).length = s
  rw [List.append_assoc, List.prefix_iff_eq_append.1 hhead, List.take_append_drop]

/-- The head of a rule, its block, and the text after the rule occur in the text. -/
theorem BeginsWithBlock.infixes (h : BeginsWithBlock s before body after) :
    (Prelude.ofChars before).head <:+: s ∧ body <:+: s ∧ after <:+: s := by
  have hbefore := Prelude.chars_ofChars before
  refine ⟨⟨(Prelude.ofChars before).leading, (Prelude.ofChars before).trailing ++
    (inBraces body ++ after), ?_⟩, ⟨before ++ ['\x7b'], '\x7d' :: after, ?_⟩,
    ⟨before ++ inBraces body, [], ?_⟩⟩
  · rw [← List.append_assoc, ← List.append_assoc]
    exact (congrArg (· ++ inBraces body ++ after) hbefore).trans h.eq.symm
  · rw [h.eq]
    simp [inBraces]
  · rw [h.eq, List.append_nil]

/-! ### Reading -/

/-- A stylesheet with one more rule in front. -/
def Stylesheet.cons (rule : Rule) (sheet : Stylesheet) : Stylesheet :=
  ⟨rule :: sheet.rules, sheet.tail⟩

/-- A text is read as a stylesheet. -/
inductive Reads : List Char → Stylesheet → Prop
  | tail {s : List Char} : HasNoRule s → Reads s ⟨[], s⟩
  | statement {s before after : List Char} {sheet : Stylesheet} :
    splitAtDelimiter? .code 0 s = some (before, ';', after) → Reads after sheet →
    Reads s (sheet.cons (.statement (before ++ [';'])))
  | style {s before body after : List Char} {sheet : Stylesheet} :
    BeginsWithBlock s before body after →
    Head.ofChars (Prelude.ofChars before).head = .selectors → Reads after sheet →
    Reads s (sheet.cons (.style (Prelude.ofChars before) body))
  | keyframes {s before body after word name : List Char} {sheet : Stylesheet} :
    BeginsWithBlock s before body after →
    Head.ofChars (Prelude.ofChars before).head = .keyframes word name → Reads after sheet →
    Reads s (sheet.cons (.keyframes (Prelude.ofChars before) word name body))
  | group {s before body after : List Char} {inner sheet : Stylesheet} :
    BeginsWithBlock s before body after →
    Head.ofChars (Prelude.ofChars before).head = .group → Reads body inner → Reads after sheet →
    Reads s (sheet.cons (.group (Prelude.ofChars before) inner.rules inner.tail))
  | other {s before body after : List Char} {sheet : Stylesheet} :
    BeginsWithBlock s before body after →
    Head.ofChars (Prelude.ofChars before).head = .other → Reads after sheet →
    Reads s (sheet.cons (.other (Prelude.ofChars before) body))

/-- **The bound is enough** when it is at least the length of the text. -/
theorem reads_readWithin {fuel : ℕ} (hfuel : s.length ≤ fuel) :
    Reads s (Stylesheet.readWithin fuel s) := by
  induction fuel generalizing s with
  | zero =>
    obtain rfl := List.length_eq_zero_iff.1 (Nat.le_zero.1 hfuel)
    exact .tail fun _ _ _ h ↦ by cases h
  | succ fuel ih =>
    rw [Stylesheet.readWithin]
    split
    · rename_i hsplit
      exact .tail fun _ _ _ h ↦ by rw [hsplit] at h; cases h
    · rename_i before delimiter rest hsplit
      obtain ⟨hs, hdelimiter⟩ := splitAtDelimiter?_eq hsplit
      have hrest : rest.length ≤ fuel := by
        rw [hs, List.length_append, List.length_cons] at hfuel
        omega
      split
      · rename_i hsemicolon
        subst hsemicolon
        exact .statement hsplit (ih hrest)
      · rename_i hsemicolon
        obtain rfl := hdelimiter.resolve_right hsemicolon
        split
        · rename_i hclose
          refine .tail fun before' delimiter' rest' h ↦ ?_
          obtain ⟨-, rfl, rfl⟩ : before = before' ∧ '\x7b' = delimiter' ∧ rest = rest' := by
            simpa [hsplit] using h
          exact ⟨by decide, hclose⟩
        · rename_i body after hclose
          have hlength : body.length ≤ fuel ∧ after.length ≤ fuel := by
            rw [closeBlock?_eq hclose, List.length_append, List.length_cons] at hrest
            omega
          have hblock : BeginsWithBlock s before body after := ⟨rest, hsplit, hclose⟩
          have hafter := ih hlength.2
          dsimp only
          split
          · exact .style hblock ‹_› hafter
          · exact .keyframes hblock ‹_› hafter
          · exact .group hblock ‹_› (ih hlength.1) hafter
          · exact .other hblock ‹_› hafter

theorem reads_ofChars (s : List Char) : Reads s (Stylesheet.ofChars s) :=
  reads_readWithin (Nat.le_refl _)

/-! ### The text of a stylesheet -/

theorem Stylesheet.chars_cons (rule : Rule) (sheet : Stylesheet) :
    (sheet.cons rule).chars = rule.chars ++ sheet.chars :=
  List.append_assoc _ _ _

/-- **Nothing gets lost in reading.** -/
theorem Reads.chars_eq {sheet : Stylesheet} (h : Reads s sheet) : sheet.chars = s := by
  induction h with
  | tail => rfl
  | statement hsplit _ ih =>
    rw [Stylesheet.chars_cons, Rule.chars, ih, (splitAtDelimiter?_eq hsplit).1]
    simp
  | style hblock _ _ ih | keyframes hblock _ _ ih | other hblock _ _ ih =>
    rw [Stylesheet.chars_cons, Rule.chars, Prelude.chars_ofChars, ih, hblock.eq]
  | group hblock _ _ _ ihbody ih =>
    rw [Stylesheet.chars_cons, Rule.chars, Prelude.chars_ofChars, ih, hblock.eq]
    exact congrArg (_ ++ inBraces · ++ _) ihbody

theorem Stylesheet.chars_ofChars (s : List Char) : (Stylesheet.ofChars s).chars = s :=
  (reads_ofChars s).chars_eq

/-! ### Rule by rule -/

/-- Rules are scoped one after the other. -/
theorem Rule.allScoped?_cons (scope : Scope) (r : Rule) (rs : List Rule) :
    Rule.allScoped? scope (r :: rs) =
      (r.scoped? scope).bind fun first ↦
        (Rule.allScoped? scope rs).map fun more ↦ first ++ more := by
  rw [Rule.allScoped?]
  cases r.scoped? scope <;> cases Rule.allScoped? scope rs <;> rfl

end AppletBundle.Style
