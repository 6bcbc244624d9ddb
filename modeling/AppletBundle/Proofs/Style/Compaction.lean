import AppletBundle.Style.Compact
import Mathlib.Data.List.Infix

/-!
# What compaction keeps apart

Two characters of code with nothing but white space and comments between them: in the compact
stylesheet a single space stands between them if there was white space, and nothing at all if there
were only comments (`compact_between`). White space, of however many characters and mixed with
however many comments, therefore never lets two of them meet; a comment on its own does.

A slash is written when the next character is known, so a run is described by its output as it would
be if the stylesheet ended there (`CompactState.settled`). Between two characters of code each piece
has one effect on it, or none (`Spacer.readFrom_chars`), and what was written before stays, semicolons
in front of a closing brace apart (`suffix_written_readFrom`).
-/

namespace AppletBundle.Style

open AppletBundle.Text

namespace CompactState

/-- The reader at the beginning of a stylesheet. -/
def start : CompactState :=
  ⟨.code, ⟨[], false⟩⟩

/-- The reader after some text. -/
def readFrom (s : CompactState) (t : List Char) : CompactState :=
  t.foldl step s

@[simp] theorem readFrom_nil (s : CompactState) : s.readFrom [] = s :=
  rfl

@[simp] theorem readFrom_cons (s : CompactState) (c : Char) (t : List Char) :
    s.readFrom (c :: t) = (s.step c).readFrom t :=
  rfl

@[simp] theorem readFrom_append (s : CompactState) (t u : List Char) :
    s.readFrom (t ++ u) = (s.readFrom t).readFrom u :=
  List.foldl_append

/-- What has been written when the stylesheet ends here: a slash that was held back is written. -/
def settled (s : CompactState) : CompactOutput :=
  match s.zone with
  | .slash => s.output.code '/'
  | _ => s.output

theorem finish_eq (s : CompactState) : s.finish = s.settled.written.reverse := by
  obtain ⟨zone, o⟩ := s
  cases zone <;> rfl

end CompactState

theorem compact_ofList (t : List Char) :
    compact (.ofList t) = .ofList (CompactState.start.readFrom t).settled.written.reverse := by
  rw [compact, String.toList_ofList, ← CompactState.finish_eq]
  rfl

/-! ### Characters of code -/

/-- Whether a character is read as code in a zone: after a slash an asterisk is not. -/
def CompactZone.ReadsCode : CompactZone → Char → Prop
  | .code, _ => True
  | .slash, c => c ≠ '*'
  | .comment, _ => False
  | .commentStar, _ => False
  | .string _, _ => False
  | .escaped _, _ => False

instance (zone : CompactZone) (c : Char) : Decidable (zone.ReadsCode c) :=
  match zone with
  | .code => isTrue trivial
  | .slash => inferInstanceAs (Decidable (c ≠ '*'))
  | .comment => isFalse id
  | .commentStar => isFalse id
  | .string _ => isFalse id
  | .escaped _ => isFalse id

/-- A character that compaction neither drops nor closes up to: no white space, no quotation mark and
no tight punctuation. -/
structure IsSolid (c : Char) : Prop where
  notBlank : isBlank c = false
  notQuote : c ≠ '"' ∧ c ≠ '\''
  notTight : CompactOutput.isTight c = false

instance (c : Char) : Decidable (IsSolid c) :=
  decidable_of_iff
    (isBlank c = false ∧ (c ≠ '"' ∧ c ≠ '\'') ∧ CompactOutput.isTight c = false)
    ⟨fun h ↦ ⟨h.1, h.2.1, h.2.2⟩, fun h ↦ ⟨h.notBlank, h.notQuote, h.notTight⟩⟩

variable {s : CompactState} {o : CompactOutput} {c d : Char}

theorem CompactState.step_eq_stepCode (h : s.zone.ReadsCode c) :
    s.step c = stepCode s.settled c := by
  obtain ⟨zone, o⟩ := s
  match zone, h with
  | .code, _ => rfl
  | .slash, h => exact if_neg h

theorem IsSolid.stepCode_eq (hc : IsSolid c) :
    CompactState.stepCode o c = if c = '/' then ⟨.slash, o⟩ else ⟨.code, o.code c⟩ := by
  have hquote : ¬ (decide (c = '"') || decide (c = '\'')) = true := by
    simpa using hc.notQuote
  rw [CompactState.stepCode, if_neg hquote]

/-- A solid character is written, at once or as a slash that opens no comment. -/
theorem IsSolid.settled_stepCode (hc : IsSolid c) :
    (CompactState.stepCode o c).settled = o.code c := by
  rw [hc.stepCode_eq]
  split
  · rename_i hslash
    rw [hslash]
    rfl
  · rfl

/-- The zone after a solid character: a character behind it is code as well, unless the two open a
comment. -/
theorem IsSolid.readsCode_stepCode (hc : IsSolid c) (hopen : ¬ (c = '/' ∧ d = '*')) :
    (CompactState.stepCode o c).zone.ReadsCode d := by
  rw [hc.stepCode_eq]
  split
  · rename_i hslash
    exact fun hstar ↦ hopen ⟨hslash, hstar⟩
  · trivial

theorem IsSolid.exists_code_eq (hc : IsSolid c) (o : CompactOutput) :
    ∃ written, o.code c = ⟨c :: written, false⟩ := by
  rw [CompactOutput.code, hc.notBlank, hc.notTight]
  simp only [Bool.false_eq_true, if_false]
  split
  · exact ⟨_, rfl⟩
  · exact ⟨_, rfl⟩

/-- Between two solid characters the white space that was read becomes one space. -/
theorem IsSolid.code_eq (hd : IsSolid d) (hc : IsSolid c) (written : List Char) (pending : Bool) :
    CompactOutput.code ⟨c :: written, pending⟩ d =
      ⟨d :: ((if pending then [' '] else []) ++ c :: written), false⟩ := by
  have htight : ((c :: written).head?.any CompactOutput.isTight) = false := hc.notTight
  rw [CompactOutput.code, hd.notBlank, hd.notTight]
  simp only [Bool.false_eq_true, if_false, htight]
  cases pending <;> rfl

/-! ### What stands between -/

/-- White space or a comment. -/
inductive Spacer where
  | blank (c : Char) (h : isBlank c = true)
  /-- A comment, by the text inside it. -/
  | comment (body : List Char) (h : ¬ ['*', '/'] <:+: body)

namespace Spacer

/-- The text of white space or a comment. -/
def chars : Spacer → List Char
  | blank c _ => [c]
  | comment body _ => '/' :: '*' :: (body ++ ['*', '/'])

/-- Whether it is white space. -/
def isWhite : Spacer → Bool
  | blank .. => true
  | comment .. => false

/-- The text of several in a row. -/
def allChars (gap : List Spacer) : List Char :=
  gap.flatMap chars

end Spacer

/-- A comment is read to its end, and no further. -/
theorem readFrom_comment {body : List Char} (hbody : ¬ ['*', '/'] <:+: body) :
    CompactState.readFrom ⟨.comment, o⟩ (body ++ ['*', '/']) = ⟨.code, o⟩ := by
  -- after an asterisk the asterisk counts as the first character of what is left of the body
  suffices h : (¬ ['*', '/'] <:+: body →
        CompactState.readFrom ⟨.comment, o⟩ (body ++ ['*', '/']) = ⟨.code, o⟩) ∧
      (¬ ['*', '/'] <:+: '*' :: body →
        CompactState.readFrom ⟨.commentStar, o⟩ (body ++ ['*', '/']) = ⟨.code, o⟩) from h.1 hbody
  clear hbody
  induction body with
  | nil => exact ⟨fun _ ↦ rfl, fun _ ↦ rfl⟩
  | cons c body ih =>
    have htail : ∀ {t : List Char}, ¬ ['*', '/'] <:+: c :: t → ¬ ['*', '/'] <:+: t :=
      fun h hin ↦ h (hin.trans (List.suffix_cons _ _).isInfix)
    refine ⟨fun h ↦ ?_, fun h ↦ ?_⟩
    · by_cases hc : c = '*'
      · subst hc
        exact ih.2 h
      · have hstep : CompactState.step ⟨.comment, o⟩ c = ⟨.comment, o⟩ := by
          simp [CompactState.step, hc]
        rw [List.cons_append, CompactState.readFrom_cons, hstep]
        exact ih.1 (htail h)
    · have hslash : c ≠ '/' := by
        rintro rfl
        exact h ⟨[], body, rfl⟩
      have hrest : ¬ ['*', '/'] <:+: c :: body :=
        fun hin ↦ h (hin.trans (List.suffix_cons _ _).isInfix)
      by_cases hc : c = '*'
      · subst hc
        exact ih.2 hrest
      · have hstep : CompactState.step ⟨.commentStar, o⟩ c = ⟨.comment, o⟩ := by
          simp [CompactState.step, hc, hslash]
        rw [List.cons_append, CompactState.readFrom_cons, hstep]
        exact ih.1 (htail hrest)

/-- The output after white space or a comment. -/
def Spacer.pass (p : Spacer) (o : CompactOutput) : CompactOutput :=
  ⟨o.written, o.pending || p.isWhite⟩

theorem stepCode_of_isBlank (hc : isBlank c = true) :
    CompactState.stepCode o c = ⟨.code, ⟨o.written, true⟩⟩ := by
  have hslash : c ≠ '/' := by
    rintro rfl
    exact absurd hc (by decide)
  have hquote : ¬ (decide (c = '"') || decide (c = '\'')) = true := by
    rw [Bool.or_eq_true, decide_eq_true_eq, decide_eq_true_eq, not_or]
    exact ⟨by rintro rfl; exact absurd hc (by decide), by rintro rfl; exact absurd hc (by decide)⟩
  rw [CompactState.stepCode, if_neg hslash, if_neg hquote, CompactOutput.code, if_pos hc]

/-- **White space sets a flag, a comment does nothing.** -/
theorem Spacer.readFrom_chars (p : Spacer) (hs : ∀ d, d ≠ '*' → s.zone.ReadsCode d) :
    s.readFrom p.chars = ⟨.code, p.pass s.settled⟩ := by
  cases p with
  | blank c hc =>
    have hstar : c ≠ '*' := by
      rintro rfl
      exact absurd hc (by decide)
    rw [chars, CompactState.readFrom_cons, CompactState.step_eq_stepCode (hs c hstar),
      stepCode_of_isBlank hc]
    simp [pass, isWhite]
  | comment body hbody =>
    have hopen : (s.step '/').step '*' = ⟨.comment, s.settled⟩ := by
      rw [CompactState.step_eq_stepCode (hs '/' (by decide))]
      rfl
    rw [chars, CompactState.readFrom_cons, CompactState.readFrom_cons, hopen,
      readFrom_comment hbody]
    simp [pass, isWhite]

theorem readFrom_allChars (gap : List Spacer) (o : CompactOutput) :
    CompactState.readFrom ⟨.code, o⟩ (Spacer.allChars gap) =
      ⟨.code, ⟨o.written, o.pending || gap.any Spacer.isWhite⟩⟩ := by
  induction gap generalizing o with
  | nil => simp [Spacer.allChars]
  | cons p gap ih =>
    have hp := p.readFrom_chars (s := ⟨.code, o⟩) fun _ _ ↦ trivial
    have hcons : Spacer.allChars (p :: gap) = p.chars ++ Spacer.allChars gap := List.flatMap_cons
    rw [hcons, CompactState.readFrom_append, hp, ih, List.any_cons, ← Bool.or_assoc]
    rfl

/-! ### What was written stays -/

section Stays

variable {base : List Char}

theorem suffix_written_put (h : base <:+ o.written) (c : Char) : base <:+ (o.flush.put c).written := by
  show base <:+ c :: (if o.pending && !o.written.isEmpty then ' ' :: o.written else o.written)
  split
  · exact (h.trans (List.suffix_cons _ _)).trans (List.suffix_cons _ _)
  · exact h.trans (List.suffix_cons _ _)

theorem suffix_written_code (h : base <:+ o.written) (hbase : base.head? ≠ some ';') (c : Char) :
    base <:+ (o.code c).written := by
  unfold CompactOutput.code
  split
  · exact h
  · split
    · refine List.IsSuffix.trans ?_ (List.suffix_cons c _)
      split
      · -- a semicolon is dropped, which is not the last character of the base
        rename_i hdrop
        rw [Bool.and_eq_true, decide_eq_true_eq, decide_eq_true_eq] at hdrop
        rcases hwritten : o.written with - | ⟨last, written⟩
        · rw [hwritten] at h
          exact h
        · rw [hwritten] at h hdrop
          rcases List.suffix_cons_iff.1 h with rfl | h
          · exact absurd hdrop.2 hbase
          · exact h
      · exact h
    · split
      · exact h.trans (List.suffix_cons _ _)
      · exact suffix_written_put h c

theorem suffix_written_stepCode (h : base <:+ o.written) (hbase : base.head? ≠ some ';')
    (c : Char) : base <:+ (CompactState.stepCode o c).output.written := by
  unfold CompactState.stepCode
  split
  · exact h
  · split
    · exact suffix_written_put h c
    · exact suffix_written_code h hbase c

theorem suffix_written_step (h : base <:+ s.output.written) (hbase : base.head? ≠ some ';')
    (c : Char) : base <:+ (s.step c).output.written := by
  have hput : base <:+ c :: s.output.written := h.trans (List.suffix_cons _ _)
  unfold CompactState.step
  split
  · exact suffix_written_stepCode h hbase c
  · split
    · exact h
    · exact suffix_written_stepCode (suffix_written_code h hbase '/') hbase c
  · exact h
  · exact h
  · exact hput
  · exact hput

/-- **What was written stays written**, unless it ends in a semicolon. -/
theorem suffix_written_readFrom (h : base <:+ s.output.written) (hbase : base.head? ≠ some ';')
    (t : List Char) : base <:+ (s.readFrom t).settled.written := by
  induction t generalizing s with
  | nil =>
    unfold CompactState.readFrom CompactState.settled
    split
    · exact suffix_written_code h hbase '/'
    · exact h
  | cons c t ih => exact ih (suffix_written_step h hbase c)

/-- The same of a solid character that was just read, which may be a slash held back. -/
theorem IsSolid.suffix_written_after (hd : IsSolid d) {t : List Char}
    (hopen : ¬ (d = '/' ∧ t.head? = some '*')) :
    (o.code d).written <:+ ((CompactState.stepCode o d).readFrom t).settled.written := by
  obtain ⟨written, hcode⟩ := hd.exists_code_eq o
  have hbase : (o.code d).written.head? ≠ some ';' := by
    rw [hcode]
    rintro hhead
    obtain rfl : d = ';' := Option.some.inj hhead
    exact absurd hd.notTight (by decide)
  rcases t with - | ⟨c, t⟩
  · have hsettled : ((CompactState.stepCode o d).readFrom []).settled = o.code d :=
      hd.settled_stepCode
    exact hsettled.symm ▸ List.suffix_rfl
  · have hcode : (CompactState.stepCode o d).zone.ReadsCode c :=
      hd.readsCode_stepCode fun h ↦ hopen ⟨h.1, congrArg some h.2⟩
    rw [CompactState.readFrom_cons, CompactState.step_eq_stepCode hcode, hd.settled_stepCode]
    exact suffix_written_readFrom
      (suffix_written_stepCode List.suffix_rfl hbase c) hbase t

end Stays

/-! ### Compact stylesheets -/

/-- **Between two characters of code** that white space and comments separate, the compact stylesheet
has a single space if there was white space, and nothing otherwise: after the second character is
read, the output is that up to the first, the space, and the second, and it stays so. -/
theorem compact_between {before after : List Char} {gap : List Spacer} (hgap : gap ≠ [])
    (hc : IsSolid c) (hd : IsSolid d)
    (hcode : (CompactState.start.readFrom before).zone.ReadsCode c)
    (hopen : ¬ (d = '/' ∧ after.head? = some '*')) :
    ∃ front back, compact (.ofList (before ++ [c])) = .ofList (front ++ [c]) ∧
      compact (.ofList (before ++ c :: Spacer.allChars gap ++ d :: after)) =
        .ofList (front ++ c :: (if gap.any Spacer.isWhite then [' '] else []) ++ d :: back) := by
  set s := CompactState.start.readFrom before
  obtain ⟨written, hwritten⟩ := hc.exists_code_eq s.settled
  have hread : (s.step c).settled = ⟨c :: written, false⟩ := by
    rw [CompactState.step_eq_stepCode hcode, hc.settled_stepCode, hwritten]
  have hbetween : (s.step c).readFrom (Spacer.allChars gap) =
      ⟨.code, ⟨c :: written, gap.any Spacer.isWhite⟩⟩ := by
    obtain ⟨p, gap, rfl⟩ := List.exists_cons_of_ne_nil hgap
    have hcons : Spacer.allChars (p :: gap) = p.chars ++ Spacer.allChars gap := List.flatMap_cons
    have hzone : ∀ e, e ≠ '*' → (s.step c).zone.ReadsCode e := fun e he ↦ by
      rw [CompactState.step_eq_stepCode hcode]
      exact hc.readsCode_stepCode fun h ↦ he h.2
    rw [hcons, CompactState.readFrom_append, p.readFrom_chars hzone, hread, readFrom_allChars]
    simp [Spacer.pass]
  obtain ⟨later, hlater⟩ := hd.suffix_written_after
    (o := ⟨c :: written, gap.any Spacer.isWhite⟩) hopen
  refine ⟨written.reverse, later.reverse, ?_, ?_⟩
  · rw [compact_ofList, CompactState.readFrom_append, CompactState.readFrom_cons,
      CompactState.readFrom_nil, hread]
    exact congrArg String.ofList List.reverse_cons
  · have hstep : CompactState.step ⟨.code, ⟨c :: written, gap.any Spacer.isWhite⟩⟩ d =
        CompactState.stepCode ⟨c :: written, gap.any Spacer.isWhite⟩ d := rfl
    rw [compact_ofList, CompactState.readFrom_append, CompactState.readFrom_append,
      CompactState.readFrom_cons, CompactState.readFrom_cons, hbetween, hstep, ← hlater,
      hd.code_eq hc]
    cases gap.any Spacer.isWhite <;> simp

theorem compact_between_font :
    let before := "a\x7bfont:'/*'1p".toList
    let gap : List Spacer := [.comment ";*'".toList (by decide), .blank '\t' (by decide),
      .blank '\n' (by decide), .comment "/".toList (by decide)]
    let after := "2px \x22\\\x22/*\x22;\x7d".toList
    gap ≠ [] ∧ IsSolid 'x' ∧ IsSolid '/' ∧
      (CompactState.start.readFrom before).zone.ReadsCode 'x' ∧
      ¬ ('/' = '/' ∧ after.head? = some '*') ∧
      ∃ front back, compact (.ofList (before ++ ['x'])) = .ofList (front ++ ['x']) ∧
        compact (.ofList (before ++ 'x' :: Spacer.allChars gap ++ '/' :: after)) =
          .ofList (front ++ 'x' :: [' '] ++ '/' :: back) := by
  intro before gap after
  have hgap : gap ≠ [] := List.cons_ne_nil _ _
  have hx : IsSolid 'x' := by decide
  have hslash : IsSolid '/' := by decide
  have hcode : (CompactState.start.readFrom before).zone.ReadsCode 'x' := by decide +kernel
  have hopen : ¬ ('/' = '/' ∧ after.head? = some '*') := by decide
  have hbetween := compact_between hgap hx hslash hcode hopen
  exact ⟨hgap, hx, hslash, hcode, hopen, hbetween⟩

/-- Two lengths with only a comment between them become one word. -/
example : compact "a\x7bmargin:1px/**/2px\x7d" = "a\x7bmargin:1px2px\x7d" := by
  decide +kernel

end AppletBundle.Style
