import AppletBundle.Proofs.Style.Compaction

/-!
# What compaction retains

A stylesheet falls into fragments: strings, comments, white space and other characters, its marks
(`fragments`). A backslash keeps a quotation mark from ending a string, and means nothing elsewhere.
A compact stylesheet is made of fragments too, and `Retains` says how they come from those of the
source: strings and marks stay, each as it is and in order, comments go, and white space goes or is
a single space. Besides, a closing brace may take away the semicolon before it, if nothing but white
space and comments stands between the two. `IsTidy` says where spaces are.

The reader is followed fragment by fragment (`Ready.read`). What it has written so far is always
made of retained fragments, and a space may stand behind them once it has met white space
(`Progress`). It takes a semicolon back by looking at the last character, which is a mark and not
the end of a string as long as all strings are closed (`Ready`).
-/

namespace AppletBundle.Style

open AppletBundle.Text

/-! ### Fragments -/

/-- Whether a character of code is no white space and opens no string. -/
def isMark (c : Char) : Bool :=
  !isBlank c && c != '"' && c != '\''

/-- A fragment of a stylesheet. -/
inductive Fragment where
  | mark (c : Char) (h : isMark c = true)
  | blank (c : Char) (h : isBlank c = true)
  /-- A comment by what follows the two characters that open it. -/
  | comment (body : List Char)
  /-- A string by its quotation mark and what follows that. -/
  | literal (quote : Char) (body : List Char)

namespace Fragment

/-- The text of a fragment. -/
def chars : Fragment → List Char
  | mark c _ => [c]
  | blank c _ => [c]
  | comment body => '/' :: '*' :: body
  | literal quote body => quote :: body

/-- White space or a comment. -/
def isSpacer : Fragment → Bool
  | mark .. => false
  | blank .. => true
  | comment _ => true
  | literal .. => false

/-- Whether a space may stand directly before a fragment. -/
def takesSpace : Fragment → Bool
  | mark c _ => !CompactOutput.isTight c
  | blank .. => false
  | comment _ => false
  | literal .. => true

/-- A single space. -/
def space : Fragment :=
  blank ' ' (by decide)

/-- The end of a declaration. -/
def semicolon : Fragment :=
  mark ';' (by decide)

/-- The end of a block. -/
def closingBrace : Fragment :=
  mark '}' (by decide)

end Fragment

/-- Cuts a text behind the end of the comment that it goes on with. -/
def cutComment : List Char → List Char × List Char
  | [] => ([], [])
  | '*' :: '/' :: rest => (['*', '/'], rest)
  | c :: rest => ((cutComment rest).1.cons c, (cutComment rest).2)

/-- Cuts a text behind the end of the string that it goes on with. -/
def cutString (quote : Char) : List Char → List Char × List Char
  | [] => ([], [])
  | '\\' :: c :: rest => ('\\' :: c :: (cutString quote rest).1, (cutString quote rest).2)
  | c :: rest =>
    if c = quote then ([c], rest) else (c :: (cutString quote rest).1, (cutString quote rest).2)

theorem length_cutComment_le (s : List Char) : (cutComment s).2.length ≤ s.length := by
  fun_induction cutComment s with
  | case1 => exact Nat.le_refl _
  | case2 rest => exact Nat.le_add_right _ 2
  | case3 c rest _ ih => exact Nat.le_succ_of_le ih

theorem length_cutString_le (quote : Char) (s : List Char) :
    (cutString quote s).2.length ≤ s.length := by
  fun_induction cutString quote s with
  | case1 => exact Nat.le_refl _
  | case2 c rest ih => exact Nat.le_succ_of_le (Nat.le_succ_of_le ih)
  | case3 rest _ => exact Nat.le_succ _
  | case4 c rest _ _ ih => exact Nat.le_succ_of_le ih

/-- The fragments of a stylesheet, found by one scan from left to right. -/
def fragments : List Char → List Fragment
  | [] => []
  | '/' :: '*' :: rest => .comment (cutComment rest).1 :: fragments (cutComment rest).2
  | c :: rest =>
    if hquote : c = '"' ∨ c = '\'' then
      .literal c (cutString c rest).1 :: fragments (cutString c rest).2
    else if hblank : isBlank c then .blank c hblank :: fragments rest
    else .mark c (by simp_all [isMark]) :: fragments rest
termination_by s => s.length
decreasing_by
  · exact Nat.lt_succ_of_le (Nat.le_succ_of_le (length_cutComment_le rest))
  · exact Nat.lt_succ_of_le (length_cutString_le c rest)
  · exact Nat.lt_succ_self _
  · exact Nat.lt_succ_self _

theorem append_cutComment (s : List Char) : (cutComment s).1 ++ (cutComment s).2 = s := by
  fun_induction cutComment s with
  | case1 => rfl
  | case2 rest => rfl
  | case3 c rest _ ih => exact congrArg (List.cons c) ih

theorem append_cutString (quote : Char) (s : List Char) :
    (cutString quote s).1 ++ (cutString quote s).2 = s := by
  fun_induction cutString quote s with
  | case1 => rfl
  | case2 c rest ih => exact congrArg (fun t ↦ '\\' :: c :: t) ih
  | case3 rest _ => rfl
  | case4 c rest _ _ ih => exact congrArg (List.cons c) ih

/-- The scan leaves nothing out. -/
theorem flatMap_chars_fragments (s : List Char) : (fragments s).flatMap Fragment.chars = s := by
  fun_induction fragments s with
  | case1 => rfl
  | case2 rest ih =>
    rw [List.flatMap_cons, ih]
    exact congrArg (fun t ↦ '/' :: '*' :: t) (append_cutComment rest)
  | case3 c rest _ _ ih =>
    rw [List.flatMap_cons, ih]
    exact congrArg (List.cons c) (append_cutString c rest)
  | case4 c rest _ _ _ ih => exact congrArg (List.cons c) ih
  | case5 c rest _ _ _ ih => exact congrArg (List.cons c) ih

/-! ### Retained fragments -/

/-- How the fragments of a compact stylesheet come from those of its source. -/
inductive Retains : List Fragment → List Fragment → Prop
  | nil : Retains [] []
  | mark {fs ws : List Fragment} (h : Retains fs ws) (c : Char) (hc : isMark c = true) :
      Retains (fs ++ [.mark c hc]) (ws ++ [.mark c hc])
  | literal {fs ws : List Fragment} (h : Retains fs ws) (quote : Char) (body : List Char) :
      Retains (fs ++ [.literal quote body]) (ws ++ [.literal quote body])
  | spacer {fs ws : List Fragment} (h : Retains fs ws) (f : Fragment) (hf : f.isSpacer) :
      Retains (fs ++ [f]) ws
  /-- A space stands for a character of white space. -/
  | space {fs ws : List Fragment} (h : Retains fs ws) (c : Char) (hc : isBlank c = true) :
      Retains (fs ++ [.blank c hc]) (ws ++ [.space])
  /-- A closing brace takes a semicolon away. -/
  | semicolon {fs ws gap : List Fragment} (h : Retains fs ws) (hgap : ∀ f ∈ gap, f.isSpacer) :
      Retains (fs ++ .semicolon :: gap ++ [.closingBrace]) (ws ++ [.closingBrace])

/-- White space is a single space, neither in front nor at the end, and the fragment behind it takes
it. -/
def IsTidy (ws : List Fragment) : Prop :=
  ∀ front c hc back, ws = front ++ .blank c hc :: back →
    c = ' ' ∧ front ≠ [] ∧ ∃ f rest, back = f :: rest ∧ f.takesSpace

variable {fs ws : List Fragment} {f : Fragment} {o : CompactOutput} {c quote : Char}

/-- A semicolon at the end of what is retained has only white space and comments behind it. -/
theorem Retains.exists_semicolon (h : Retains fs (ws ++ [.semicolon])) :
    ∃ fs' gap, fs = fs' ++ .semicolon :: gap ∧ (∀ f ∈ gap, f.isSpacer) ∧ Retains fs' ws := by
  generalize hws : ws ++ [.semicolon] = us at h
  induction h with
  | nil => simp at hws
  | @mark fs' us h c hc =>
    obtain ⟨rfl, hmark⟩ := List.append_inj' hws rfl
    rw [← hmark]
    exact ⟨fs', [], rfl, fun _ hf ↦ absurd hf List.not_mem_nil, h⟩
  | spacer _ f hf ih =>
    obtain ⟨fs', gap, rfl, hgap, hretains⟩ := ih hws
    refine ⟨fs', gap ++ [f], by simp, fun g hg ↦ ?_, hretains⟩
    rcases List.mem_append.1 hg with hg | hg
    · exact hgap g hg
    · rwa [List.mem_singleton.1 hg]
  | literal _ _ _ => cases (List.append_inj' hws rfl).2
  | space _ _ _ => cases (List.append_inj' hws rfl).2
  | semicolon _ _ => cases (List.append_inj' hws rfl).2

theorem isTidy_nil : IsTidy [] := by
  intro front c hc back h
  simp at h

/-- One more fragment that is no white space. -/
theorem IsTidy.concat (h : IsTidy ws) (hf : ∀ c hc, f ≠ .blank c hc) : IsTidy (ws ++ [f]) := by
  intro front c hc back hws
  rcases List.eq_nil_or_concat' back with rfl | ⟨back, g, rfl⟩
  · exact absurd (List.cons.inj (List.append_inj' hws rfl).2).1 (hf c hc)
  · rw [← List.cons_append, ← List.append_assoc] at hws
    obtain ⟨hc', hfront, f', rest, hback, hf'⟩ := h front c hc back (List.append_inj' hws rfl).1
    exact ⟨hc', hfront, f', rest ++ [g], by rw [hback, List.cons_append], hf'⟩

/-- One more fragment with a space before it. -/
theorem IsTidy.concat_space (h : IsTidy ws) (hne : ws ≠ []) (hf : f.takesSpace) :
    IsTidy (ws ++ [.space, f]) := by
  intro front c hc back hws
  rcases List.eq_nil_or_concat' back with rfl | ⟨back, g, rfl⟩
  · have hlast : ws ++ [.space] ++ [f] = front ++ [.blank c hc] := by simpa using hws
    rw [(List.cons.inj (List.append_inj' hlast rfl).2).1] at hf
    cases hf
  · have hinit : ws ++ [.space] ++ [f] = front ++ .blank c hc :: back ++ [g] := by simpa using hws
    obtain ⟨hinner, hg⟩ := List.append_inj' hinit rfl
    obtain rfl : f = g := (List.cons.inj hg).1
    rcases List.eq_nil_or_concat' back with rfl | ⟨back, g, rfl⟩
    · obtain ⟨hfront, hspace⟩ := List.append_inj' hinner rfl
      cases hspace
      exact ⟨rfl, hfront ▸ hne, f, [], rfl, hf⟩
    · rw [← List.cons_append, ← List.append_assoc] at hinner
      obtain ⟨hc', hfront, f', rest, hback, hf'⟩ :=
        h front c hc back (List.append_inj' hinner rfl).1
      exact ⟨hc', hfront, f', rest ++ [g] ++ [f], by rw [hback]; simp, hf'⟩

/-- A fragment that takes no space may be taken back. -/
theorem IsTidy.of_concat (h : IsTidy (ws ++ [f])) (hf : f.takesSpace = false) : IsTidy ws := by
  rintro front c hc back rfl
  obtain ⟨hc', hfront, f', rest, hback, hf'⟩ := h front c hc (back ++ [f]) (by simp)
  rcases back with - | ⟨g, back⟩
  · cases hback
    rw [hf] at hf'
    cases hf'
  · cases hback
    exact ⟨hc', hfront, f', back, rfl, hf'⟩

/-! ### Reading fragments -/

namespace CompactState

/-- A comment leaves the output as it is. -/
theorem settled_readFrom_comment (o : CompactOutput) (s : List Char) :
    (readFrom ⟨.comment, o⟩ s).settled = (readFrom ⟨.code, o⟩ (cutComment s).2).settled := by
  -- after an asterisk the asterisk counts as the first character of what is left
  suffices h : (readFrom ⟨.comment, o⟩ s).settled =
        (readFrom ⟨.code, o⟩ (cutComment s).2).settled ∧
      (readFrom ⟨.commentStar, o⟩ s).settled =
        (readFrom ⟨.code, o⟩ (cutComment ('*' :: s)).2).settled from h.1
  induction s with
  | nil => exact ⟨rfl, rfl⟩
  | cons c s ih =>
    have hcomment : (readFrom ⟨.comment, o⟩ (c :: s)).settled =
        (readFrom ⟨.code, o⟩ (cutComment (c :: s)).2).settled := by
      by_cases hc : c = '*'
      · subst hc
        exact ih.2
      · have hstep : step ⟨.comment, o⟩ c = ⟨.comment, o⟩ := by simp [step, hc]
        rw [readFrom_cons, hstep, ih.1, cutComment]
        simp [hc]
    refine ⟨hcomment, ?_⟩
    by_cases hslash : c = '/'
    · subst hslash
      rfl
    · have hcut : (cutComment ('*' :: c :: s)).2 = (cutComment (c :: s)).2 := by
        rw [cutComment]
        simp [hslash]
      have hstep : step ⟨.commentStar, o⟩ c = step ⟨.comment, o⟩ c := by
        simp [step, hslash]
      rw [readFrom_cons, hstep, ← readFrom_cons, hcomment, hcut]

/-- A string is written as it is. -/
theorem settled_readFrom_string (o : CompactOutput) (quote : Char) (s : List Char) :
    (readFrom ⟨.string quote, o⟩ s).settled =
      (readFrom ⟨.code, ⟨(cutString quote s).1.reverse ++ o.written, o.pending⟩⟩
        (cutString quote s).2).settled := by
  fun_induction cutString quote s generalizing o with
  | case1 => rfl
  | case2 c rest ih =>
    have hread : readFrom ⟨.string quote, o⟩ ('\\' :: c :: rest) =
        readFrom ⟨.string quote, (o.put '\\').put c⟩ rest := rfl
    rw [hread, ih]
    simp [CompactOutput.put]
  | case3 rest hend =>
    by_cases hquote : quote = '\\'
    · -- such a quotation mark would have to be the last character
      rcases rest with - | ⟨c, rest⟩
      · subst hquote
        rfl
      · exact absurd rfl (hend c rest hquote)
    · have hstep : step ⟨.string quote, o⟩ quote = ⟨.code, o.put quote⟩ := by simp [step, hquote]
      rw [readFrom_cons, hstep]
      rfl
  | case4 c rest hend hc ih =>
    by_cases hescape : c = '\\'
    · rcases rest with - | ⟨d, rest⟩
      · subst hescape
        rfl
      · exact absurd rfl (hend d rest hescape)
    · have hstep : step ⟨.string quote, o⟩ c = ⟨.string quote, o.put c⟩ := by
        simp [step, hescape, hc]
      rw [readFrom_cons, hstep, ih]
      simp [CompactOutput.put]

end CompactState

theorem getLast?_cutString (quote : Char) (s : List Char) :
    (cutString quote s).2 = [] ∨ (cutString quote s).1.getLast? = some quote := by
  fun_induction cutString quote s with
  | case1 => exact Or.inl rfl
  | case2 c rest ih =>
    exact ih.imp id fun h ↦ by rw [List.getLast?_cons, List.getLast?_cons, h]; rfl
  | case3 rest _ => exact Or.inr rfl
  | case4 c rest _ _ ih => exact ih.imp id fun h ↦ by rw [List.getLast?_cons, h]; rfl

/-- A character of code is written at once, or when the next one shows that no comment begins. -/
theorem settled_readFrom_code (hc : isMark c = true) {s : List Char}
    (hopen : ¬ (c = '/' ∧ s.head? = some '*')) :
    (CompactState.readFrom ⟨.code, o⟩ (c :: s)).settled =
      (CompactState.readFrom ⟨.code, o.code c⟩ s).settled := by
  obtain ⟨⟨-, hdouble⟩, hsingle⟩ : (isBlank c = false ∧ c ≠ '"') ∧ c ≠ '\'' := by
    simpa [isMark] using hc
  by_cases hslash : c = '/'
  · subst hslash
    rcases s with - | ⟨d, s⟩
    · rfl
    · have hd : d ≠ '*' := fun h ↦ hopen ⟨rfl, congrArg some h⟩
      have hstep : CompactState.step ⟨.slash, o⟩ d = CompactState.step ⟨.code, o.code '/'⟩ d :=
        if_neg hd
      show (CompactState.readFrom (CompactState.step ⟨.slash, o⟩ d) s).settled = _
      rw [hstep]
      rfl
  · have hstep : CompactState.step ⟨.code, o⟩ c = ⟨.code, o.code c⟩ := by
      simp [CompactState.step, CompactState.stepCode, hslash, hdouble, hsingle]
    rw [CompactState.readFrom_cons, hstep]

/-! ### Progress -/

/-- What has been written is made of retained fragments, and a space can follow if white space has
been read since. -/
structure Progress (fs ws : List Fragment) (o : CompactOutput) : Prop where
  written : o.written.reverse = ws.flatMap Fragment.chars
  retains : Retains fs ws
  pending : o.pending → Retains fs (ws ++ [.space])
  isTidy : IsTidy ws

/-- Tight punctuation at the end of what has been written is a mark. -/
structure Ready (fs ws : List Fragment) (o : CompactOutput) : Prop extends Progress fs ws o where
  last : ∀ c, o.written.head? = some c → CompactOutput.isTight c →
    ∃ hc ws', ws = ws' ++ [.mark c hc]

theorem ready_start : Ready [] [] ⟨[], false⟩ where
  written := rfl
  retains := .nil
  pending h := absurd h Bool.false_ne_true
  isTidy := isTidy_nil
  last _ h := absurd h (Option.some_ne_none _).symm

theorem Ready.blank (h : Ready fs ws o) (hc : isBlank c = true) :
    Ready (fs ++ [.blank c hc]) ws ⟨o.written, true⟩ where
  written := h.written
  retains := h.retains.spacer _ rfl
  pending _ := h.retains.space c hc
  isTidy := h.isTidy
  last := h.last

theorem Ready.comment (h : Ready fs ws o) (body : List Char) :
    Ready (fs ++ [.comment body]) ws o where
  written := h.written
  retains := h.retains.spacer _ rfl
  pending hp := (h.pending hp).spacer _ rfl
  isTidy := h.isTidy
  last := h.last

/-- A space that is due goes before the next fragment, unless nothing has been written. -/
theorem Progress.flush (h : Progress fs ws o) :
    ∃ ws', o.flush.written.reverse = ws'.flatMap Fragment.chars ∧ Retains fs ws' ∧
      ∀ f : Fragment, f.takesSpace → IsTidy (ws' ++ [f]) := by
  have hfree : ∀ f : Fragment, f.takesSpace → ∀ c hc, f ≠ .blank c hc := by
    rintro _ hf c hc rfl
    cases hf
  by_cases hspace : o.pending && !o.written.isEmpty
  · have hflush : o.flush.written = ' ' :: o.written := if_pos hspace
    rw [Bool.and_eq_true] at hspace
    refine ⟨ws ++ [.space], ?_, h.pending hspace.1, fun f hf ↦ ?_⟩
    · rw [hflush, List.reverse_cons, h.written, List.flatMap_append]
      rfl
    · have hne : ws ≠ [] := by
        rintro rfl
        have hempty : o.written = [] := List.reverse_eq_nil_iff.1 h.written
        rw [hempty] at hspace
        cases hspace.2
      rw [List.append_assoc]
      exact h.isTidy.concat_space hne hf
  · have hflush : o.flush.written = o.written := if_neg hspace
    exact ⟨ws, by rw [hflush, h.written], h.retains, fun f hf ↦ h.isTidy.concat (hfree f hf)⟩

theorem Progress.literal (h : Progress fs ws o) (quote : Char) (body : List Char) :
    ∃ ws', Progress (fs ++ [.literal quote body]) ws'
      ⟨body.reverse ++ (o.flush.put quote).written, false⟩ := by
  obtain ⟨ws', hwritten, hretains, htidy⟩ := h.flush
  refine ⟨ws' ++ [.literal quote body], ⟨?_, hretains.literal quote body,
    fun hp ↦ absurd hp Bool.false_ne_true, htidy _ rfl⟩⟩
  rw [List.reverse_append, List.reverse_reverse, CompactOutput.put, List.reverse_cons, hwritten,
    List.flatMap_append]
  simp [Fragment.chars]

theorem ready_mark {written : List Char} {hc : isMark c = true}
    (hwritten : written.reverse = ws.flatMap Fragment.chars)
    (hretains : Retains fs (ws ++ [.mark c hc])) (htidy : IsTidy (ws ++ [.mark c hc])) :
    Ready fs (ws ++ [.mark c hc]) ⟨c :: written, false⟩ where
  written := by
    rw [List.reverse_cons, hwritten, List.flatMap_append]
    rfl
  retains := hretains
  pending h := absurd h Bool.false_ne_true
  isTidy := htidy
  last d hd _ := by
    obtain rfl : c = d := Option.some.inj hd
    exact ⟨hc, ws, rfl⟩

/-- A closing brace is written in the place of a semicolon that has been written last. -/
theorem Ready.closingBrace (h : Ready fs ws o) (hlast : o.written.head? = some ';') :
    ∃ ws', Ready (fs ++ [.closingBrace]) ws' ⟨'}' :: o.written.drop 1, false⟩ := by
  obtain ⟨hc, ws, rfl⟩ := h.last ';' hlast rfl
  obtain ⟨fs, gap, rfl, hgap, hretains⟩ := h.retains.exists_semicolon
  have hwritten : (o.written.drop 1).reverse = ws.flatMap Fragment.chars := by
    obtain ⟨written, hcons⟩ := List.head?_eq_some_iff.1 hlast
    have hconcat := h.written
    rw [hcons, List.reverse_cons, List.flatMap_append] at hconcat
    rw [hcons]
    exact (List.append_inj' hconcat rfl).1
  exact ⟨ws ++ [.closingBrace], ready_mark hwritten (hretains.semicolon hgap)
    ((h.isTidy.of_concat rfl).concat (by rintro _ _ ⟨⟩))⟩

/-- A mark is written. -/
theorem Ready.mark (h : Ready fs ws o) (hc : isMark c = true) :
    ∃ ws', Ready (fs ++ [.mark c hc]) ws' (o.code c) := by
  have hblank : isBlank c = false := by
    simp only [isMark, Bool.and_eq_true, Bool.not_eq_true'] at hc
    exact hc.1.1
  have hkept : Ready (fs ++ [.mark c hc]) (ws ++ [.mark c hc]) ⟨c :: o.written, false⟩ :=
    ready_mark h.written (h.retains.mark c hc) (h.isTidy.concat (by rintro _ _ ⟨⟩))
  rw [CompactOutput.code, hblank, if_neg Bool.false_ne_true]
  by_cases htight : CompactOutput.isTight c
  · rw [if_pos htight]
    by_cases hdrop : c = '}' && o.written.head? = some ';'
    · rw [if_pos hdrop]
      rw [Bool.and_eq_true, decide_eq_true_eq, decide_eq_true_eq] at hdrop
      obtain ⟨rfl, hlast⟩ := hdrop
      exact h.closingBrace hlast
    · rw [if_neg hdrop]
      exact ⟨_, hkept⟩
  · rw [if_neg htight]
    split
    · exact ⟨_, hkept⟩
    · obtain ⟨ws', hwritten, hretains, htidy⟩ := h.flush
      refine ⟨_, ready_mark hwritten (hretains.mark c hc) (htidy _ ?_)⟩
      rw [Fragment.takesSpace, Bool.eq_false_iff.2 htight]
      rfl

/-- **Reading a text** retains its fragments. -/
theorem Ready.read (h : Ready fs ws o) (s : List Char) :
    ∃ ws', Progress (fs ++ fragments s) ws' (CompactState.readFrom ⟨.code, o⟩ s).settled := by
  fun_induction fragments s generalizing fs ws o with
  | case1 => exact ⟨ws, by rw [List.append_nil]; exact h.toProgress⟩
  | case2 rest ih =>
    have hread : CompactState.readFrom ⟨.code, o⟩ ('/' :: '*' :: rest) =
        CompactState.readFrom ⟨.comment, o⟩ rest := rfl
    obtain ⟨ws', hprogress⟩ := ih (h.comment (cutComment rest).1)
    rw [hread, CompactState.settled_readFrom_comment, List.append_cons]
    exact ⟨ws', hprogress⟩
  | case3 c rest hopen hquote ih =>
    have hread : CompactState.readFrom ⟨.code, o⟩ (c :: rest) =
        CompactState.readFrom ⟨.string c, o.flush.put c⟩ rest := by
      rcases hquote with rfl | rfl <;> rfl
    obtain ⟨ws', hprogress⟩ := h.literal c (cutString c rest).1
    rw [hread, CompactState.settled_readFrom_string, List.append_cons]
    rcases getLast?_cutString c rest with hnil | hlast
    · rw [hnil, fragments, List.append_nil]
      exact ⟨ws', hprogress⟩
    · refine ih ⟨hprogress, fun d hd htight ↦ ?_⟩
      -- the string is closed, so it ends in its quotation mark
      have hhead : ((cutString c rest).1.reverse ++ (o.flush.put c).written).head? = some c := by
        rw [List.head?_append, List.head?_reverse, hlast]
        rfl
      obtain rfl : c = d := Option.some.inj (hhead.symm.trans hd)
      rcases hquote with rfl | rfl <;> cases htight
  | case4 c rest hopen hquote hblank ih =>
    have hread : CompactState.readFrom ⟨.code, o⟩ (c :: rest) =
        CompactState.readFrom ⟨.code, ⟨o.written, true⟩⟩ rest :=
      congrArg (CompactState.readFrom · rest) (stepCode_of_isBlank hblank)
    rw [hread, List.append_cons]
    exact ih (h.blank hblank)
  | case5 c rest hopen hquote hblank ih =>
    have hmark : isMark c = true := by simp_all [isMark]
    obtain ⟨ws', hready⟩ := h.mark hmark
    rw [settled_readFrom_code hmark, List.append_cons]
    · exact ih hready
    · rintro ⟨hslash, hstar⟩
      obtain ⟨after, hafter⟩ := List.head?_eq_some_iff.1 hstar
      exact hopen after hslash hafter

/-! ### Compact stylesheets -/

/-- **Compaction retains strings and marks**, but for a semicolon in front of a closing brace, and
adds nothing: each space stands for white space of the source. -/
theorem compact_retains (css : String) :
    (fragments css.toList).flatMap Fragment.chars = css.toList ∧
      ∃ ws, (compact css).toList = ws.flatMap Fragment.chars ∧ Retains (fragments css.toList) ws ∧
        IsTidy ws := by
  obtain ⟨ws, h⟩ := ready_start.read css.toList
  have hcompact := compact_ofList css.toList
  rw [String.ofList_toList] at hcompact
  refine ⟨flatMap_chars_fragments css.toList, ws, ?_, h.retains, h.isTidy⟩
  rw [hcompact, String.toList_ofList, ← h.written]
  rfl

/-- A semicolon inside a string stays, and one before a comment and a closing brace goes. -/
example :
    compact "a \x7b content : '; \x7d' ; /* last */ \x7d" = "a\x7bcontent : '; \x7d'\x7d" := by
  decide +kernel

end AppletBundle.Style
