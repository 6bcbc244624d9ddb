import AppletBundle.Proofs.Style.Offset.Scan
import AppletBundle.Proofs.Style.Ownership
import AppletBundle.Proofs.Style.Reading

/-!
# Comments and blocks by offsets

The reader of a stylesheet skips a comment or a string at once, where the machine of the zones takes
every character, and so it stands after the comment or the string that the machine is in
(`Zone.after`). For the machine a slash is code. It learns from the character after it whether a
comment has begun, and the reader, which looks ahead, is behind the comment by then.

The readers that look for the end of a prelude and of a block differ only in what they do with a
character of code (`Action`), so the comparison is made once for both (`stopFrom?_offset`). The count
of open braces never falls below zero, since the search for the closing brace begins at an opening
one (`stopRest?_braceAction`).
-/

namespace AppletBundle.Style

open AppletBundle.Text

/-! ### What is left after a comment or a string -/

/-- What is left of a text after the comment that the reader is in, which reaches to the end if it is
never closed. -/
def afterComment (rest : List Char) : List Char :=
  ((splitAtFirst ['*', '/'] rest).map Prod.snd).getD []

namespace Zone

/-- What is left of a text after the comment or the string that the reader is in. -/
def after : Zone → List Char → List Char
  | code, rest => rest
  | slash, rest => if rest.head? = some '*' then afterComment (rest.drop 1) else rest
  | comment, rest => afterComment rest
  | commentStar, rest => afterComment ('*' :: rest)
  | string quote, rest => (Quoting.inside quote).after rest
  | escaped quote, rest => (Quoting.escaped quote).after rest

variable {c : Char} {rest : List Char}

theorem after_nil (z : Zone) : z.after [] = [] := by
  cases z <;> rfl

theorem afterComment_cons (h : ¬ ['*', '/'] <+: c :: rest) :
    afterComment (c :: rest) = afterComment rest := by
  rw [← List.isPrefixOf_iff_prefix] at h
  rw [afterComment, splitAtFirst, if_neg h, Option.map_map]
  rfl

theorem afterComment_close : afterComment ('*' :: '/' :: rest) = rest :=
  rfl

/-- Whether a character goes on with a comment or a string, or with the two characters that open a
comment. -/
def GoesOn (z : Zone) (c : Char) (rest : List Char) : Prop :=
  z.after (c :: rest) = (z.step c).after rest ∧ (z.isCode = false ∨ c = '*')

/-- Whether a character is read as code. -/
def IsCodeAt (z : Zone) (c : Char) (rest : List Char) : Prop :=
  z.after (c :: rest) = c :: rest ∧ z.step c = afterCode c ∧ z.isCode = true

theorem goesOn_comment (c : Char) (rest : List Char) : comment.GoesOn c rest := by
  refine ⟨?_, Or.inl rfl⟩
  show afterComment (c :: rest) = (if c = '*' then commentStar else comment).after rest
  split
  · rename_i hstar
    subst hstar
    rfl
  · rename_i hstar
    exact afterComment_cons fun h ↦ hstar (List.cons_prefix_cons.1 h).1.symm

theorem goesOn_commentStar (c : Char) (rest : List Char) : commentStar.GoesOn c rest := by
  refine ⟨?_, Or.inl rfl⟩
  show afterComment ('*' :: c :: rest) =
    (if c = '/' then code else if c = '*' then commentStar else comment).after rest
  split
  · rename_i hslash
    subst hslash
    exact afterComment_close
  · rename_i hslash
    rw [afterComment_cons fun h ↦ hslash
      (List.cons_prefix_cons.1 (List.cons_prefix_cons.1 h).2).1.symm]
    split
    · rename_i hstar
      subst hstar
      rfl
    · rename_i hstar
      exact afterComment_cons fun h ↦ hstar (List.cons_prefix_cons.1 h).1.symm

/-- **A character goes on with what the reader is in, or is read as code.** -/
theorem goesOn_or_isCodeAt (z : Zone) (c : Char) (rest : List Char) :
    z.GoesOn c rest ∨ z.IsCodeAt c rest := by
  cases z with
  | code => exact Or.inr ⟨rfl, rfl, rfl⟩
  | comment => exact Or.inl (goesOn_comment c rest)
  | commentStar => exact Or.inl (goesOn_commentStar c rest)
  | slash =>
    -- what the slash was is decided here
    by_cases hstar : c = '*'
    · subst hstar
      exact Or.inl ⟨rfl, Or.inr rfl⟩
    · refine Or.inr ⟨if_neg ?_, if_neg hstar, rfl⟩
      simpa using hstar
  | string quote =>
    refine Or.inl ⟨?_, Or.inl rfl⟩
    have hafter : (string quote).after (c :: rest) =
      (if c = '\\' then Quoting.escaped quote else if c = quote then .outside
        else .inside quote).after rest := rfl
    rw [hafter, step]
    split
    · rfl
    · split
      · exact Quoting.after_outside rest
      · rfl
  | escaped quote => exact Or.inl ⟨rfl, Or.inl rfl⟩

end Zone

namespace Offset

variable {t rest : List Char} {b c : Char} {i j depth : ℕ} {z : Zone}

/-! ### Comments and strings -/

/-- The offset after a comment that begins at an offset. -/
def skipComment? (t : List Char) (i : ℕ) : Option ℕ :=
  (slice? t (i + 2) (byteLength t)).map fun rest ↦
    match splitAtFirst ['*', '/'] rest with
    | some (inside, _) => i + 2 + byteLength inside + 2
    | none => byteLength t

/-- The offset after a comment or a string, if one begins at an offset with a byte. -/
def skipQuiet? (t : List Char) (i : ℕ) (b : Char) : Option (Option ℕ) :=
  if b = '/' ∧ byte? t (i + 1) = some '*' then (skipComment? t i).map some
  else if b = '"' ∨ b = '\'' then (skipString? t i).map some
  else some none

theorem lt_of_skipComment? (h : skipComment? t i = some j) : i < byteLength t ∧ i < j := by
  obtain ⟨rest, hslice, hj⟩ := Option.map_eq_some_iff.1 h
  have hlength := byteLength_of_slice? hslice
  split at hj <;> omega

theorem lt_of_skipQuiet? (h : skipQuiet? t i b = some (some j)) : i < j := by
  unfold skipQuiet? at h
  split at h
  · obtain ⟨k, hk, hj⟩ := Option.map_eq_some_iff.1 h
    exact Option.some.inj hj ▸ (lt_of_skipComment? hk).2
  · split at h
    · obtain ⟨k, hk, hj⟩ := Option.map_eq_some_iff.1 h
      exact Option.some.inj hj ▸ lt_of_skipString? hk
    · cases h

theorem skipComment?_offset (h : '/' :: '*' :: rest <:+ t) :
    skipComment? t (offset t ('/' :: '*' :: rest)) = some (offset t (afterComment rest)) := by
  have hstar := suffix_of_cons_suffix h
  have hrest := suffix_of_cons_suffix hstar
  have hstart : offset t ('/' :: '*' :: rest) + 2 = offset t rest := by
    rw [← offset_succ hstar (by decide), ← offset_succ h (by decide)]
  rw [skipComment?, hstart, slice?_to_end hrest, Option.map_some, afterComment]
  rcases hsplit : splitAtFirst ['*', '/'] rest with - | ⟨inside, after⟩
  · rfl
  · have hclose := splitAtFirst_eq hsplit
    rw [hclose, List.append_assoc] at hrest
    have hinside := offset_add inside (['*', '/'] ++ after) hrest
    have hafter := offset_add ['*', '/'] after ((List.suffix_append _ _).trans hrest)
    rw [← hinside] at hafter
    rw [hclose, List.append_assoc]
    exact congrArg some hafter

/-- A comment, a string or another character of code. -/
theorem skipQuiet?_offset (h : c :: rest <:+ t) (hc : c.toNat < 128) :
    skipQuiet? t (offset t (c :: rest)) c =
          some (some (offset t ((Zone.afterCode c).after rest))) ∧
        (c = '/' ∨ c = '"' ∨ c = '\'') ∨
      skipQuiet? t (offset t (c :: rest)) c = some none ∧
        (Zone.afterCode c).after rest = rest := by
  by_cases hslash : c = '/'
  · subst hslash
    have hrest := suffix_of_cons_suffix h
    have hstar : ('*').toNat < 128 := by decide
    have hzone : Zone.afterCode '/' = .slash := rfl
    rw [skipQuiet?, offset_succ h hc, hzone]
    by_cases hhead : rest.head? = some '*'
    · obtain ⟨inner, rfl⟩ := List.head?_eq_some_iff.1 hhead
      refine Or.inl ⟨?_, Or.inl rfl⟩
      rw [if_pos ⟨rfl, (byte?_eq_some_iff hstar hrest).2 hhead⟩, skipComment?_offset h]
      rfl
    · refine Or.inr ⟨?_, if_neg hhead⟩
      rw [if_neg fun hstart ↦ hhead ((byte?_eq_some_iff hstar hrest).1 hstart.2)]
      rfl
  · have hzone : Zone.afterCode c = if c = '"' ∨ c = '\'' then .string c else .code :=
      if_neg hslash
    rw [skipQuiet?, if_neg fun hstart ↦ hslash hstart.1, hzone]
    by_cases hquote : c = '"' ∨ c = '\''
    · refine Or.inl ⟨?_, Or.inr hquote⟩
      rw [if_pos hquote, if_pos hquote, skipString?_offset hquote h,
        show Quoting.outside.step c = .inside c from if_pos hquote]
      rfl
    · rw [if_neg hquote, if_neg hquote]
      exact Or.inr ⟨rfl, rfl⟩

/-! ### Readers of code -/

/-- What a reader does with a character of code. -/
inductive Action where
  | stop
  | goOn (depth : ℕ)

/-- The offset at which a reader stops, from an offset on. It skips comments and strings, and keeps a
depth, which it may not be able to lower. -/
def stopFrom? (act : ℕ → Char → Option Action) (t : List Char) (depth i : ℕ) : Option (Option ℕ) :=
  match _h : byte? t i with
  | none => some none
  | some b =>
    match _hquiet : skipQuiet? t i b with
    | none => none
    | some (some j) => stopFrom? act t depth j
    | some none =>
      match act depth b with
      | none => none
      | some .stop => some (some i)
      | some (.goOn d) => stopFrom? act t d (i + 1)
termination_by byteLength t - i
decreasing_by
  all_goals have := lt_of_byte? _h
  · have := lt_of_skipQuiet? _hquiet
    omega
  · omega

/-- What is left of a text from the character on at which a reader stops. -/
def stopRest? (act : ℕ → Char → Option Action) (z : Zone) (depth : ℕ) :
    List Char → Option (Option (List Char))
  | [] => some none
  | c :: rest =>
    if z.isCode then
      match act depth c with
      | none => none
      | some .stop => some (some (c :: rest))
      | some (.goOn d) => stopRest? act (z.step c) d rest
    else stopRest? act (z.step c) depth rest

/-- A reader takes no notice of what begins a comment or a string, and of characters that are not
ASCII. -/
def PassesQuiet (act : ℕ → Char → Option Action) : Prop :=
  ∀ depth c, c = '/' ∨ c = '*' ∨ c = '"' ∨ c = '\'' ∨ 128 ≤ c.toNat →
    act depth c = some (.goOn depth)

variable {act : ℕ → Char → Option Action}

theorem stopFrom?_none (h : byte? t i = none) : stopFrom? act t depth i = some none := by
  rw [stopFrom?]
  split <;> simp_all

theorem stopFrom?_quiet (h : byte? t i = some b) (hquiet : skipQuiet? t i b = some (some j)) :
    stopFrom? act t depth i = stopFrom? act t depth j := by
  rw [stopFrom?]
  split
  · simp_all
  · split <;> simp_all

theorem stopFrom?_code (h : byte? t i = some b) (hquiet : skipQuiet? t i b = some none) :
    stopFrom? act t depth i =
      match act depth b with
      | none => none
      | some .stop => some (some i)
      | some (.goOn d) => stopFrom? act t d (i + 1) := by
  rw [stopFrom?]
  split
  · simp_all
  · split <;> simp_all

theorem stopFrom?_bounds (h : stopFrom? act t depth i = some (some j)) :
    i ≤ j ∧ j < byteLength t := by
  fun_induction stopFrom? act t depth i with
  | case1 => cases h
  | case2 => cases h
  | case3 _ _ _ _ _ hquiet ih =>
    have := lt_of_skipQuiet? hquiet
    have := ih h
    omega
  | case4 => cases h
  | case5 _ _ _ hb =>
    obtain rfl := Option.some.inj (Option.some.inj h)
    exact ⟨Nat.le_refl _, lt_of_byte? hb⟩
  | case6 _ _ _ _ _ _ _ ih =>
    have := ih h
    omega

theorem skipQuiet?_of_wide (hwide : 128 ≤ b.toNat) : skipQuiet? t i b = some none := by
  rw [skipQuiet?, if_neg fun hslash ↦ ne_of_wide hwide (by decide) hslash.1,
    if_neg (not_quote_of_wide hwide)]

theorem stopFrom?_passes (hact : PassesQuiet act) (hb : byte? t i = some b)
    (hwide : 128 ≤ b.toNat) : stopFrom? act t depth i = stopFrom? act t depth (i + 1) := by
  rw [stopFrom?_code hb (skipQuiet?_of_wide hwide), hact depth b (by simp [hwide])]

theorem afterCode_of_wide (hc : 128 ≤ c.toNat) : Zone.afterCode c = .code := by
  rw [Zone.afterCode, if_neg (ne_of_wide hc (by decide)), if_neg (not_quote_of_wide hc)]

theorem stopRest?_quiet_cons (hact : PassesQuiet act) (h : z.isCode = false ∨ c = '*') :
    stopRest? act z depth (c :: rest) = stopRest? act (z.step c) depth rest := by
  rw [stopRest?]
  split
  · rename_i hcode
    obtain rfl := h.resolve_left (by simp [hcode])
    rw [hact depth '*' (by decide)]
  · rfl

theorem stopRest?_passed_cons (hcode : z.isCode = true) (hc : act depth c = some (.goOn depth)) :
    stopRest? act z depth (c :: rest) = stopRest? act (z.step c) depth rest := by
  rw [stopRest?, if_pos hcode, hc]

/-- **A reader stops for the bytes where it stops for the characters**, and fails only if it fails
there. -/
theorem stopFrom?_offset (hact : PassesQuiet act) (h : rest <:+ t) (z : Zone) (depth : ℕ) :
    stopFrom? act t depth (offset t (z.after rest)) =
      (stopRest? act z depth rest).map (·.map (offset t)) := by
  induction rest generalizing z depth with
  | nil =>
    rw [z.after_nil, stopFrom?_none (byte?_offset_nil t)]
    rfl
  | cons c rest ih =>
    have hrest := suffix_of_cons_suffix h
    rcases z.goesOn_or_isCodeAt c rest with ⟨hafter, hquiet⟩ | ⟨hafter, hstep, hcode⟩
    · rw [hafter, stopRest?_quiet_cons hact hquiet]
      exact ih hrest _ depth
    · rw [hafter]
      rcases Nat.lt_or_ge c.toNat 128 with hc | hc
      · rcases skipQuiet?_offset h hc with ⟨hskip, hquiet⟩ | ⟨hskip, hsame⟩
        -- the reader is behind the comment or string now, which the machine has yet to read
        · rw [stopFrom?_quiet (byte?_narrow h hc) hskip, ih hrest, ← hstep,
            stopRest?_passed_cons hcode]
          rcases hquiet with rfl | rfl | rfl <;> exact hact depth _ (by decide)
        · rw [stopFrom?_code (byte?_narrow h hc) hskip, offset_succ h hc, stopRest?, if_pos hcode]
          rcases act depth c with - | - | d
          · rfl
          · rfl
          · dsimp only
            rw [hstep, ← ih hrest, hsame]
      · have hpassed : stopFrom? act t depth _ = _ :=
          eq_of_passes (fun _ _ ↦ stopFrom?_passes hact) h hc (Nat.zero_le _)
        rw [stopRest?_passed_cons hcode (hact depth c (by simp [hc])), hstep, afterCode_of_wide hc,
          ← ih hrest]
        exact hpassed

/-! ### Delimiters -/

/-- What the reader of a prelude does: a brace or a semicolon outside parentheses ends it. -/
def delimiterAction (depth : ℕ) (b : Char) : Option Action :=
  some (if b = '(' then .goOn (depth + 1)
    else if b = ')' then .goOn (depth - 1)
    else if (b = '\x7b' ∨ b = ';') ∧ depth = 0 then .stop
    else .goOn depth)

/-- The next opening brace or semicolon outside parentheses, strings and comments, from an offset on,
with its offset. -/
def nextDelimiter? (t : List Char) (i : ℕ) : Option (Option (ℕ × Char)) :=
  (stopFrom? delimiterAction t 0 i).map fun stop ↦
    stop.bind fun j ↦ (byte? t j).map fun b ↦ (j, b)

theorem nextDelimiter?_bounds (h : nextDelimiter? t i = some (some (j, c))) :
    i ≤ j ∧ j < byteLength t := by
  obtain ⟨stop, hstop, hj⟩ := Option.map_eq_some_iff.1 h
  obtain ⟨k, rfl, hk⟩ := Option.bind_eq_some_iff.1 hj
  obtain ⟨b, -, heq⟩ := Option.map_eq_some_iff.1 hk
  obtain ⟨rfl, -⟩ := Prod.ext_iff.1 heq
  exact stopFrom?_bounds hstop

theorem passesQuiet_delimiterAction : PassesQuiet delimiterAction := by
  rintro depth c (rfl | rfl | rfl | rfl | hc)
  · rfl
  · rfl
  · rfl
  · rfl
  · rw [delimiterAction, if_neg (ne_of_wide hc (by decide)), if_neg (ne_of_wide hc (by decide)),
      if_neg fun hdelimiter ↦ not_or_of_wide hc (by decide) (by decide) hdelimiter.1]

theorem stopRest?_delimiterAction (z : Zone) (depth : ℕ) (rest : List Char) :
    stopRest? delimiterAction z depth rest =
      some ((splitAtDelimiter? z depth rest).map fun r ↦ r.2.1 :: r.2.2) := by
  induction rest generalizing z depth with
  | nil => rfl
  | cons c rest ih =>
    have hread : ∀ z depth, stopRest? delimiterAction z depth rest =
        some (((splitAtDelimiter? z depth rest).map fun r ↦ (c :: r.1, r.2)).map
          fun r ↦ r.2.1 :: r.2.2) := by
      intro z depth
      rw [ih z depth, Option.map_map]
      rfl
    rw [stopRest?, splitAtDelimiter?]
    cases z.isCode with
    | false => exact hread _ depth
    | true =>
      by_cases hopen : c = '('
      · subst hopen
        simpa [delimiterAction] using hread (z.step '(') (depth + 1)
      · by_cases hclose : c = ')'
        · subst hclose
          simpa [delimiterAction] using hread (z.step ')') (depth - 1)
        · by_cases hfound : (c = '\x7b' ∨ c = ';') ∧ depth = 0
          · simp [delimiterAction, hopen, hclose, hfound]
          · simpa [delimiterAction, hopen, hclose, hfound, and_comm] using hread (z.step c) depth

/-- The delimiter after an offset between characters. -/
theorem nextDelimiter?_offset (h : rest <:+ t) :
    nextDelimiter? t (offset t rest) =
      some ((splitAtDelimiter? .code 0 rest).map fun r ↦ (offset t (r.2.1 :: r.2.2), r.2.1)) := by
  have hstop : stopFrom? delimiterAction t 0 (offset t rest) = _ :=
    stopFrom?_offset passesQuiet_delimiterAction h .code 0
  rw [nextDelimiter?, hstop, stopRest?_delimiterAction]
  rcases hsplit : splitAtDelimiter? .code 0 rest with - | ⟨before, delimiter, after⟩
  · rfl
  · obtain ⟨hrest, hdelimiter⟩ := splitAtDelimiter?_eq hsplit
    have hfound : delimiter :: after <:+ t := by
      rw [hrest] at h
      exact (List.suffix_append _ _).trans h
    have hnarrow : delimiter.toNat < 128 := by
      rcases hdelimiter with rfl | rfl <;> decide
    simp [byte?_narrow hfound hnarrow]

/-! ### Blocks -/

/-- What the reader of a block does: it counts the braces that are open. -/
def braceAction (depth : ℕ) (b : Char) : Option Action :=
  if b = '\x7b' then some (.goOn (depth + 1))
  else if b = '\x7d' then (sub? depth 1).map fun d ↦ if d = 0 then .stop else .goOn d
  else some (.goOn depth)

/-- The offset of the brace that closes the one at an offset. -/
def matchingBrace? (t : List Char) (i : ℕ) : Option (Option ℕ) :=
  stopFrom? braceAction t 0 i

theorem passesQuiet_braceAction : PassesQuiet braceAction := by
  rintro depth c (rfl | rfl | rfl | rfl | hc)
  · rfl
  · rfl
  · rfl
  · rfl
  · rw [braceAction, if_neg (ne_of_wide hc (by decide)), if_neg (ne_of_wide hc (by decide))]

/-- The depth never falls below zero inside a block. -/
theorem stopRest?_braceAction (z : Zone) (depth : ℕ) (rest : List Char) :
    stopRest? braceAction z (depth + 1) rest =
      some ((closeBlock? z depth rest).map fun r ↦ '\x7d' :: r.2) := by
  induction rest generalizing z depth with
  | nil => rfl
  | cons c rest ih =>
    have hread : ∀ z depth, stopRest? braceAction z (depth + 1) rest =
        some (((closeBlock? z depth rest).map fun r ↦ (c :: r.1, r.2)).map
          fun r ↦ '\x7d' :: r.2) := by
      intro z depth
      rw [ih z depth, Option.map_map]
      rfl
    rw [stopRest?]
    conv_rhs => unfold closeBlock?
    cases z.isCode with
    | false => exact hread _ depth
    | true =>
      by_cases hopen : c = '\x7b'
      · subst hopen
        exact hread (z.step '\x7b') (depth + 1)
      · by_cases hclose : c = '\x7d'
        · subst hclose
          cases depth with
          | zero => rfl
          | succ depth => exact hread (z.step '\x7d') depth
        · simpa [braceAction, hopen, hclose] using hread (z.step c) depth

/-- The brace that closes the block after an opening brace. -/
theorem matchingBrace?_offset (h : '\x7b' :: rest <:+ t) :
    matchingBrace? t (offset t ('\x7b' :: rest)) =
      some ((closeBlock? .code 0 rest).map fun r ↦ offset t ('\x7d' :: r.2)) := by
  have hstop := stopFrom?_offset passesQuiet_braceAction h .code 0
  have hopen : stopRest? braceAction .code 0 ('\x7b' :: rest) =
      stopRest? braceAction .code 1 rest := rfl
  rw [hopen, stopRest?_braceAction] at hstop
  rw [matchingBrace?]
  exact hstop.trans (by rw [Option.map_some, Option.map_map]; rfl)

end Offset

end AppletBundle.Style
