import AppletBundle.Proofs.Style.Scanning
import AppletBundle.Proofs.Text.Bytes

/-!
# Scanning by offsets

Strings, groups and separators are found by offsets into the bytes of a text, as the program finds
them: a reader skips a whole string or group at once, where the machine of the scan takes every
character through a state. The two meet at what is left of the text after the string or the group
that the machine is in (`Quoting.after`, `afterGroup`). Inside it a character changes nothing about
what is left, and the offset stays; outside, the reader stands at the character that the machine
reads.

A reader may have no result: a slice with an end inside a character, or a number below zero
(`sub?`), which is where the program would stop with an error. None of the readers here does.
-/

namespace AppletBundle.Style

open AppletBundle.Text

/-- What is left of a text after the string that the scan is in. -/
def Quoting.after (q : Quoting) : List Char → List Char
  | [] => []
  | c :: rest =>
    match q with
    | outside => c :: rest
    | _ => (q.step c).after rest

theorem Quoting.after_outside (rest : List Char) : outside.after rest = rest := by
  cases rest <;> rfl

theorem Quoting.after_cons {q : Quoting} (hq : q ≠ .outside) (c : Char) (rest : List Char) :
    q.after (c :: rest) = (q.step c).after rest := by
  cases q with
  | outside => exact absurd rfl hq
  | inside quote => rfl
  | escaped quote => rfl

/-- What is left of a text after a group, which reaches to the end if it is never closed. -/
def afterGroup (opener closer : Char) (q : Quoting) (depth : ℕ) (rest : List Char) : List Char :=
  ((closeGroup? opener closer q depth rest).map Prod.snd).getD []

variable {opener closer c : Char} {q : Quoting} {depth : ℕ} {rest : List Char}

theorem getD_map_snd_map_cons (c : Char) (r : Option (List Char × List Char)) :
    ((r.map fun r ↦ (c :: r.1, r.2)).map Prod.snd).getD [] = (r.map Prod.snd).getD [] := by
  cases r <;> rfl

theorem afterGroup_outside_cons :
    afterGroup opener closer .outside depth (c :: rest) =
      if c = opener then afterGroup opener closer .outside (depth + 1) rest
      else if c = closer then
        match depth with
        | 0 => rest
        | d + 1 => afterGroup opener closer .outside d rest
      else afterGroup opener closer (Quoting.outside.step c) depth rest := by
  unfold afterGroup
  conv_lhs => unfold closeGroup?
  dsimp only
  split
  · exact getD_map_snd_map_cons c _
  · split
    · cases depth with
      | zero => rfl
      | succ d => exact getD_map_snd_map_cons c _
    · exact getD_map_snd_map_cons c _

theorem afterGroup_cons (hq : q ≠ .outside) :
    afterGroup opener closer q depth (c :: rest) =
      afterGroup opener closer (q.step c) depth rest := by
  cases q with
  | outside => exact absurd rfl hq
  | inside quote => exact getD_map_snd_map_cons c _
  | escaped quote => exact getD_map_snd_map_cons c _

namespace Offset

theorem not_or_of_wide {b c d : Char} (hb : 128 ≤ b.toNat) (hc : c.toNat < 128)
    (hd : d.toNat < 128) : ¬ (b = c ∨ b = d) :=
  not_or.2 ⟨ne_of_wide hb hc, ne_of_wide hb hd⟩

theorem not_quote_of_wide {c : Char} (hc : 128 ≤ c.toNat) : ¬ (c = '"' ∨ c = '\'') :=
  not_or_of_wide hc (by decide) (by decide)

/-- A difference, which must not be negative. -/
def sub? (m n : ℕ) : Option ℕ :=
  if n ≤ m then some (m - n) else none

/-! ### Strings -/

variable {t front : List Char} {i j : ℕ} {b quote separator : Char}

/-- The offset after a string, the reader being inside it. A string that is never closed reaches to
the end. -/
def skipStringFrom (t : List Char) (quote : Char) (i : ℕ) : ℕ :=
  match _h : byte? t i with
  | none => byteLength t
  | some b =>
    if b = '\\' then skipStringFrom t quote (i + 2)
    else if b = quote then i + 1
    else skipStringFrom t quote (i + 1)
termination_by byteLength t - i
decreasing_by all_goals have := lt_of_byte? _h; omega

/-- The offset after a string that begins at an offset. -/
def skipString? (t : List Char) (i : ℕ) : Option ℕ :=
  (byte? t i).map fun quote ↦ skipStringFrom t quote (i + 1)

theorem skipStringFrom_none (h : byte? t i = none) : skipStringFrom t quote i = byteLength t := by
  rw [skipStringFrom]
  split <;> simp_all

theorem skipStringFrom_some (h : byte? t i = some b) :
    skipStringFrom t quote i =
      if b = '\\' then skipStringFrom t quote (i + 2)
      else if b = quote then i + 1
      else skipStringFrom t quote (i + 1) := by
  rw [skipStringFrom]
  split <;> simp_all

theorem skipStringFrom_passes (hquote : quote.toNat < 128) (hb : byte? t i = some b)
    (hwide : 128 ≤ b.toNat) : skipStringFrom t quote i = skipStringFrom t quote (i + 1) := by
  rw [skipStringFrom_some hb, if_neg (ne_of_wide hwide (by decide)),
    if_neg (ne_of_wide hwide hquote)]

/-- **A string ends for the bytes where it ends for the characters**, also after an escape that
takes but the first byte of a character. -/
theorem skipStringFrom_offset (hquote : quote.toNat < 128) (h : rest <:+ t) :
    skipStringFrom t quote (offset t rest) = offset t ((Quoting.inside quote).after rest) ∧
      skipStringFrom t quote (offset t rest + 1) = offset t ((Quoting.escaped quote).after rest) := by
  have hpass : ∀ i b, byte? t i = some b → 128 ≤ b.toNat →
      skipStringFrom t quote i = skipStringFrom t quote (i + 1) :=
    fun _ _ ↦ skipStringFrom_passes hquote
  induction rest with
  | nil =>
    exact ⟨skipStringFrom_none (byte?_offset_nil t),
      skipStringFrom_none (byte?_eq_none (Nat.le_succ _))⟩
  | cons c rest ih =>
    obtain ⟨hinside, hescaped⟩ := ih (suffix_of_cons_suffix h)
    rcases Nat.lt_or_ge c.toNat 128 with hc | hc
    · refine ⟨?_, by rw [offset_succ h hc]; exact hinside⟩
      have hafter : (Quoting.inside quote).after (c :: rest) =
          (if c = '\\' then Quoting.escaped quote else if c = quote then .outside
            else .inside quote).after rest := rfl
      rw [skipStringFrom_some (byte?_narrow h hc), hafter]
      split
      · rw [← hescaped, ← offset_succ h hc]
      · split
        · rw [offset_succ h hc, Quoting.after_outside]
        · rw [offset_succ h hc, hinside]
    -- after a backslash the reader stands at the second byte of the character
    · refine ⟨?_, (eq_of_passes hpass h hc c.utf8Size_pos).trans hinside⟩
      have hafter : (Quoting.inside quote).step c = .inside quote :=
        (if_neg (ne_of_wide hc (by decide))).trans (if_neg (ne_of_wide hc hquote))
      have hne : Quoting.inside quote ≠ .outside := fun heq ↦ by cases heq
      rw [Quoting.after_cons hne, hafter, ← hinside]
      exact eq_of_passes hpass h hc (Nat.zero_le _)

theorem skipStringFrom_of_quote (hc : c = '"' ∨ c = '\'') (h : rest <:+ t) :
    skipStringFrom t c (offset t rest) = offset t ((Quoting.outside.step c).after rest) := by
  have hnarrow : c.toNat < 128 := by
    rcases hc with rfl | rfl <;> decide
  have hstep : Quoting.outside.step c = .inside c := if_pos hc
  rw [hstep]
  exact (skipStringFrom_offset hnarrow h).1

theorem le_skipStringFrom (t : List Char) (quote : Char) (i : ℕ) :
    min (i + 1) (byteLength t) ≤ skipStringFrom t quote i := by
  fun_induction skipStringFrom t quote i with
  | case1 => omega
  | case2 => omega
  | case3 => omega
  | case4 => omega

theorem lt_of_skipString? (h : skipString? t i = some j) : i < j := by
  obtain ⟨quote, hquote, rfl⟩ := Option.map_eq_some_iff.1 h
  have hlt := lt_of_byte? hquote
  have hle := le_skipStringFrom t quote (i + 1)
  omega

/-- The offset of the last byte of a string that begins at an offset. -/
def lastOfString? (t : List Char) (i : ℕ) : Option ℕ :=
  (skipString? t i).bind (sub? · 1)

theorem sub?_of_lt (h : i < j) : sub? j 1 = some (j - 1) :=
  if_pos (Nat.succ_le_of_lt (Nat.zero_lt_of_lt h))

theorem lt_of_lastOfString? {last : ℕ} (h : lastOfString? t i = some last) : i < last + 1 := by
  obtain ⟨j, hj, hlast⟩ := Option.bind_eq_some_iff.1 h
  have hlt := lt_of_skipString? hj
  rw [sub?_of_lt hlt] at hlast
  obtain rfl := Option.some.inj hlast
  omega

/-! ### Groups -/

/-- The offset after a group, the reader being inside it; `depth` brackets are open. A group that is
never closed reaches to the end. -/
def skipGroupFrom? (t : List Char) (opener closer : Char) (depth i : ℕ) : Option ℕ :=
  match _h : byte? t i with
  | none => some (byteLength t)
  | some b =>
    if b = opener then skipGroupFrom? t opener closer (depth + 1) (i + 1)
    else if b = closer then
      match sub? depth 1 with
      | none => none
      | some 0 => some (i + 1)
      | some (d + 1) => skipGroupFrom? t opener closer (d + 1) (i + 1)
    else if b = '"' ∨ b = '\'' then
      match _hstring : lastOfString? t i with
      | none => none
      | some last => skipGroupFrom? t opener closer depth (last + 1)
    else skipGroupFrom? t opener closer depth (i + 1)
termination_by byteLength t - i
decreasing_by
  all_goals have := lt_of_byte? _h
  all_goals try omega
  have := lt_of_lastOfString? _hstring
  omega

/-- The offset after a group that begins at an offset. -/
def skipGroup? (t : List Char) (opener closer : Char) (i : ℕ) : Option ℕ :=
  skipGroupFrom? t opener closer 0 i

theorem skipGroupFrom?_some (h : byte? t i = some b) :
    skipGroupFrom? t opener closer depth i =
      if b = opener then skipGroupFrom? t opener closer (depth + 1) (i + 1)
      else if b = closer then
        match sub? depth 1 with
        | none => none
        | some 0 => some (i + 1)
        | some (d + 1) => skipGroupFrom? t opener closer (d + 1) (i + 1)
      else if b = '"' ∨ b = '\'' then
        match lastOfString? t i with
        | none => none
        | some last => skipGroupFrom? t opener closer depth (last + 1)
      else skipGroupFrom? t opener closer depth (i + 1) := by
  rw [skipGroupFrom?]
  split
  · rename_i h'
    rw [h] at h'
    cases h'
  · rename_i h'
    obtain rfl := Option.some.inj (h.symm.trans h')
    refine if_congr Iff.rfl rfl (if_congr Iff.rfl rfl (if_congr Iff.rfl ?_ rfl))
    split <;> rename_i hstring <;> rw [hstring]

theorem skipGroupFrom?_none (h : byte? t i = none) :
    skipGroupFrom? t opener closer depth i = some (byteLength t) := by
  rw [skipGroupFrom?]
  split <;> simp_all

theorem skipString?_offset (hc : c = '"' ∨ c = '\'') (h : c :: rest <:+ t) :
    skipString? t (offset t (c :: rest)) =
      some (offset t ((Quoting.outside.step c).after rest)) := by
  have hnarrow : c.toNat < 128 := by
    rcases hc with rfl | rfl <;> decide
  rw [skipString?, byte?_narrow h hnarrow, Option.map_some, offset_succ h hnarrow,
    skipStringFrom_of_quote hc (suffix_of_cons_suffix h)]

theorem le_of_skipGroupFrom? (h : skipGroupFrom? t opener closer depth i = some j) :
    min (i + 1) (byteLength t) ≤ j := by
  fun_induction skipGroupFrom? t opener closer depth i generalizing j with
  | case1 =>
    obtain rfl := Option.some.inj h
    exact Nat.min_le_right _ _
  | case2 _ _ _ ih =>
    have := ih h
    omega
  | case3 => cases h
  | case4 =>
    obtain rfl := Option.some.inj h
    exact Nat.min_le_left _ _
  | case5 _ _ _ _ _ _ ih =>
    have := ih h
    omega
  | case6 => cases h
  | case7 _ _ _ _ _ _ _ _ hlast ih =>
    have := lt_of_lastOfString? hlast
    have := ih h
    omega
  | case8 _ _ _ _ _ _ _ ih =>
    have := ih h
    omega

theorem lt_of_skipGroup? (hb : byte? t i = some b) (h : skipGroup? t opener closer i = some j) :
    i < j := by
  have hlt := lt_of_byte? hb
  have hle := le_of_skipGroupFrom? h
  omega

theorem skipGroupFrom?_passes {d : ℕ} (hopener : opener.toNat < 128) (hcloser : closer.toNat < 128)
    (hb : byte? t i = some b) (hwide : 128 ≤ b.toNat) :
    skipGroupFrom? t opener closer d i = skipGroupFrom? t opener closer d (i + 1) := by
  rw [skipGroupFrom?_some hb, if_neg (ne_of_wide hwide hopener),
    if_neg (ne_of_wide hwide hcloser), if_neg (not_quote_of_wide hwide)]

/-- **A group ends for the bytes where it ends for the characters**, and the depth never falls below
zero. -/
theorem skipGroupFrom?_offset (hopener : opener.toNat < 128) (hcloser : closer.toNat < 128)
    (h : rest <:+ t) (q : Quoting) (depth : ℕ) :
    skipGroupFrom? t opener closer (depth + 1) (offset t (q.after rest)) =
      some (offset t (afterGroup opener closer q depth rest)) := by
  induction rest generalizing q depth with
  | nil => exact skipGroupFrom?_none (byte?_offset_nil t)
  | cons c rest ih =>
    have hrest := suffix_of_cons_suffix h
    by_cases hq : q = .outside
    · subst hq
      have hread : ∀ depth, skipGroupFrom? t opener closer (depth + 1) (offset t rest) =
          some (offset t (afterGroup opener closer .outside depth rest)) := by
        intro depth
        have hread := ih hrest .outside depth
        rwa [Quoting.after_outside] at hread
      rw [Quoting.after_outside, afterGroup_outside_cons]
      rcases Nat.lt_or_ge c.toNat 128 with hc | hc
      · rw [skipGroupFrom?_some (byte?_narrow h hc)]
        split
        · rw [offset_succ h hc]
          exact hread (depth + 1)
        · split
          · cases depth with
            | zero => exact congrArg some (offset_succ h hc)
            | succ depth =>
              show skipGroupFrom? t opener closer (depth + 1) _ = _
              rw [offset_succ h hc]
              exact hread depth
          · split
            · rename_i hquote
              have hstring := skipString?_offset hquote h
              rw [lastOfString?, hstring, Option.bind_some, sub?_of_lt (lt_of_skipString? hstring)]
              dsimp only
              rw [Nat.sub_add_cancel (Nat.zero_lt_of_lt (lt_of_skipString? hstring))]
              exact ih hrest _ depth
            · rename_i hquote
              rw [offset_succ h hc, show Quoting.outside.step c = .outside from if_neg hquote]
              exact hread depth
      · have hpassed : skipGroupFrom? t opener closer (depth + 1) _ = _ :=
          eq_of_passes (fun _ _ ↦ skipGroupFrom?_passes hopener hcloser) h hc (Nat.zero_le _)
        rw [if_neg (ne_of_wide hc hopener), if_neg (ne_of_wide hc hcloser),
          show Quoting.outside.step c = .outside from if_neg (not_quote_of_wide hc)]
        exact hpassed.trans (hread depth)
    · rw [Quoting.after_cons hq, afterGroup_cons hq]
      exact ih hrest _ depth

theorem skipGroup?_offset (hopener : opener.toNat < 128) (hcloser : closer.toNat < 128)
    (h : opener :: rest <:+ t) :
    skipGroup? t opener closer (offset t (opener :: rest)) =
      some (offset t (afterGroup opener closer .outside 0 rest)) := by
  have hread := skipGroupFrom?_offset hopener hcloser (suffix_of_cons_suffix h) .outside 0
  rw [Quoting.after_outside] at hread
  rw [skipGroup?, skipGroupFrom?_some (byte?_narrow h hopener), if_pos rfl, offset_succ h hopener,
    hread]

/-! ### Splitting -/

/-- The parts of a text between separators outside brackets and strings, from an offset on; the part
that is being read begins at `start`. -/
def splitFrom? (t : List Char) (separator : Char) (depth start i : ℕ) : Option (List (List Char)) :=
  match _h : byte? t i with
  | none => (slice? t start (byteLength t)).map ([·])
  | some b =>
    if b = '(' ∨ b = '[' then splitFrom? t separator (depth + 1) start (i + 1)
    else if b = ')' ∨ b = ']' then splitFrom? t separator (depth - 1) start (i + 1)
    else if b = '"' ∨ b = '\'' then
      match _hstring : skipString? t i with
      | none => none
      | some j => splitFrom? t separator depth start j
    else if b = separator ∧ depth = 0 then
      (slice? t start i).bind fun part ↦
        (splitFrom? t separator depth (i + 1) (i + 1)).map (part :: ·)
    else splitFrom? t separator depth start (i + 1)
termination_by byteLength t - i
decreasing_by
  all_goals have := lt_of_byte? _h
  all_goals try omega
  have := lt_of_skipString? _hstring
  omega

/-- Splits a text at a separator outside brackets and strings. -/
def splitTopLevel? (t : List Char) (separator : Char) : Option (List (List Char)) :=
  splitFrom? t separator 0 0 0

theorem splitFrom?_none {start : ℕ} (h : byte? t i = none) :
    splitFrom? t separator depth start i = (slice? t start (byteLength t)).map ([·]) := by
  rw [splitFrom?]
  split <;> simp_all

theorem splitFrom?_some {start : ℕ} (h : byte? t i = some b) :
    splitFrom? t separator depth start i =
      if b = '(' ∨ b = '[' then splitFrom? t separator (depth + 1) start (i + 1)
      else if b = ')' ∨ b = ']' then splitFrom? t separator (depth - 1) start (i + 1)
      else if b = '"' ∨ b = '\'' then
        (skipString? t i).bind fun j ↦ splitFrom? t separator depth start j
      else if b = separator ∧ depth = 0 then
        (slice? t start i).bind fun part ↦
          (splitFrom? t separator depth (i + 1) (i + 1)).map (part :: ·)
      else splitFrom? t separator depth start (i + 1) := by
  rw [splitFrom?]
  split
  · rename_i h'
    rw [h] at h'
    cases h'
  · rename_i h'
    obtain rfl := Option.some.inj (h.symm.trans h')
    refine if_congr Iff.rfl rfl (if_congr Iff.rfl rfl (if_congr Iff.rfl ?_ rfl))
    split <;> rename_i hstring <;> rw [hstring] <;> rfl

theorem splitFrom?_passes {start : ℕ} (hb : byte? t i = some b) (hwide : 128 ≤ b.toNat) :
    splitFrom? t ',' depth start i = splitFrom? t ',' depth start (i + 1) := by
  rw [splitFrom?_some hb, if_neg (not_or_of_wide hwide (by decide) (by decide)),
    if_neg (not_or_of_wide hwide (by decide) (by decide)), if_neg (not_quote_of_wide hwide),
    if_neg fun hcomma ↦ ne_of_wide hwide (by decide) hcomma.1]

/-- Adds a text in front of the first part. -/
def prependPart (front : List Char) : List (List Char) → List (List Char)
  | [] => [front]
  | p :: ps => (front ++ p) :: ps

theorem prependPart_consPart (front : List Char) (c : Char) (parts : List (List Char)) :
    prependPart front (consPart c parts) = prependPart (front ++ [c]) parts := by
  cases parts <;> simp [prependPart, consPart]

theorem prependPart_nil {parts : List (List Char)} (hparts : parts ≠ []) :
    prependPart [] parts = parts := by
  cases parts with
  | nil => exact absurd rfl hparts
  | cons p ps => rfl

/-- What the split does with a character outside strings, in the order in which the reader of bytes
looks for it. -/
theorem splitTopLevel_outside_cons :
    splitTopLevel ',' .outside depth (c :: rest) =
      if c = '(' ∨ c = '[' then consPart c (splitTopLevel ',' .outside (depth + 1) rest)
      else if c = ')' ∨ c = ']' then consPart c (splitTopLevel ',' .outside (depth - 1) rest)
      else if c = '"' ∨ c = '\'' then
        consPart c (splitTopLevel ',' (Quoting.outside.step c) depth rest)
      else if c = ',' ∧ depth = 0 then [] :: splitTopLevel ',' .outside 0 rest
      else consPart c (splitTopLevel ',' .outside depth rest) := by
  have hmodel : splitTopLevel ',' .outside depth (c :: rest) =
      if c = ',' ∧ depth = 0 then [] :: splitTopLevel ',' .outside 0 rest
      else consPart c (splitTopLevel ',' (Quoting.outside.step c) (nest depth c) rest) := rfl
  rw [hmodel]
  by_cases hopen : c = '(' ∨ c = '['
  · rcases hopen with rfl | rfl <;> rfl
  · by_cases hclose : c = ')' ∨ c = ']'
    · rcases hclose with rfl | rfl <;> rfl
    · rw [if_neg hopen, if_neg hclose, nest, if_neg hopen, if_neg hclose]
      by_cases hquote : c = '"' ∨ c = '\''
      · rcases hquote with rfl | rfl <;> rfl
      · rw [if_neg hquote, show Quoting.outside.step c = .outside from if_neg hquote]

/-- **A text is split for the bytes where it is split for the characters**, and no part begins or
ends inside a character. -/
theorem splitFrom?_offset (front : List Char) (q : Quoting) (depth : ℕ) (h : front ++ rest <:+ t) :
    splitFrom? t ',' depth (offset t (front ++ rest)) (offset t (q.after rest)) =
      some (prependPart front (splitTopLevel ',' q depth rest)) := by
  induction rest generalizing front q depth with
  | nil =>
    rw [show q.after [] = [] from rfl, splitFrom?_none (byte?_offset_nil t), slice?_to_end h]
    rfl
  | cons c rest ih =>
    have hcons : c :: rest <:+ t := (List.suffix_append front _).trans h
    have hread : ∀ q depth,
        splitFrom? t ',' depth (offset t (front ++ c :: rest)) (offset t (q.after rest)) =
          some (prependPart front (consPart c (splitTopLevel ',' q depth rest))) := by
      intro q depth
      have hread := ih (front ++ [c]) q depth (by rwa [List.append_assoc])
      rwa [← prependPart_consPart, List.append_assoc] at hread
    by_cases hq : q = .outside
    · subst hq
      have houtside : ∀ depth,
          splitFrom? t ',' depth (offset t (front ++ c :: rest)) (offset t rest) =
            some (prependPart front (consPart c (splitTopLevel ',' .outside depth rest))) := by
        intro depth
        have houtside := hread .outside depth
        rwa [Quoting.after_outside] at houtside
      rw [Quoting.after_outside, splitTopLevel_outside_cons]
      -- both ends of a part are at ASCII characters, so no slice fails
      rcases Nat.lt_or_ge c.toNat 128 with hc | hc
      · rw [splitFrom?_some (byte?_narrow hcons hc), offset_succ hcons hc]
        split
        · exact houtside (depth + 1)
        · split
          · exact houtside (depth - 1)
          · split
            · rename_i hquote
              rw [skipString?_offset hquote hcons]
              exact hread _ depth
            · split
              · rename_i hcomma
                obtain ⟨-, rfl⟩ := hcomma
                have hnext : splitFrom? t ',' 0 (offset t rest) (offset t rest) =
                    some (splitTopLevel ',' .outside 0 rest) := by
                  have hnext := ih [] .outside 0 (suffix_of_cons_suffix hcons)
                  rwa [Quoting.after_outside, prependPart_nil (splitTopLevel_ne_nil _ _ _ _)]
                    at hnext
                rw [slice?_offset h, Option.bind_some, hnext, prependPart, List.append_nil]
                rfl
              · exact houtside depth
      · have hpassed : splitFrom? t ',' depth (offset t (front ++ c :: rest)) _ = _ :=
          eq_of_passes (fun _ _ ↦ splitFrom?_passes) hcons hc (Nat.zero_le _)
        rw [if_neg (not_or_of_wide hc (by decide) (by decide)),
          if_neg (not_or_of_wide hc (by decide) (by decide)), if_neg (not_quote_of_wide hc),
          if_neg fun hcomma ↦ ne_of_wide hc (by decide) hcomma.1]
        exact hpassed.trans (houtside depth)
    · have hmodel : splitTopLevel ',' q depth (c :: rest) =
          consPart c (splitTopLevel ',' (q.step c) depth rest) := by
        cases q with
        | outside => exact absurd rfl hq
        | inside quote => rfl
        | escaped quote => rfl
      rw [Quoting.after_cons hq, hmodel]
      exact hread _ depth

/-- **Splitting by offsets never fails**, and gives the parts that splitting by characters gives. -/
theorem splitTopLevel?_eq (t : List Char) :
    splitTopLevel? t ',' = some (splitTopLevel ',' .outside 0 t) := by
  have hread := splitFrom?_offset [] .outside 0 (List.suffix_refl t)
  rwa [Quoting.after_outside, prependPart_nil (splitTopLevel_ne_nil _ _ _ _), List.nil_append,
    offset_self] at hread

end Offset

end AppletBundle.Style
