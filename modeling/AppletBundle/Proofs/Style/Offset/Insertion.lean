import AppletBundle.Proofs.Style.Offset.Scan

/-!
# The place of an attribute by offsets

The reader of a selector skips one part after the other: a combinator, a pseudo class or element with
its argument, a group of brackets, or the rest of a compound. The machine that finds the place for the
attribute takes single characters. A character either goes on with the part that the machine is in,
or begins the next part (`SelectorState.goesOn_or_beginsNext`), so the reader stands after the part
that the machine is in, and the place it has found is the one that the machine will have found there.

A backslash at the end of a compound makes the reader skip a byte of the character that follows, and
at the end of the selector a byte that does not exist. The bytes left of the character are none that
the reader looks for, and the end is the least offset that it returns.
-/

namespace AppletBundle.Style

open AppletBundle.Text

/-! ### What is left after a part -/

/-- Whether a character ends a compound. -/
def isCompoundBreak (c : Char) : Bool :=
  isCombinator c || c == ':' || c == '['

/-- What is left of a selector after the compound that the reader is in; the flag tells whether the
next character is escaped. -/
def afterCompound (escaped : Bool) : List Char → List Char
  | [] => []
  | c :: rest =>
    if escaped then afterCompound false rest
    else if isCompoundBreak c then c :: rest
    else afterCompound (c = '\\') rest

/-- What is left of a selector after the name of a pseudo class or element, and its argument. -/
def afterName (rest : List Char) : List Char :=
  match rest.dropWhile isIdentChar with
  | '(' :: inner => afterGroup '(' ')' .outside 0 inner
  | rest => rest

namespace SelectorState

/-- What is left of a selector after the part that the reader is in. -/
def after : SelectorState → List Char → List Char
  | gap, rest => rest
  | colon, rest => afterName (if rest.head? = some ':' then rest.drop 1 else rest)
  | pseudoName, rest => afterName rest
  | pseudoArgument q depth, rest => afterGroup '(' ')' q depth rest
  | brackets q depth, rest => afterGroup '[' ']' q depth rest
  | compound, rest => afterCompound false rest
  | compoundEscape, rest => afterCompound true rest

/-- Whether the attribute may stand after the part that the reader is in. -/
def isMarking : SelectorState → Bool
  | brackets .. => true
  | compound => true
  | compoundEscape => true
  | _ => false

variable {c : Char} {rest : List Char}

theorem afterName_cons_ident (hc : isIdentChar c = true) :
    afterName (c :: rest) = afterName rest := by
  rw [afterName, afterName, List.dropWhile_cons_of_pos hc]

theorem afterName_cons_paren : afterName ('(' :: rest) = afterGroup '(' ')' .outside 0 rest := by
  rw [afterName, List.dropWhile_cons_of_neg (by decide)]
  rfl

theorem afterName_cons_other (hc : ¬ isIdentChar c = true) (hparen : c ≠ '(') :
    afterName (c :: rest) = c :: rest := by
  rw [afterName, List.dropWhile_cons_of_neg hc]
  split
  · rename_i h
    exact absurd (List.cons.inj h).1 hparen
  · rfl

/-- A character inside a group goes on with it or closes it. -/
theorem inGroup_cases (opener closer : Char) (group : Quoting → ℕ → SelectorState) (q : Quoting)
    (depth : ℕ) (c : Char) (rest : List Char) :
    (∃ q' depth', inGroup opener closer group q depth c = group q' depth' ∧
        afterGroup opener closer q depth (c :: rest) = afterGroup opener closer q' depth' rest) ∨
      inGroup opener closer group q depth c = gap ∧
        afterGroup opener closer q depth (c :: rest) = rest := by
  by_cases hq : q = .outside
  · subst hq
    rw [afterGroup_outside_cons]
    unfold inGroup
    dsimp only
    split
    · exact Or.inl ⟨_, _, rfl, rfl⟩
    · split
      · cases depth with
        | zero => exact Or.inr ⟨rfl, rfl⟩
        | succ depth => exact Or.inl ⟨_, _, rfl, rfl⟩
      · exact Or.inl ⟨_, _, rfl, rfl⟩
  · refine Or.inl ⟨q.step c, depth, ?_, afterGroup_cons hq⟩
    cases q with
    | outside => exact absurd rfl hq
    | inside quote => rfl
    | escaped quote => rfl

theorem after_nil (s : SelectorState) : s.after [] = [] := by
  cases s <;> rfl

theorem isEnd_eq_false {s next : SelectorState} (hs : ∀ q depth, s ≠ .brackets q depth)
    (hnext : next.isMarking = false) : isEnd s next = false := by
  cases next with
  | compound => cases hnext
  | compoundEscape => cases hnext
  | brackets => cases hnext
  | gap =>
    cases s with
    | brackets q depth => exact absurd rfl (hs q depth)
    | _ => rfl
  | colon => cases s <;> rfl
  | pseudoName => cases s <;> rfl
  | pseudoArgument => cases s <;> rfl

/-- A character goes on with the part that the reader is in: what is left after the part stays the
same, and so does the place that the part gives for the attribute. -/
def GoesOn (s : SelectorState) (c : Char) (rest : List Char) : Prop :=
  s.after (c :: rest) = (s.step c).after rest ∧
    ((s.step c).isMarking = s.isMarking ∧ (s.isMarking = false → isEnd s (s.step c) = false) ∨
      s.step c = gap ∧ s.isMarking = true ∧ isEnd s (s.step c) = true)

/-- A character begins the next part. -/
def BeginsNext (s : SelectorState) (c : Char) (rest : List Char) : Prop :=
  s.after (c :: rest) = c :: rest ∧ s.step c = start c ∧ ∀ q depth, s ≠ .brackets q depth

theorem goesOn_or_beginsNext_pseudoName (c : Char) (rest : List Char) :
    GoesOn pseudoName c rest ∨ BeginsNext pseudoName c rest := by
  by_cases hident : isIdentChar c = true
  · have hstep : pseudoName.step c = pseudoName := if_pos hident
    refine Or.inl ⟨?_, Or.inl ?_⟩ <;> rw [hstep]
    · exact afterName_cons_ident hident
    · exact ⟨rfl, fun _ ↦ rfl⟩
  · by_cases hparen : c = '('
    · subst hparen
      exact Or.inl ⟨afterName_cons_paren, Or.inl ⟨rfl, fun _ ↦ rfl⟩⟩
    · have hstep : pseudoName.step c = start c := (if_neg hident).trans (if_neg hparen)
      exact Or.inr ⟨afterName_cons_other hident hparen, hstep, nofun⟩

theorem goesOn_or_beginsNext_colon (c : Char) (rest : List Char) :
    GoesOn colon c rest ∨ BeginsNext colon c rest := by
  by_cases hcolon : c = ':'
  · subst hcolon
    exact Or.inl ⟨rfl, Or.inl ⟨rfl, fun _ ↦ rfl⟩⟩
  · have hafter : colon.after (c :: rest) = pseudoName.after (c :: rest) := by
      show afterName (if (c :: rest).head? = some ':' then _ else _) = _
      rw [if_neg (by simpa using hcolon)]
      rfl
    have hstep : colon.step c = pseudoName.step c := by
      simp [step, hcolon]
    have hend : ∀ next, isEnd colon next = isEnd pseudoName next := by rintro (_ | _) <;> rfl
    have hname := goesOn_or_beginsNext_pseudoName c rest
    unfold GoesOn BeginsNext at hname ⊢
    rw [hafter, hstep, hend]
    exact hname.imp id fun h ↦ ⟨h.1, h.2.1, nofun⟩

theorem goesOn_or_beginsNext_compound (c : Char) (rest : List Char) :
    GoesOn compound c rest ∨ BeginsNext compound c rest := by
  have hafter : compound.after (c :: rest) =
      if isCompoundBreak c = true then c :: rest else afterCompound (c = '\\') rest := rfl
  by_cases hbreak : isCompoundBreak c = true
  · have hstep : compound.step c = start c := by
      refine if_pos ?_
      simp only [isCompoundBreak, Bool.or_eq_true, beq_iff_eq, decide_eq_true_eq] at hbreak ⊢
      exact Or.inl hbreak
    exact Or.inr ⟨hafter.trans (if_pos hbreak), hstep, nofun⟩
  · rw [if_neg hbreak] at hafter
    by_cases hescape : c = '\\'
    · subst hescape
      exact Or.inl ⟨hafter, Or.inl ⟨rfl, nofun⟩⟩
    · have hstep : compound.step c = compound := by
        refine if_neg ?_
        simp only [isCompoundBreak, Bool.or_eq_true, beq_iff_eq, decide_eq_true_eq] at hbreak ⊢
        exact not_or.2 ⟨hbreak, hescape⟩
      refine Or.inl ⟨?_, Or.inl ?_⟩ <;> rw [hstep]
      · rw [hafter, decide_eq_false hescape]
        rfl
      · exact ⟨rfl, nofun⟩

/-- **A character goes on with the part that the reader is in, or begins the next one.** -/
theorem goesOn_or_beginsNext (s : SelectorState) (c : Char) (rest : List Char) :
    GoesOn s c rest ∨ BeginsNext s c rest := by
  cases s with
  | gap => exact Or.inr ⟨rfl, rfl, nofun⟩
  | colon => exact goesOn_or_beginsNext_colon c rest
  | pseudoName => exact goesOn_or_beginsNext_pseudoName c rest
  | compound => exact goesOn_or_beginsNext_compound c rest
  | compoundEscape => exact Or.inl ⟨rfl, Or.inl ⟨rfl, nofun⟩⟩
  | pseudoArgument q depth =>
    rcases inGroup_cases '(' ')' pseudoArgument q depth c rest with
      ⟨q', depth', hgroup, hafter⟩ | ⟨hgroup, hafter⟩
    · have hstep : (pseudoArgument q depth).step c = pseudoArgument q' depth' := hgroup
      refine Or.inl ⟨?_, Or.inl ?_⟩ <;> rw [hstep]
      · exact hafter
      · exact ⟨rfl, fun _ ↦ rfl⟩
    · have hstep : (pseudoArgument q depth).step c = gap := hgroup
      refine Or.inl ⟨?_, Or.inl ?_⟩ <;> rw [hstep]
      · exact hafter
      · exact ⟨rfl, fun _ ↦ rfl⟩
  | brackets q depth =>
    rcases inGroup_cases '[' ']' brackets q depth c rest with
      ⟨q', depth', hgroup, hafter⟩ | ⟨hgroup, hafter⟩
    · have hstep : (brackets q depth).step c = brackets q' depth' := hgroup
      refine Or.inl ⟨?_, Or.inl ?_⟩ <;> rw [hstep]
      · exact hafter
      · exact ⟨rfl, nofun⟩
    · have hstep : (brackets q depth).step c = gap := hgroup
      refine Or.inl ⟨?_, Or.inr ?_⟩ <;> rw [hstep]
      · exact hafter
      · exact ⟨rfl, rfl, rfl⟩

end SelectorState

/-- The number of characters before the attribute that a search ends with. -/
def InsertionSearch.result (s : InsertionSearch) : Option ℕ :=
  match s.state with
  | .brackets .. => some s.count
  | _ => s.last

namespace Offset

variable {t rest : List Char} {b c : Char} {i j : ℕ}

/-! ### Parts of a selector -/

/-- The offset after the characters of an identifier. -/
def skipIdent (t : List Char) (i : ℕ) : ℕ :=
  match _h : byte? t i with
  | none => i
  | some b => if isIdentChar b then skipIdent t (i + 1) else i
termination_by byteLength t - i
decreasing_by have := lt_of_byte? _h; omega

/-- The offset after a compound, or past the end when the last character is a backslash. -/
def skipCompound (t : List Char) (i : ℕ) : ℕ :=
  match _h : byte? t i with
  | none => i
  | some b =>
    if isCompoundBreak b then i
    else if b = '\\' then skipCompound t (i + 2)
    else skipCompound t (i + 1)
termination_by byteLength t - i
decreasing_by all_goals have := lt_of_byte? _h; omega

/-- The offset of the name after one colon or two. -/
def nameFrom (t : List Char) (i : ℕ) : ℕ :=
  if byte? t (i + 1) = some ':' then i + 2 else i + 1

/-- The offset after a pseudo class or element that begins at an offset. -/
def skipPseudo? (t : List Char) (i : ℕ) : Option ℕ :=
  let stop := skipIdent t (nameFrom t i)
  if byte? t stop = some '(' then skipGroup? t '(' ')' stop else some stop

theorem le_skipIdent (t : List Char) (i : ℕ) : i ≤ skipIdent t i := by
  fun_induction skipIdent t i <;> omega

theorem le_skipCompound (t : List Char) (i : ℕ) : i ≤ skipCompound t i := by
  fun_induction skipCompound t i <;> omega

theorem skipIdent_none (h : byte? t i = none) : skipIdent t i = i := by
  rw [skipIdent]
  split <;> simp_all

theorem skipIdent_some (h : byte? t i = some b) :
    skipIdent t i = if isIdentChar b then skipIdent t (i + 1) else i := by
  rw [skipIdent]
  split <;> simp_all

theorem skipCompound_none (h : byte? t i = none) : skipCompound t i = i := by
  rw [skipCompound]
  split <;> simp_all

theorem skipCompound_some (h : byte? t i = some b) :
    skipCompound t i =
      if isCompoundBreak b then i
      else if b = '\\' then skipCompound t (i + 2)
      else skipCompound t (i + 1) := by
  rw [skipCompound]
  split <;> simp_all

theorem lt_skipCompound (h : byte? t i = some b) (hbreak : ¬ isCompoundBreak b = true) :
    i < skipCompound t i := by
  rw [skipCompound_some h, if_neg hbreak]
  split
  · exact Nat.lt_of_lt_of_le (by omega) (le_skipCompound t (i + 2))
  · exact le_skipCompound t (i + 1)

theorem lt_of_skipPseudo? (h : skipPseudo? t i = some j) : i < j := by
  have hname : i < nameFrom t i := by
    unfold nameFrom
    split <;> omega
  have hstop := Nat.lt_of_lt_of_le hname (le_skipIdent t _)
  unfold skipPseudo? at h
  dsimp only at h
  split at h
  · rename_i hparen
    exact hstop.trans (lt_of_skipGroup? hparen h)
  · exact Option.some.inj h ▸ hstop

theorem isCompoundBreak_eq_false_of (hcombinator : ¬ isCombinator b = true) (hcolon : b ≠ ':')
    (hbracket : b ≠ '[') : ¬ isCompoundBreak b = true := by
  simp [isCompoundBreak, hcombinator, hcolon, hbracket]

/-- The last place where an attribute may stand in the rest of a selector, from an offset on, or the
one that was found before. -/
def insertionFrom? (t : List Char) (last : Option ℕ) (i : ℕ) : Option (Option ℕ) :=
  match _h : byte? t i with
  | none => some last
  | some b =>
    if isCombinator b then insertionFrom? t last (i + 1)
    else if b = ':' then
      match _hpseudo : skipPseudo? t i with
      | none => none
      | some j => insertionFrom? t last j
    else if b = '[' then
      match _hgroup : skipGroup? t '[' ']' i with
      | none => none
      | some j => insertionFrom? t (some j) j
    else
      insertionFrom? t (some (min (skipCompound t i) (byteLength t)))
        (min (skipCompound t i) (byteLength t))
termination_by byteLength t - i
decreasing_by
  all_goals have := lt_of_byte? _h
  · omega
  · have := lt_of_skipPseudo? _hpseudo
    omega
  · have := lt_of_skipGroup? _h _hgroup
    omega
  · have := lt_skipCompound _h (isCompoundBreak_eq_false_of ‹_› ‹_› ‹_›)
    omega

theorem insertionFrom?_none {last : Option ℕ} (h : byte? t i = none) :
    insertionFrom? t last i = some last := by
  rw [insertionFrom?]
  split <;> simp_all

theorem insertionFrom?_some {last : Option ℕ} (h : byte? t i = some b) :
    insertionFrom? t last i =
      if isCombinator b then insertionFrom? t last (i + 1)
      else if b = ':' then (skipPseudo? t i).bind fun j ↦ insertionFrom? t last j
      else if b = '[' then (skipGroup? t '[' ']' i).bind fun j ↦ insertionFrom? t (some j) j
      else
        insertionFrom? t (some (min (skipCompound t i) (byteLength t)))
          (min (skipCompound t i) (byteLength t)) := by
  rw [insertionFrom?]
  split
  · simp_all
  · rename_i h'
    obtain rfl := Option.some.inj (h.symm.trans h')
    refine if_congr Iff.rfl rfl (if_congr Iff.rfl ?_ (if_congr Iff.rfl ?_ rfl))
    · split <;> rename_i hpseudo <;> rw [hpseudo] <;> rfl
    · split <;> rename_i hgroup <;> rw [hgroup] <;> rfl

/-- The offset at which an attribute is inserted into a selector. -/
def insertionPoint? (t : List Char) : Option (Option ℕ) :=
  insertionFrom? t none 0

/-! ### Offsets between characters -/

theorem isIdentChar_of_wide (hc : 128 ≤ c.toNat) : isIdentChar c = true := by
  simp [isIdentChar, hc]

theorem not_isCombinator_of_wide (hc : 128 ≤ c.toNat) : ¬ isCombinator c = true := by
  have hne := fun (d : Char) (hd : d.toNat < 128) ↦ ne_of_wide hc hd
  simp [isCombinator, hne]

theorem not_isCompoundBreak_of_wide (hc : 128 ≤ c.toNat) : ¬ isCompoundBreak c = true :=
  isCompoundBreak_eq_false_of (not_isCombinator_of_wide hc) (ne_of_wide hc (by decide))
    (ne_of_wide hc (by decide))

theorem skipIdent_offset (h : rest <:+ t) :
    skipIdent t (offset t rest) = offset t (rest.dropWhile isIdentChar) := by
  induction rest with
  | nil => exact skipIdent_none (byte?_offset_nil t)
  | cons c rest ih =>
    have hrest := ih (suffix_of_cons_suffix h)
    rcases Nat.lt_or_ge c.toNat 128 with hc | hc
    · rw [skipIdent_some (byte?_narrow h hc), offset_succ h hc, hrest, List.dropWhile_cons]
      split <;> rfl
    · have hpass : ∀ i b, byte? t i = some b → 128 ≤ b.toNat →
          skipIdent t i = skipIdent t (i + 1) := by
        intro i b hb hwide
        rw [skipIdent_some hb, if_pos (isIdentChar_of_wide hwide)]
      rw [List.dropWhile_cons_of_pos (isIdentChar_of_wide hc), ← hrest]
      exact eq_of_passes hpass h hc (Nat.zero_le _)

/-- A compound ends for the bytes where it ends for the characters, also after an escape that takes
but the first byte of a character. -/
theorem skipCompound_offset (h : rest <:+ t) :
    min (skipCompound t (offset t rest)) (byteLength t) = offset t (afterCompound false rest) ∧
      min (skipCompound t (offset t rest + 1)) (byteLength t) =
        offset t (afterCompound true rest) := by
  have hpass : ∀ i b, byte? t i = some b → 128 ≤ b.toNat →
      skipCompound t i = skipCompound t (i + 1) := by
    intro i b hb hwide
    rw [skipCompound_some hb, if_neg (not_isCompoundBreak_of_wide hwide),
      if_neg (ne_of_wide hwide (by decide))]
  induction rest with
  | nil =>
    rw [skipCompound_none (byte?_offset_nil t)]
    refine ⟨Nat.min_self _, ?_⟩
    rw [offset_nil, skipCompound_none (byte?_eq_none (Nat.le_succ _))]
    exact Nat.min_eq_right (Nat.le_succ _)
  | cons c rest ih =>
    obtain ⟨hplain, hescaped⟩ := ih (suffix_of_cons_suffix h)
    have hafter : afterCompound false (c :: rest) =
        if isCompoundBreak c then c :: rest else afterCompound (c = '\\') rest := rfl
    rcases Nat.lt_or_ge c.toNat 128 with hc | hc
    · refine ⟨?_, by rw [offset_succ h hc]; exact hplain⟩
      rw [skipCompound_some (byte?_narrow h hc), hafter]
      split
      · exact Nat.min_eq_left (Nat.sub_le _ _)
      · split
        · rename_i hescape
          rw [decide_eq_true hescape, ← hescaped, ← offset_succ h hc]
        · rename_i hescape
          rw [decide_eq_false hescape, ← hplain, ← offset_succ h hc]
    · refine ⟨?_, ?_⟩
      · rw [hafter, if_neg (not_isCompoundBreak_of_wide hc),
          decide_eq_false (ne_of_wide hc (by decide)), ← hplain]
        exact congrArg (min · _) (eq_of_passes hpass h hc (Nat.zero_le _))
      · exact (congrArg (min · _) (eq_of_passes hpass h hc c.utf8Size_pos)).trans hplain

theorem nameFrom_offset (h : ':' :: rest <:+ t) :
    nameFrom t (offset t (':' :: rest)) =
      offset t (if rest.head? = some ':' then rest.drop 1 else rest) := by
  have hrest := suffix_of_cons_suffix h
  have hcolon : (':').toNat < 128 := by decide
  have hnext := offset_succ h hcolon
  rw [nameFrom, hnext]
  by_cases hhead : rest.head? = some ':'
  · obtain ⟨rest, rfl⟩ := List.head?_eq_some_iff.1 hhead
    rw [if_pos ((byte?_eq_some_iff hcolon hrest).2 hhead), if_pos hhead, List.drop_one,
      List.tail_cons, ← offset_succ hrest hcolon, ← hnext]
  · rw [if_neg (mt (byte?_eq_some_iff hcolon hrest).1 hhead), if_neg hhead]

theorem skipPseudo?_offset (h : ':' :: rest <:+ t) :
    skipPseudo? t (offset t (':' :: rest)) = some (offset t (SelectorState.colon.after rest)) := by
  have hparen : ('(').toNat < 128 := by decide
  rw [skipPseudo?, nameFrom_offset h, SelectorState.after]
  set name := if rest.head? = some ':' then rest.drop 1 else rest with hname
  have hsuffix : name <:+ t := by
    have hrest := suffix_of_cons_suffix h
    rw [hname]
    split
    · exact (List.drop_suffix 1 rest).trans hrest
    · exact hrest
  have hstop : name.dropWhile isIdentChar <:+ t := (List.dropWhile_suffix _).trans hsuffix
  rw [skipIdent_offset hsuffix, afterName]
  by_cases hhead : (name.dropWhile isIdentChar).head? = some '('
  · rw [if_pos ((byte?_eq_some_iff hparen hstop).2 hhead)]
    obtain ⟨inner, hinner⟩ := List.head?_eq_some_iff.1 hhead
    rw [hinner] at hstop ⊢
    exact skipGroup?_offset hparen (by decide) hstop
  · rw [if_neg (mt (byte?_eq_some_iff hparen hstop).1 hhead)]
    split
    · rename_i hinner
      rw [hinner] at hhead
      exact absurd rfl hhead
    · rfl

/-- The place that a part gives for the attribute when it ends at an offset. -/
def lastAfter (s : SelectorState) (last : Option ℕ) (i : ℕ) : Option ℕ :=
  if s.isMarking then some i else last

/-- A character that begins a compound. -/
theorem insertionFrom?_compound {last : Option ℕ} (h : c :: rest <:+ t)
    (hcombinator : ¬ isCombinator c = true) (hcolon : c ≠ ':') (hbracket : c ≠ '[') :
    insertionFrom? t last (offset t (c :: rest)) =
      insertionFrom? t (some (offset t (afterCompound (c = '\\') rest)))
        (offset t (afterCompound (c = '\\') rest)) := by
  have hbyte : ∃ b, byte? t (offset t (c :: rest)) = some b ∧ ¬ isCombinator b = true ∧
      b ≠ ':' ∧ b ≠ '[' := by
    rcases Nat.lt_or_ge c.toNat 128 with hc | hc
    · exact ⟨c, byte?_narrow h hc, hcombinator, hcolon, hbracket⟩
    · obtain ⟨b, hb, hwide⟩ := exists_byte?_wide h hc c.utf8Size_pos
      exact ⟨b, hb, not_isCombinator_of_wide hwide, ne_of_wide hwide (by decide),
        ne_of_wide hwide (by decide)⟩
  obtain ⟨b, hb, hcombinator', hcolon', hbracket'⟩ := hbyte
  have hafter : afterCompound false (c :: rest) = afterCompound (c = '\\') rest :=
    if_neg (isCompoundBreak_eq_false_of hcombinator hcolon hbracket)
  rw [insertionFrom?_some hb, if_neg hcombinator', if_neg hcolon', if_neg hbracket',
    (skipCompound_offset h).1, hafter]

/-- **The search goes over the next part** as the reader of characters does. -/
theorem insertionFrom?_offset_cons {last : Option ℕ} (h : c :: rest <:+ t) :
    insertionFrom? t last (offset t (c :: rest)) =
      insertionFrom? t
        (lastAfter (.start c) last (offset t ((SelectorState.start c).after rest)))
        (offset t ((SelectorState.start c).after rest)) := by
  unfold SelectorState.start
  split
  · rename_i hcombinator
    have hc : c.toNat < 128 := Nat.lt_of_not_le fun hc ↦ not_isCombinator_of_wide hc hcombinator
    rw [insertionFrom?_some (byte?_narrow h hc), if_pos hcombinator, offset_succ h hc]
    rfl
  · rename_i hcombinator
    split
    · rename_i hcolon
      subst hcolon
      rw [insertionFrom?_some (byte?_narrow h (by decide)), if_neg hcombinator, if_pos rfl,
        skipPseudo?_offset h]
      rfl
    · rename_i hcolon
      split
      · rename_i hbracket
        subst hbracket
        rw [insertionFrom?_some (byte?_narrow h (by decide)), if_neg hcombinator, if_neg hcolon,
          if_pos rfl, skipGroup?_offset (by decide) (by decide) h]
        rfl
      · rename_i hbracket
        rw [insertionFrom?_compound h hcombinator hcolon hbracket]
        split
        · rename_i hescape
          rw [decide_eq_true hescape]
          rfl
        · rename_i hescape
          rw [decide_eq_false hescape]
          rfl

/-! ### The search -/

theorem lastAfter_eq_of_goesOn {s : SelectorState} {last : Option ℕ} {front : List Char}
    (ht : t = front ++ c :: rest) (h : s.GoesOn c rest) :
    lastAfter s (last.map (offsetAfter t)) (offset t (s.after (c :: rest))) =
      lastAfter (s.step c)
        ((if s.isEnd (s.step c) then some (front.length + 1) else last).map (offsetAfter t))
        (offset t ((s.step c).after rest)) := by
  obtain ⟨hafter, ⟨hmarking, hend⟩ | ⟨hgap, hmarking, hend⟩⟩ := h
  · rw [hafter, lastAfter, lastAfter, hmarking]
    split
    · rfl
    · rename_i hnot
      rw [hend (Bool.eq_false_iff.2 hnot)]
      rfl
  · have hcount := offsetAfter_length (front ++ [c]) rest
    rw [List.append_assoc, List.singleton_append, ← ht, List.length_append] at hcount
    rw [hafter, lastAfter, if_pos hmarking, hend, hgap]
    exact congrArg some hcount.symm

theorem lastAfter_eq_of_beginsNext {s : SelectorState} {last : Option ℕ} {front : List Char}
    (ht : t = front ++ c :: rest) (h : s.BeginsNext c rest)
    (hlast : s = .compound ∨ s = .compoundEscape → last = some front.length) :
    lastAfter s (last.map (offsetAfter t)) (offset t (c :: rest)) = last.map (offsetAfter t) := by
  rw [lastAfter]
  split
  · rename_i hmarking
    have hs : s = .compound ∨ s = .compoundEscape := by
      cases s with
      | compound => exact Or.inl rfl
      | compoundEscape => exact Or.inr rfl
      | brackets q depth => exact absurd rfl (h.2.2 q depth)
      | _ => cases hmarking
    rw [hlast hs, ht, Option.map_some, offsetAfter_length]
  · rfl

/-- **The search by bytes finds the place that the search by characters finds.** -/
theorem insertionFrom?_offset (s : SelectorState) (last : Option ℕ) (front : List Char)
    (ht : t = front ++ rest)
    (hlast : s = .compound ∨ s = .compoundEscape → last = some front.length) :
    insertionFrom? t (lastAfter s (last.map (offsetAfter t)) (offset t (s.after rest)))
        (offset t (s.after rest)) =
      some ((rest.foldl InsertionSearch.step ⟨s, front.length, last⟩).result.map
        (offsetAfter t)) := by
  induction rest generalizing s last front with
  | nil =>
    have hend : offset t [] = offsetAfter t front.length := by
      rw [ht, offsetAfter_length]
    rw [s.after_nil, insertionFrom?_none (byte?_offset_nil t), hend, List.foldl_nil]
    refine congrArg some ?_
    cases s with
    | compound => rw [hlast (Or.inl rfl)]; rfl
    | compoundEscape => rw [hlast (Or.inr rfl)]; rfl
    | _ => rfl
  | cons c rest ih =>
    have hsuffix : c :: rest <:+ t := ht ▸ List.suffix_append front _
    have hnext : s.step c = .compound ∨ s.step c = .compoundEscape →
        (if s.isEnd (s.step c) then some (front.length + 1) else last) =
          some (front ++ [c]).length := by
      intro hstep
      have hend : s.isEnd (s.step c) = true := by
        rcases hstep with hstep | hstep <;> rw [hstep] <;> cases s <;> rfl
      rw [if_pos hend, List.length_append]
      rfl
    have hread := ih (s.step c) _ (front ++ [c]) (by rw [ht, List.append_assoc]; rfl) hnext
    rw [List.length_append] at hread
    refine Eq.trans ?_ hread
    rcases s.goesOn_or_beginsNext c rest with hon | hbegin
    · rw [lastAfter_eq_of_goesOn ht hon, hon.1]
    · rw [hbegin.1, lastAfter_eq_of_beginsNext ht hbegin hlast, insertionFrom?_offset_cons hsuffix,
        hbegin.2.1, lastAfter, lastAfter]
      split
      · rfl
      · rename_i hmarking
        rw [SelectorState.isEnd_eq_false hbegin.2.2 (Bool.eq_false_iff.2 hmarking)]
        rfl

/-- **An attribute goes between two characters**, to the place that the search by characters
finds. -/
theorem insertionPoint?_eq (t : List Char) :
    insertionPoint? t = some ((Style.insertionPoint? t).map (offsetAfter t)) := by
  have hread := insertionFrom?_offset .gap none [] (t := t) rfl nofun
  rwa [Option.map_none, SelectorState.after, offset_self] at hread

/-- The trimmed selector with the attribute. -/
def injectAttribute? (selector attr : List Char) : Option (List Char) :=
  let selector := trim selector
  (insertionPoint? selector).bind fun place ↦
    match place with
    | some i =>
      (slice? selector 0 i).bind fun before ↦
        (slice? selector i (byteLength selector)).map fun after ↦
          before ++ attributeSelector attr ++ after
    | none => some (attributeSelector attr ++ selector)

theorem injectAttribute?_eq (selector attr : List Char) :
    injectAttribute? selector attr = some (injectAttribute selector attr) := by
  rw [injectAttribute?, insertionPoint?_eq, injectAttribute]
  rcases Style.insertionPoint? (trim selector) with - | n
  · rfl
  · dsimp only [Option.map_some, Option.bind_some]
    rw [slice?_take, slice?_drop]
    rfl

end Offset

end AppletBundle.Style
