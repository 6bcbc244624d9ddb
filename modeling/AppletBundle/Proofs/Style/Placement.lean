import AppletBundle.Proofs.Style.Compounds
import AppletBundle.Proofs.Style.Forms

/-!
# The place of the attribute in a complex selector

The search for the place reads a complex selector by its parts. It passes over combinators, pseudo
classes and elements without a place (`Passes`), and has one at the end of every other part. So the
last place is at the end of the last part that is no pseudo class or element, wherever combinators
stand (`lastEnd_text`), and that is where a selector gets its attribute (`scopeSelector?_complex`).
-/

namespace AppletBundle.Style

open AppletBundle.Text

variable {s s' s'' : SelectorState} {b : Bracket} {t u : List Char} {c : Char}

/-! ### The search over a text -/

/-- The state of the reader after a text. -/
def SelectorState.read (s : SelectorState) (t : List Char) : SelectorState :=
  t.foldl step s

/-- The length of a text up to the last place where the attribute may stand. -/
def SelectorState.lastEnd (s : SelectorState) : List Char → Option ℕ
  | [] => none
  | c :: t =>
    (((s.step c).lastEnd t).map (1 + ·)).or (if isEnd s (s.step c) then some 1 else none)

open SelectorState

theorem SelectorState.read_append (s : SelectorState) (t u : List Char) :
    s.read (t ++ u) = (s.read t).read u :=
  List.foldl_append

theorem SelectorState.lastEnd_append (s : SelectorState) (t u : List Char) :
    s.lastEnd (t ++ u) = (((s.read t).lastEnd u).map (t.length + ·)).or (s.lastEnd t) := by
  induction t generalizing s with
  | nil => simp [lastEnd, SelectorState.read]
  | cons c t ih =>
    have hread : s.read (c :: t) = (s.step c).read t := rfl
    rw [List.cons_append, lastEnd, lastEnd, ih, hread, Option.map_or, Option.map_map, Option.or_assoc]
    refine congrArg (Option.or · _) (congrArg (Option.map · _) (funext fun n ↦ ?_))
    simp only [Function.comp_apply, List.length_cons]
    omega

theorem foldl_search (t : List Char) (s : SelectorState) (n : ℕ) (l : Option ℕ) :
    t.foldl InsertionSearch.step ⟨s, n, l⟩ =
      ⟨s.read t, n + t.length, ((s.lastEnd t).map (n + ·)).or l⟩ := by
  induction t generalizing s n l with
  | nil => rfl
  | cons c t ih =>
    rw [List.foldl_cons]
    show t.foldl InsertionSearch.step
      ⟨s.step c, n + 1, if isEnd s (s.step c) then some (n + 1) else l⟩ = _
    rw [ih, lastEnd, List.length_cons, Option.map_or, Option.map_map, Option.or_assoc]
    have hmap : (fun k ↦ n + 1 + k) = (n + ·) ∘ (1 + ·) := funext fun k ↦ Nat.add_assoc n 1 k
    have hcount : n + 1 + t.length = n + (t.length + 1) := by omega
    rw [hmap, hcount]
    refine congrArg (InsertionSearch.mk _ _) (congrArg _ ?_)
    split <;> rfl

/-- The place, unless brackets are open at the end. -/
theorem insertionPoint?_eq (h : ∀ q depth, gap.read t ≠ .brackets q depth) :
    insertionPoint? t = gap.lastEnd t := by
  rw [insertionPoint?, foldl_search]
  dsimp only
  split
  · rename_i q depth hread
    exact absurd hread (h q depth)
  · simp

/-! ### Between parts -/

/-- Any part may begin. -/
def IsOpen (s : SelectorState) : Prop :=
  ∀ c, s.step c = start c

/-- Any part may begin that does not go on with a name or an argument. -/
def IsReady (s : SelectorState) : Prop :=
  ∀ c, isIdentChar c = false → c ≠ '(' → s.step c = start c

theorem IsOpen.isReady (h : IsOpen s) : IsReady s :=
  fun c _ _ ↦ h c

theorem isOpen_gap : IsOpen .gap :=
  fun _ ↦ rfl

theorem isOpen_compound : IsOpen .compound := by
  intro c
  show (if isCombinator c || c = ':' || c = '[' || c = '\\' then start c else .compound) = start c
  split
  · rfl
  · rename_i h
    simp only [Bool.or_eq_true, decide_eq_true_eq, not_or] at h
    obtain ⟨⟨⟨hcombinator, hcolon⟩, hbracket⟩, hbackslash⟩ := h
    rw [start, if_neg hcombinator, if_neg hcolon, if_neg hbracket, if_neg hbackslash]

theorem isReady_pseudoName : IsReady .pseudoName := by
  intro c hident hparenthesis
  show (if isIdentChar c then _ else if c = '(' then _ else start c) = start c
  rw [hident, if_neg Bool.false_ne_true, if_neg hparenthesis]

theorem IsReady.ne_brackets (h : IsReady s) (q : Quoting) (depth : ℕ) : s ≠ .brackets q depth := by
  rintro rfl
  have hdot := h '.' (by decide) (by decide)
  cases q <;> cases hdot

/-! ### Passing over -/

/-- The reader passes over a text: the attribute may stand nowhere in it. -/
structure Passes (s : SelectorState) (t : List Char) (s' : SelectorState) : Prop where
  read : s.read t = s'
  lastEnd : s.lastEnd t = none

theorem Passes.nil (s : SelectorState) : Passes s [] s :=
  ⟨rfl, rfl⟩

theorem Passes.cons (hstep : s.step c = s') (hend : isEnd s s' = false) (h : Passes s' t s'') :
    Passes s (c :: t) s'' := by
  refine ⟨?_, ?_⟩
  · rw [← h.read, ← hstep]
    rfl
  · rw [SelectorState.lastEnd, hstep, h.lastEnd, hend]
    rfl

theorem Passes.append (ht : Passes s t s') (hu : Passes s' u s'') : Passes s (t ++ u) s'' :=
  ⟨by rw [read_append, ht.read, hu.read], by
    rw [lastEnd_append, ht.read, hu.lastEnd, ht.lastEnd]
    rfl⟩

/-- Inside brackets of a kind. -/
def Bracket.group : Bracket → Quoting → ℕ → SelectorState
  | parenthesis => .pseudoArgument
  | square => .brackets

theorem step_group (b : Bracket) (q : Quoting) (depth : ℕ) (c : Char) :
    (b.group q depth).step c = inGroup b.opener b.closer b.group q depth c := by
  cases b <;> rfl

theorem isEnd_group (b : Bracket) (s : SelectorState) (q : Quoting) (depth : ℕ) :
    isEnd s (b.group q depth) = false := by
  cases b <;> rfl

theorem Passes.cons_group {q : Quoting} {depth : ℕ} (hstep : s.step c = b.group q depth)
    (h : Passes (b.group q depth) t s') : Passes s (c :: t) s' :=
  .cons hstep (isEnd_group b s q depth) h

theorem step_group_quoted {q : Quoting} (hq : q ≠ .outside) (depth : ℕ) (c : Char) :
    (b.group q depth).step c = b.group (q.step c) depth := by
  rw [step_group]
  match q, hq with
  | .inside _, _ => rfl
  | .escaped _, _ => rfl

theorem step_group_outside (hc : c ≠ b.opener ∧ c ≠ b.closer) (depth : ℕ) :
    (b.group .outside depth).step c = b.group (Quoting.outside.step c) depth := by
  rw [step_group]
  unfold inGroup
  dsimp only
  rw [if_neg hc.1, if_neg hc.2]

theorem step_group_opener (b : Bracket) (depth : ℕ) :
    (b.group .outside depth).step b.opener = b.group .outside (depth + 1) := by
  rw [step_group]
  unfold inGroup
  exact if_pos rfl

theorem step_group_closer (b : Bracket) (depth : ℕ) :
    (b.group .outside (depth + 1)).step b.closer = b.group .outside depth := by
  rw [step_group]
  unfold inGroup
  dsimp only
  rw [if_neg b.closer_ne_opener, if_pos rfl]

theorem IsStringBody.passes {quote : Char} {body : List Char} (h : IsStringBody quote body)
    (hquote : quote = '"' ∨ quote = '\'') (depth : ℕ) :
    Passes (b.group (.inside quote) depth) (body ++ [quote]) (b.group .outside depth) := by
  induction h with
  | nil =>
    refine .cons_group ?_ (.nil _)
    rw [step_group_quoted (by simp), Quoting.step_quote hquote]
  | char hc hbackslash _ ih =>
    refine .cons_group ?_ ih
    rw [step_group_quoted (by simp), Quoting.step_inside hc hbackslash]
  | escape c _ ih =>
    have hescape : (Quoting.inside quote).step '\\' = .escaped quote := by
      rw [Quoting.step, if_pos rfl]
    have hfirst : (b.group (.inside quote) depth).step '\\' = b.group (.escaped quote) depth := by
      rw [step_group_quoted (by simp), hescape]
    have hsecond : (b.group (.escaped quote) depth).step c = b.group (.inside quote) depth :=
      step_group_quoted (by simp) depth c
    exact .cons_group hfirst (.cons_group hsecond ih)

/-- **Balanced text is passed over** inside brackets. -/
theorem IsBalanced.passes (h : IsBalanced b t) (depth : ℕ) :
    Passes (b.group .outside depth) t (b.group .outside depth) := by
  induction h generalizing depth with
  | nil => exact .nil _
  | char hc _ ih =>
    refine .cons_group ?_ (ih depth)
    rw [step_group_outside hc.notBracket, hc.step_outside]
  | @string quote body t hquote hbody _ ih =>
    have hopen : (b.group .outside depth).step quote = b.group (.inside quote) depth := by
      rw [step_group_outside (quote_ne_bracket hquote), Quoting.step_outside_quote hquote]
    have hclosed : Passes (b.group (.inside quote) depth) (body ++ [quote] ++ t)
        (b.group .outside depth) := (hbody.passes hquote depth).append (ih depth)
    rw [List.append_assoc] at hclosed
    exact .cons_group hopen hclosed
  | group _ _ ihinner ih =>
    refine .cons_group (step_group_opener b depth) ((ihinner (depth + 1)).append ?_)
    exact .cons_group (step_group_closer b depth) (ih depth)

/-! ### Names -/

/-- White space and combinators. -/
def joiningChars : List Char :=
  [' ', '\t', '\n', '\r', '\x0c', '>', '+', '~']

theorem mem_joiningChars_of_isCombinator (h : isCombinator c = true) : c ∈ joiningChars := by
  simp only [isCombinator, Bool.or_eq_true, beq_iff_eq] at h
  simp only [joiningChars, List.mem_cons, List.not_mem_nil, or_false]
  tauto

theorem mem_joiningChars (h : isSpaceChar c || isCombinator c) : c ∈ joiningChars := by
  rcases Bool.or_eq_true_iff.1 h with hspace | hcombinator
  · simp only [isSpaceChar, Bool.or_eq_true, beq_iff_eq] at hspace
    simp only [joiningChars, List.mem_cons, List.not_mem_nil, or_false]
    tauto
  · exact mem_joiningChars_of_isCombinator hcombinator

theorem start_of_isSelectorNameChar (h : isSelectorNameChar c = true) : start c = .compound := by
  have hcombinator : ¬ isCombinator c = true := by
    intro hcombinator
    have hnone : ∀ c ∈ joiningChars, isSelectorNameChar c = false :=
      forall_mem_of_all (by decide)
    rw [hnone c (mem_joiningChars_of_isCombinator hcombinator)] at h
    cases h
  have hne : c ≠ ':' ∧ c ≠ '[' ∧ c ≠ '\\' := by
    refine ⟨?_, ?_, ?_⟩ <;>
    · rintro rfl
      exact absurd h (by decide)
  rw [start, if_neg hcombinator, if_neg hne.1, if_neg hne.2.1, if_neg hne.2.2]

theorem start_of_isCombinator (h : isCombinator c = true) : start c = .gap :=
  if_pos h

theorem isOpen_start (h : isSelectorNameChar c || (isSpaceChar c || isCombinator c)) :
    IsOpen (start c) := by
  have hjoining : ∀ c ∈ joiningChars, start c = .gap ∨ start c = .compound :=
    forall_mem_of_all (by decide)
  rcases Bool.or_eq_true_iff.1 h with hname | hspace
  · rw [start_of_isSelectorNameChar hname]
    exact isOpen_compound
  · rcases hjoining c (mem_joiningChars hspace) with hgap | hcompound
    · rw [hgap]
      exact isOpen_gap
    · rw [hcompound]
      exact isOpen_compound

/-- Characters of names, white space and combinators leave the reader between parts. -/
theorem IsOpen.read (hs : IsOpen s)
    (h : ∀ c ∈ t, isSelectorNameChar c || (isSpaceChar c || isCombinator c)) :
    IsOpen (s.read t) := by
  induction t generalizing s with
  | nil => exact hs
  | cons c t ih =>
    rw [List.forall_mem_cons] at h
    have hstep : s.step c = start c := hs c
    show IsOpen ((s.step c).read t)
    rw [hstep]
    exact ih (isOpen_start h.1) h.2

/-- After an escape the reader is inside a compound. -/
theorem IsOpen.read_escape (hs : IsOpen s) (c : Char) (t : List Char) :
    s.read ('\\' :: c :: t) = SelectorState.compound.read t := by
  have hstep : s.step '\\' = .compoundEscape := hs '\\'
  show ((s.step '\\').step c).read t = _
  rw [hstep]
  rfl

theorem IsOpen.read_piece (hs : IsOpen s) (piece : NamePiece) : IsOpen (s.read piece.text) := by
  cases piece with
  | char c hc =>
    exact hs.read (List.forall_mem_singleton.2 (by rw [hc]; rfl))
  | escape c =>
    rw [NamePiece.text, hs.read_escape]
    exact isOpen_compound
  | code digits spaces hdigits hspaces hne =>
    have hchars : ∀ c ∈ digits ++ spaces,
        isSelectorNameChar c || (isSpaceChar c || isCombinator c) := by
      intro c hc
      rcases List.mem_append.1 hc with hc | hc
      · rw [hdigits c hc]
        rfl
      · rw [hspaces c hc, Bool.true_or, Bool.or_true]
    obtain ⟨c, t, hcons⟩ := List.exists_cons_of_ne_nil
      (List.append_ne_nil_of_right_ne_nil digits hne)
    rw [NamePiece.text]
    rw [hcons, List.forall_mem_cons] at hchars
    rw [hcons, hs.read_escape]
    exact isOpen_compound.read hchars.2

/-- The attribute may stand after a piece that is no code. -/
theorem IsOpen.lastEnd_piece (hs : IsOpen s) {piece : NamePiece} (hpiece : piece.isCode = false) :
    s.lastEnd piece.text = some piece.text.length := by
  cases piece with
  | char c hc =>
    have hstep : s.step c = .compound := (hs c).trans (start_of_isSelectorNameChar hc)
    rw [NamePiece.text, lastEnd, hstep]
    cases s <;> rfl
  | escape c =>
    have hstep : s.step '\\' = .compoundEscape := hs '\\'
    rw [NamePiece.text, lastEnd, hstep]
    rfl
  | code => cases hpiece

theorem IsOpen.read_name (hs : IsOpen s) (name : SelectorName) : IsOpen (s.read name.text) := by
  rw [SelectorName.text]
  induction name.pieces generalizing s with
  | nil => exact hs
  | cons piece pieces ih =>
    rw [List.flatMap_cons, read_append]
    exact ih (hs.read_piece piece)

/-- What ends with a place has its last place there. -/
theorem lastEnd_append_of_end (h : (s.read t).lastEnd u = some u.length) :
    s.lastEnd (t ++ u) = some (t ++ u).length := by
  rw [lastEnd_append, h, List.length_append]
  rfl

/-- The attribute may stand after a name. -/
theorem IsOpen.lastEnd_name (hs : IsOpen s) {name : SelectorName} (h : name.isClosed = true) :
    s.lastEnd name.text = some name.text.length := by
  obtain ⟨pieces, hne⟩ := name
  rcases List.eq_nil_or_concat' pieces with rfl | ⟨init, piece, rfl⟩
  · exact absurd rfl hne
  · have hcode : piece.isCode = false := by
      simpa [SelectorName.isClosed] using h
    have hinit : IsOpen (s.read (init.flatMap NamePiece.text)) := by
      rcases init with - | ⟨first, init⟩
      · exact hs
      · exact hs.read_name ⟨first :: init, List.cons_ne_nil _ _⟩
    have htext : SelectorName.text ⟨init ++ [piece], hne⟩ =
        init.flatMap NamePiece.text ++ piece.text := by
      simp [SelectorName.text]
    rw [htext]
    exact lastEnd_append_of_end (hinit.lastEnd_piece hcode)

/-! ### Parts -/

/-- A part that is no pseudo class or element begins with a character that begins any part. -/
theorem IsReady.step_mark (hs : IsReady s) (sort : NameSort) : s.step sort.mark = .compound := by
  cases sort with
  | className => exact hs '.' (by decide) (by decide)
  | id => exact hs '#' (by decide) (by decide)

theorem passes_pseudoName (h : ∀ c ∈ t, isIdentChar c = true) : Passes .pseudoName t .pseudoName := by
  induction t with
  | nil => exact .nil _
  | cons c t ih =>
    rw [List.forall_mem_cons] at h
    have hstep : SelectorState.pseudoName.step c = .pseudoName := if_pos h.1
    exact .cons hstep rfl (ih h.2)

/-- The colons and the name of a pseudo class or element. -/
theorem IsReady.passes_colons (hs : IsReady s) (isElement : Bool) (hne : t ≠ [])
    (h : ∀ c ∈ t, isIdentChar c = true) :
    Passes s ((if isElement then [':', ':'] else [':']) ++ t) .pseudoName := by
  have hcolon : s.step ':' = .colon := hs ':' (by decide) (by decide)
  cases isElement with
  | true => exact .cons hcolon rfl (.cons rfl rfl (passes_pseudoName h))
  | false =>
    obtain ⟨c, t, rfl⟩ := List.exists_cons_of_ne_nil hne
    rw [List.forall_mem_cons] at h
    have hstep : SelectorState.colon.step c = .pseudoName := if_pos (by rw [h.1]; rfl)
    exact .cons hcolon rfl (.cons hstep rfl (passes_pseudoName h.2))

/-- The argument of a pseudo class or element. -/
theorem IsBalanced.passes_argument (h : IsBalanced .parenthesis t) :
    Passes .pseudoName ('(' :: (t ++ [')'])) .gap := by
  have hopen : SelectorState.pseudoName.step '(' = .pseudoArgument .outside 0 := rfl
  exact .cons hopen rfl ((h.passes 0).append (.cons rfl rfl (.nil _)))

/-- **Pseudo classes and elements are passed over.** -/
theorem IsReady.passes_pseudo (hs : IsReady s) {part : SimpleSelector}
    (hpseudo : part.isPseudo = true) (hplain : part.isPlain = true) :
    ∃ s', Passes s part.text s' ∧ IsReady s' := by
  cases part with
  | named => cases hpseudo
  | bracketed => cases hpseudo
  | pseudo isElement name argument =>
    have hname : ∀ c ∈ name.text, isIdentChar c = true := List.all_eq_true.1 hplain
    have hcolons := hs.passes_colons isElement name.text_ne_nil hname
    rw [SimpleSelector.text, ← List.append_assoc]
    rcases argument with - | ⟨t, ht⟩
    · exact ⟨.pseudoName, hcolons.append (.nil _), isReady_pseudoName⟩
    · exact ⟨.gap, hcolons.append ht.passes_argument, isOpen_gap.isReady⟩

/-- An attribute in brackets is read up to its end. -/
theorem IsReady.read_bracketed (hs : IsReady s) (h : IsBalanced .square t) :
    s.read ('[' :: (t ++ [']'])) = .gap ∧
      s.lastEnd ('[' :: (t ++ [']'])) = some ('[' :: (t ++ [']'])).length := by
  have hopen : s.step '[' = .brackets .outside 0 := hs '[' (by decide) (by decide)
  have hinner : Passes s ('[' :: t) (.brackets .outside 0) := .cons hopen rfl (h.passes 0)
  rw [← List.cons_append]
  refine ⟨?_, lastEnd_append_of_end ?_⟩
  · rw [read_append, hinner.read]
    rfl
  · rw [hinner.read]
    rfl

/-- After a part any other may begin. -/
theorem IsReady.read_part (hs : IsReady s) {part : SimpleSelector} (hplain : part.isPlain = true) :
    IsReady (s.read part.text) := by
  cases part with
  | named sort name =>
    show IsReady ((s.step sort.mark).read name.text)
    rw [hs.step_mark]
    exact (isOpen_compound.read_name name).isReady
  | bracketed content hcontent =>
    rw [SimpleSelector.text, (hs.read_bracketed hcontent).1]
    exact isOpen_gap.isReady
  | pseudo isElement name argument =>
    obtain ⟨s', hpass, hready⟩ := hs.passes_pseudo rfl hplain
    rwa [hpass.read]

/-- **The attribute may stand after a part that is no pseudo class or element.** -/
theorem IsReady.lastEnd_part (hs : IsReady s) {part : SimpleSelector}
    (hpseudo : part.isPseudo = false) (hclosed : part.isClosed = true) :
    s.lastEnd part.text = some part.text.length := by
  cases part with
  | named sort name =>
    have hread : s.read [sort.mark] = .compound := hs.step_mark sort
    rw [SimpleSelector.text, ← List.singleton_append]
    refine lastEnd_append_of_end ?_
    rw [hread]
    exact isOpen_compound.lastEnd_name hclosed
  | bracketed content hcontent => exact (hs.read_bracketed hcontent).2
  | pseudo => cases hpseudo

theorem IsReady.read_parts (hs : IsReady s) {parts : List SimpleSelector}
    (hplain : ∀ part ∈ parts, part.isPlain = true) :
    IsReady (s.read (parts.flatMap SimpleSelector.text)) := by
  induction parts generalizing s with
  | nil => exact hs
  | cons part parts ih =>
    rw [List.forall_mem_cons] at hplain
    rw [List.flatMap_cons, read_append]
    exact ih (hs.read_part hplain.1) hplain.2

theorem IsReady.lastEnd_pseudos (hs : IsReady s) {parts : List SimpleSelector}
    (hpseudo : ∀ part ∈ parts, part.isPseudo = true)
    (hplain : ∀ part ∈ parts, part.isPlain = true) :
    s.lastEnd (parts.flatMap SimpleSelector.text) = none := by
  induction parts generalizing s with
  | nil => rfl
  | cons part parts ih =>
    rw [List.forall_mem_cons] at hpseudo hplain
    obtain ⟨s', hpass, hready⟩ := hs.passes_pseudo hpseudo.1 hplain.1
    rw [List.flatMap_cons, lastEnd_append, hpass.read, hpass.lastEnd,
      ih hready hpseudo.2 hplain.2]
    rfl

/-! ### Compounds -/

section Compounds

variable {compound : CompoundSelector}

theorem IsOpen.read_type (hs : IsOpen s) (compound : CompoundSelector) :
    IsOpen (s.read compound.typeText) := by
  rw [CompoundSelector.typeText]
  cases compound.type with
  | none => exact hs
  | some name => exact hs.read_name name

theorem IsOpen.read_compound (hs : IsOpen s) (hplain : compound.isPlain = true) :
    IsReady (s.read compound.text) := by
  rw [CompoundSelector.text, read_append]
  exact (hs.read_type compound).isReady.read_parts (List.all_eq_true.1 hplain)

/-- The attribute may stand in front of the trailing pseudo classes and elements. -/
theorem IsOpen.lastEnd_kept (hs : IsOpen s) (hplain : compound.isPlain = true)
    (hclosed : compound.isClosed = true) (hanchored : compound.isAnchored = true) :
    s.lastEnd compound.kept = some compound.kept.length := by
  have htype := hs.read_type compound
  rw [CompoundSelector.kept]
  rw [CompoundSelector.isClosed] at hclosed
  rcases List.eq_nil_or_concat' compound.own with hown | ⟨init, part, hown⟩
  · rw [CompoundSelector.isAnchored, hown] at hanchored
    rw [hown] at hclosed
    obtain ⟨name, hname⟩ := Option.isSome_iff_exists.1 ((Bool.or_false _).symm.trans hanchored)
    have hname' : name.isClosed = true := by simpa [hname] using hclosed
    rw [hown, CompoundSelector.typeText, hname, List.flatMap_nil, List.append_nil]
    exact hs.lastEnd_name hname'
  · have hpart := CompoundSelector.isPseudo_of_own_eq hown
    have hinit : ∀ part ∈ init, part.isPlain = true := fun part hmem ↦
      List.all_eq_true.1 hplain part (compound.own_subset (by rw [hown]; simp [hmem]))
    have hpartClosed : part.isClosed = true := by simpa [hown] using hclosed
    rw [hown, List.flatMap_append, List.flatMap_singleton, ← List.append_assoc]
    refine lastEnd_append_of_end ?_
    rw [read_append]
    exact (htype.isReady.read_parts hinit).lastEnd_part hpart hpartClosed

/-- Nothing but the kept text decides where the attribute may stand. -/
theorem IsOpen.lastEnd_compound (hs : IsOpen s) (hplain : compound.isPlain = true) :
    s.lastEnd compound.text = s.lastEnd compound.kept := by
  have hparts := List.all_eq_true.1 hplain
  have hkept : IsReady (s.read compound.kept) := by
    rw [CompoundSelector.kept, read_append]
    exact (hs.read_type compound).isReady.read_parts fun part hmem ↦
      hparts part (compound.own_subset hmem)
  have htrailing : (s.read compound.kept).lastEnd compound.trailing = none :=
    hkept.lastEnd_pseudos (fun part ↦ List.mem_rtakeWhile_imp) fun part hmem ↦
      hparts part ((List.rtakeWhile_suffix _ _).subset hmem)
  rw [← compound.kept_append_trailing, lastEnd_append, htrailing]
  rfl

end Compounds

/-! ### Complex selectors -/

theorem IsReady.step_joining (hs : IsReady s) (h : isSpaceChar c || isCombinator c) :
    s.step c = start c := by
  have hjoining : ∀ c ∈ joiningChars, isIdentChar c = false ∧ c ≠ '(' :=
    forall_mem_of_all (by decide)
  obtain ⟨hident, hparenthesis⟩ := hjoining c (mem_joiningChars h)
  exact hs c hident hparenthesis

theorem IsReady.read_combinator (hs : IsReady s) (combinator : Combinator) :
    IsOpen (s.read combinator.text) := by
  obtain ⟨t, hne, hmem⟩ := combinator
  obtain ⟨c, t, rfl⟩ := List.exists_cons_of_ne_nil hne
  rw [List.forall_mem_cons] at hmem
  have hchars : ∀ c ∈ t, isSelectorNameChar c || (isSpaceChar c || isCombinator c) := fun c hc ↦ by
    rw [hmem.2 c hc, Bool.or_true]
  show IsOpen ((s.step c).read t)
  rw [hs.step_joining hmem.1]
  exact (isOpen_start (by rw [hmem.1, Bool.or_true])).read hchars

theorem IsReady.isEnd_gap (hs : IsReady s) : isEnd s gap = false := by
  cases s with
  | brackets q depth => exact absurd rfl (hs.ne_brackets q depth)
  | _ => rfl

/-- A combinator without form feeds has no place for the attribute. -/
theorem IsReady.lastEnd_combinator (hs : IsReady s) (h : ∀ c ∈ t, isCombinator c = true) :
    s.lastEnd t = none := by
  induction t generalizing s with
  | nil => rfl
  | cons c t ih =>
    rw [List.forall_mem_cons] at h
    have hstep : s.step c = gap := by
      rw [hs.step_joining (by rw [h.1, Bool.or_true]), start_of_isCombinator h.1]
    rw [SelectorState.lastEnd, hstep, ih isOpen_gap.isReady h.2, hs.isEnd_gap]
    rfl

theorem isReady_read_text {selector : ComplexSelector} (hplain : selector.isPlain = true) :
    IsReady (gap.read selector.text) := by
  induction selector with
  | compound last => exact isOpen_gap.read_compound hplain
  | combine left combinator last ih =>
    obtain ⟨hleft, hlast⟩ := (Bool.and_eq_true _ _).mp hplain
    rw [ComplexSelector.text, read_append, read_append]
    exact ((ih hleft).read_combinator combinator).read_compound hlast

/-- **The last place is in front of the attribute.** -/
theorem lastEnd_text {selector : ComplexSelector} (hplain : selector.isPlain = true)
    (hclosed : selector.isClosed = true) :
    (gap.lastEnd selector.text).getD 0 = selector.before.length := by
  induction selector with
  | compound last =>
    rw [ComplexSelector.text, ComplexSelector.before, isOpen_gap.lastEnd_compound hplain]
    by_cases hanchored : last.isAnchored = true
    · rw [isOpen_gap.lastEnd_kept hplain hclosed hanchored]
      rfl
    · rw [last.kept_eq_nil hanchored]
      rfl
  | combine left combinator last ih =>
    obtain ⟨hleft, hlast⟩ := (Bool.and_eq_true _ _).mp hplain
    have hready := isReady_read_text hleft
    have hopen := hready.read_combinator combinator
    rw [ComplexSelector.isClosed] at hclosed
    rw [ComplexSelector.text, ComplexSelector.before, lastEnd_append, lastEnd_append,
      hopen.lastEnd_compound hlast]
    split at hclosed
    · rename_i hanchored
      rw [if_pos hanchored, hopen.lastEnd_kept hlast hclosed hanchored]
      simp
    · rename_i hanchored
      obtain ⟨hspace, hleftClosed⟩ := (Bool.and_eq_true _ _).mp hclosed
      rw [if_neg hanchored, last.kept_eq_nil hanchored,
        hready.lastEnd_combinator (List.all_eq_true.1 hspace)]
      exact ih hleft hleftClosed

theorem injectAttribute_complex {selector : ComplexSelector} (hplain : selector.isPlain = true)
    (hclosed : selector.isClosed = true) (htrim : trim selector.text = selector.text)
    (attr : List Char) :
    injectAttribute selector.text attr =
      selector.before ++ attributeSelector attr ++ selector.after := by
  have hplace : (insertionPoint? selector.text).getD 0 = selector.before.length := by
    rw [insertionPoint?_eq (isReady_read_text hplain).ne_brackets, lastEnd_text hplain hclosed]
  unfold injectAttribute
  dsimp only
  rw [htrim, hplace, ← selector.before_append_after, List.take_left, List.drop_left]

/-- **The attribute comes after the last part of a complex selector that is no pseudo class or
element**: into the last compound, in front of its trailing pseudo classes and elements, if that
compound has a part of another kind or stands alone. -/
theorem scopeSelector?_complex (selector : ComplexSelector) (attr : String)
    (hfree : IsFormFree selector.text) (htrim : trim selector.text = selector.text)
    (hplain : selector.isPlain = true) (hclosed : selector.isClosed = true) :
    scopeSelector? (.ofList selector.text) attr =
        some (.ofList (selector.before ++ attributeSelector attr.toList ++ selector.after)) ∧
      (selector.last.isAnchored = true ∨ selector.front = [] →
        selector.before = selector.front ++ selector.last.kept ∧
          selector.after = selector.last.trailing) := by
  refine ⟨?_, ComplexSelector.before_eq⟩
  rw [scopeSelector?, String.toList_ofList, hfree.scopeSelectorChars?_eq,
    injectAttribute_complex hplain hclosed htrim]
  rfl

theorem isBalanced_title : IsBalanced .parenthesis "[title=\")\"]".toList := by
  have hfront : IsBalanced .parenthesis "[title=".toList := isBalanced_of_forall (forall_mem_of_all (by decide))
  have hback : IsBalanced .parenthesis "]".toList := isBalanced_of_forall (forall_mem_of_all (by decide))
  have hbody : IsStringBody '"' ")".toList := .char (by decide) (by decide) .nil
  exact hfront.append (.string (.inl rfl) hbody hback)

/-- `ul > li.item:not([title=")"])::before` -/
def listItem : ComplexSelector :=
  .combine
    (.compound ⟨some (.ofString "ul" (by decide)), [], .inl rfl⟩)
    ⟨" > ".toList, by decide, forall_mem_of_all (by decide)⟩
    ⟨some (.ofString "li" (by decide)),
      [.named .className (.ofString "item" (by decide)),
        .pseudo false (.ofString "not" (by decide)) (some ⟨_, isBalanced_title⟩),
        .pseudo true (.ofString "before" (by decide)) none], .inl rfl⟩

theorem scopeSelector?_complex_listItem :
    (IsFormFree listItem.text ∧ trim listItem.text = listItem.text ∧ listItem.isPlain = true ∧
        listItem.isClosed = true) ∧
      scopeSelector? "ul > li.item:not([title=\")\"])::before" "x" =
        some "ul > li.item[x]:not([title=\")\"])::before" := by
  have hfree : IsFormFree listItem.text := by decide +kernel
  have htrim : trim listItem.text = listItem.text := by decide +kernel
  have hplain : listItem.isPlain = true := by decide +kernel
  have hclosed : listItem.isClosed = true := by decide +kernel
  exact ⟨⟨hfree, htrim, hplain, hclosed⟩,
    (scopeSelector?_complex listItem "x" hfree htrim hplain hclosed).1⟩

-- the last compound has no place, though the selector `:hover` would get its attribute in front
example : scopeSelector? ".a :hover" "x" = some ".a[x] :hover" := by
  decide +kernel

end AppletBundle.Style
