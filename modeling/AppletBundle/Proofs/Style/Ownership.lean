import AppletBundle.Proofs.Style.Insertion
import Mathlib.Data.List.Forall2

/-!
# Scoped selectors belong to their owner

Every selector of a scoped list carries the attribute of its owner, or the one for slots, if the list
uses no global form (`scopeSelectorList?_isMarked`). This is about the list as it will be read: the
scoped text is split once more, and what an escape has unwrapped may fall apart there.

So each selector has to stay one part. A deep or slotted form loses its parentheses, and a comma that
they protected then ends a selector: `.foo :deep(.a, .b)` becomes `.foo[…] .a, .b`, whose second
selector matches everywhere. The condition is that a form stands outside strings and that its
argument is one selector, with its strings closed (`PseudoMatch.IsSingle`). It is a condition on
forms with an argument only; nesting, strings and brackets are otherwise free.

The scan never gets less deep by unwrapping (`unwrap_spec`), so nothing else can fall apart.
-/

namespace AppletBundle.Style

open AppletBundle.Text

/-! ### Forms as they are read -/

theorem closeGroup?_eq {opener closer : Char} {q : Quoting} {depth : ℕ} {t inner after : List Char}
    (h : closeGroup? opener closer q depth t = some (inner, after)) :
    t = inner ++ closer :: after := by
  induction t generalizing q depth inner with
  | nil => cases h
  | cons c t ih =>
    have hcons : ∀ q' depth', (closeGroup? opener closer q' depth' t).map (fun r ↦ (c :: r.1, r.2)) =
        some (inner, after) → c :: t = inner ++ closer :: after := by
      intro q' depth' hmap
      obtain ⟨⟨inner', after'⟩, hrest, heq⟩ := Option.map_eq_some_iff.1 hmap
      obtain ⟨rfl, rfl⟩ := Prod.ext_iff.1 heq
      exact congrArg (c :: ·) (ih hrest)
    unfold closeGroup? at h
    split at h
    · split at h
      · exact hcons _ _ h
      · split at h
        · rename_i hc
          split at h
          · obtain ⟨rfl, rfl⟩ := Prod.ext_iff.1 (Option.some.inj h)
            exact congrArg (· :: t) hc
          · exact hcons _ _ h
        · exact hcons _ _ h
    · exact hcons _ _ h

/-- An argument stands in parentheses, or nothing follows it. -/
theorem readArgument_present {t text after : List Char}
    (h : readArgument t = (.present text, after)) :
    t = '(' :: text ++ ')' :: after ∨ after = [] := by
  unfold readArgument at h
  split at h
  · split at h
    · rename_i hgroup
      obtain ⟨rfl, rfl⟩ : _ = text ∧ _ = after := by simpa using h
      exact Or.inl (congrArg ('(' :: ·) (closeGroup?_eq hgroup))
    · refine Or.inr ?_
      split at h <;> exact (congrArg Prod.snd h).symm
  · cases congrArg Prod.fst h

theorem readArgument_absent {t after : List Char} (h : readArgument t = (.absent, after)) :
    t = after := by
  unfold readArgument at h
  split at h
  · split at h
    · cases congrArg Prod.fst h
    · split at h
      · split at h <;> cases congrArg Prod.fst h
      · cases congrArg Prod.fst h
  · exact congrArg Prod.snd h

theorem findName_spec {name : List Char} {previous : Option Char} {t : List Char} {m : PseudoMatch}
    (h : findName name previous t = some m) :
    ∃ rest, t = m.before ++ name ++ rest ∧ readArgument rest = (m.argument, m.after) := by
  induction t generalizing previous m with
  | nil => cases h
  | cons c t ih =>
    unfold findName at h
    dsimp only at h
    split at h
    · rename_i hfound
      rw [Bool.and_eq_true, Bool.and_eq_true, List.isPrefixOf_iff_prefix] at hfound
      obtain ⟨rest, hrest⟩ := hfound.1.1
      obtain rfl := Option.some.inj h
      refine ⟨rest, hrest.symm, ?_⟩
      rw [← hrest, List.drop_left]
    · obtain ⟨m', hm', rfl⟩ := Option.map_eq_some_iff.1 h
      obtain ⟨rest, ht, hrest⟩ := ih hm'
      exact ⟨rest, congrArg (c :: ·) ht, hrest⟩

theorem findPseudo_spec {names : List String} {t : List Char} {m : PseudoMatch}
    (h : findPseudo names t = some m) :
    ∃ name ∈ names, ∃ rest, t = m.before ++ name.toList ++ rest ∧
      readArgument rest = (m.argument, m.after) := by
  obtain ⟨name, hname, hfind⟩ := List.exists_of_findSome?_eq_some h
  obtain ⟨rest, ht, hrest⟩ := findName_spec hfind
  exact ⟨name, hname, rest, ht, hrest⟩

theorem splitAtFirst_eq {pattern t left right : List Char}
    (h : splitAtFirst pattern t = some (left, right)) : t = left ++ pattern ++ right := by
  induction t generalizing left with
  | nil =>
    unfold splitAtFirst at h
    split at h
    · rename_i hempty
      obtain ⟨rfl, rfl⟩ := Prod.ext_iff.1 (Option.some.inj h)
      rw [List.isEmpty_iff.1 hempty]
      rfl
    · cases h
  | cons c t ih =>
    unfold splitAtFirst at h
    split at h
    · rename_i hfound
      obtain ⟨rest, hrest⟩ := List.isPrefixOf_iff_prefix.1 hfound
      obtain ⟨rfl, rfl⟩ := Prod.ext_iff.1 (Option.some.inj h)
      rw [← hrest, List.drop_left]
      rfl
    · obtain ⟨⟨left', right'⟩, hsplit, heq⟩ := Option.map_eq_some_iff.1 h
      obtain ⟨rfl, rfl⟩ := Prod.ext_iff.1 heq
      exact congrArg (c :: ·) (ih hsplit)

/-! ### The condition -/

instance decidableIsWhole (separator : Char) :
    (s : ScanState) → (t : List Char) → Decidable (IsWhole separator s t)
  | _, [] => isTrue trivial
  | s, c :: t =>
    have := decidableIsWhole separator (scanStep s c) t
    inferInstanceAs (Decidable (_ ∧ _))

/-- A form after `before` stands outside strings, and its argument, without the parentheses, is one
selector there and closes its strings. -/
structure IsSingle (before text : List Char) : Prop where
  outside : (scan .start before).1 = .outside
  isWhole : IsWhole ',' (scan .start before) text
  closed : (scan (scan .start before) text).1 = .outside

instance (before text : List Char) : Decidable (IsSingle before text) :=
  decidable_of_iff
    ((scan .start before).1 = .outside ∧ IsWhole ',' (scan .start before) text ∧
      (scan (scan .start before) text).1 = .outside)
    ⟨fun h ↦ ⟨h.1, h.2.1, h.2.2⟩, fun h ↦ ⟨h.outside, h.isWhole, h.closed⟩⟩

/-- A form has one selector as its argument, or no argument. -/
def PseudoMatch.UnwrapsSingle (m : PseudoMatch) : Prop :=
  match m.argument with
  | .absent => True
  | .broken => False
  | .present text => IsSingle m.before text

/-- The form whose argument replaces it in a scoped selector. The combinators that pierce take the
place of every form. -/
def unwrapped? (selector : List Char) : Option PseudoMatch :=
  if (splitAtFirst ">>>".toList selector).isSome || (splitAtFirst "/deep/".toList selector).isSome then
    none
  else
    (findPseudo ["::v-deep", ":deep"] selector).or (findPseudo ["::v-slotted", ":slotted"] selector)

instance (m : PseudoMatch) : Decidable m.UnwrapsSingle :=
  match m with
  | ⟨_, .absent, _⟩ => isTrue trivial
  | ⟨_, .broken, _⟩ => isFalse id
  | ⟨before, .present text, _⟩ => inferInstanceAs (Decidable (IsSingle before text))

/-- What a selector unwraps is one selector. -/
def UnwrapsSingle (selector : List Char) : Prop :=
  ∀ m ∈ unwrapped? selector, m.UnwrapsSingle

instance (selector : List Char) : Decidable (UnwrapsSingle selector) :=
  inferInstanceAs (Decidable (∀ m ∈ unwrapped? selector, m.UnwrapsSingle))

/-! ### Scoped forms -/

/-- A text carries the attribute of its owner, or the one for slots. -/
def IsMarked (attr t : List Char) : Prop :=
  attributeSelector attr <:+: t ∨ attributeSelector (attr ++ ['-', 's']) <:+: t

theorem IsMarked.of_infix {attr t u : List Char} (h : IsMarked attr t) (ht : t <:+: u) :
    IsMarked attr u :=
  h.imp (·.trans ht) (·.trans ht)

/-- What keeps a scoped selector apart from the others of its list: it is one part, it ends outside
strings if the selector does, and it is marked. -/
structure IsScopedForm (attr selector form : List Char) : Prop where
  isWhole : IsWhole ',' .start form
  outside : (scan .start selector).1 = .outside → (scan .start form).1 = .outside
  isMarked : IsMarked attr form

theorem ScanState.outside_iff_of_settle_eq {s s' : ScanState} (h : s.settle = s'.settle) :
    s.1 = .outside ↔ s'.1 = .outside := by
  rw [← Quoting.settle_eq_outside_iff, ← Quoting.settle_eq_outside_iff (q := s'.1)]
  exact Eq.congr_left (congrArg Prod.fst h)

theorem ScanState.eq_of_settle_eq {s s' : ScanState} (h : s.settle = s'.settle)
    (hs' : s'.1 = .outside) : s = s' := by
  have hs : s.1 = .outside := (ScanState.outside_iff_of_settle_eq h).2 hs'
  have hdepth : s.settle.2 = s'.settle.2 := congrArg Prod.snd h
  exact Prod.ext (hs.trans hs'.symm) hdepth

variable {attr : List Char}

theorem isScopedForm_injectAttribute (hattr : IsPlain attr) {selector : List Char}
    (hwhole : IsWhole ',' .start selector) :
    IsScopedForm attr selector (injectAttribute selector attr) where
  isWhole := isWhole_injectAttribute rfl hattr hwhole
  outside :=
    (ScanState.outside_iff_of_settle_eq (settle_scan_injectAttribute rfl hattr selector)).2
  isMarked := Or.inl (attributeSelector_infix_injectAttribute selector attr)

theorem joinDeep_eq (left right attr : List Char) :
    joinDeep left right attr = injectAttribute (trimEnd left) attr ++ [' '] ++ right := by
  have hempty : injectAttribute [] attr = attributeSelector attr := List.append_nil _
  unfold joinDeep
  rw [List.append_assoc]
  dsimp only
  split
  · rename_i hleft
    rw [List.isEmpty_iff.1 hleft, hempty]
    rfl
  · rfl

/-- The scoped left side of a deep form. -/
theorem scan_scopedLeft (hattr : IsPlain attr) (left : List Char) :
    scan .start (injectAttribute (trimEnd left) attr ++ [' ']) = (scan .start left).settle := by
  have hspace : IsPlain [' '] := by decide
  rw [scan_append, scan_plain (isProper_scan_start _) hspace (List.cons_ne_nil _ _),
    settle_scan_injectAttribute rfl hattr, settle_scan_trimEnd (s := .start) trivial]

theorem isWhole_scopedLeft (hattr : IsPlain attr) {left : List Char}
    (hleft : IsWhole ',' .start left) :
    IsWhole ',' .start (injectAttribute (trimEnd left) attr ++ [' ']) := by
  have hspace : IsPlain [' '] := by decide
  have htrimmed := isWhole_trimEnd hleft
  have hinjected := isWhole_injectAttribute rfl hattr htrimmed
  rw [isWhole_append]
  exact ⟨hinjected, hspace.isWhole⟩

theorem isMarked_joinDeep (left right attr : List Char) :
    IsMarked attr (joinDeep left right attr) := by
  refine Or.inl ((attributeSelector_infix_injectAttribute (trimEnd left) attr).trans ?_)
  rw [joinDeep_eq, List.append_assoc]
  exact (List.prefix_append _ _).isInfix

/-- A combinator that pierces, or the bare name of a form, gives way to a space. -/
theorem isScopedForm_joinDeep (hattr : IsPlain attr) {left between right : List Char}
    (hbetween : IsPlain between) (hne : between ≠ [])
    (hwhole : IsWhole ',' .start (left ++ between ++ right)) :
    IsScopedForm attr (left ++ between ++ right) (joinDeep left right attr) := by
  have hscan : scan .start (left ++ between) =
      scan .start (injectAttribute (trimEnd left) attr ++ [' ']) := by
    rw [scan_scopedLeft hattr, scan_append, scan_plain (isProper_scan_start _) hbetween hne]
  obtain ⟨hfront, hright⟩ := isWhole_append.1 hwhole
  have hleft := (isWhole_append.1 hfront).1
  have hscoped := isWhole_scopedLeft hattr hleft
  refine ⟨?_, fun h ↦ ?_, isMarked_joinDeep left right attr⟩
  · rw [joinDeep_eq, isWhole_append, ← hscan]
    exact ⟨hscoped, hright⟩
  · rwa [joinDeep_eq, scan_append, ← hscan, ← scan_append]

/-! ### Unwrapping -/

/-- **Unwrapping never makes the scan less deep.** Without its parentheses an argument leaves the
scan, before the text after it, at least as deep as the whole form did. -/
theorem unwrap_spec {before name rest text after : List Char} (hname : IsPlain name)
    (hargument : readArgument rest = (.present text, after))
    (hwhole : IsWhole ',' .start (before ++ name ++ rest))
    (hsingle : IsSingle before text) :
    IsWhole ',' (scan (scan .start before) text) after ∧
      ((scan .start (before ++ name ++ rest)).1 = .outside →
        (scan (scan (scan .start before) text) after).1 = .outside) := by
  obtain ⟨hbefore, -, htext⟩ := hsingle
  rcases readArgument_present hargument with rfl | rfl
  · have hform : scan .start (before ++ name ++ '(' :: text ++ [')']) =
        scanStep (scan (scanStep (scan .start before) '(') text) ')' := by
      rw [scan_append, scan_append, scan_append, scan_plain_outside hbefore hname]
      rfl
    have hopen : DeepBy 1 (scanStep (scan .start before) '(') (scan .start before) := by
      rw [scanStep, DeepBy, hbefore]
      exact ⟨rfl, Nat.le_refl _⟩
    have hinner := hopen.scan text
    have hdeep : DeepBy 0 (scan .start (before ++ name ++ '(' :: text ++ [')']))
        (scan (scan .start before) text) := by
      have hquoting := hinner.1.trans htext
      have hdepth : (scan (scanStep (scan .start before) '(') text).2 - 1 ≤
          (scan (scan .start before) text).2 := by
        have hle := hinner.2
        omega
      rw [hform, scanStep, DeepBy, hquoting, htext]
      exact ⟨rfl, hdepth⟩
    have hsplit : before ++ name ++ ('(' :: text ++ ')' :: after) =
        before ++ name ++ '(' :: text ++ [')'] ++ after := by simp
    rw [hsplit] at hwhole ⊢
    rw [scan_append]
    have hafter := hdeep.scan after
    exact ⟨hdeep.isWhole (isWhole_append.1 hwhole).2, fun h ↦ hafter.1.symm.trans h⟩
  · exact ⟨trivial, fun _ ↦ htext⟩

theorem scan_trim_argument {s : ScanState} {text : List Char} (hs : s.1 = .outside)
    (htext : (scan s text).1 = .outside) : scan s (trim text) = scan s text :=
  ScanState.eq_of_settle_eq (settle_scan_trim hs text) htext

/-- A deep form with an argument. -/
theorem isScopedForm_deep (hattr : IsPlain attr) {before name rest text after : List Char}
    (hname : IsPlain name) (hargument : readArgument rest = (.present text, after))
    (hwhole : IsWhole ',' .start (before ++ name ++ rest))
    (hsingle : IsSingle before text) :
    IsScopedForm attr (before ++ name ++ rest) (joinDeep before (trim text ++ after) attr) := by
  obtain ⟨hafter, hend⟩ := unwrap_spec hname hargument hwhole hsingle
  obtain ⟨hbefore, htext, hclosed⟩ := hsingle
  have hleft : IsWhole ',' .start before :=
    (isWhole_append.1 (isWhole_append.1 hwhole).1).1
  have hscan : scan .start (injectAttribute (trimEnd before) attr ++ [' ']) =
      scan .start before :=
    (scan_scopedLeft hattr before).trans <|
      ScanState.settle_eq_self fun quote ↦ by rw [hbefore]; nofun
  have htrim := scan_trim_argument hbefore hclosed
  have hscoped := isWhole_scopedLeft hattr hleft
  have hargument' := isWhole_trim hbefore htext
  refine ⟨?_, fun h ↦ ?_, isMarked_joinDeep before _ attr⟩
  · rw [joinDeep_eq, isWhole_append]
    refine ⟨hscoped, ?_⟩
    rw [hscan, isWhole_append, htrim]
    exact ⟨hargument', hafter⟩
  · rw [joinDeep_eq, scan_append, scan_append, hscan, htrim]
    exact hend h

/-- A slotted form with an argument. -/
theorem isScopedForm_slotted (hattr : IsPlain attr) {before name rest text after : List Char}
    (hname : IsPlain name) (hargument : readArgument rest = (.present text, after))
    (hwhole : IsWhole ',' .start (before ++ name ++ rest))
    (hsingle : IsSingle before text) :
    IsScopedForm attr (before ++ name ++ rest)
      (before ++ injectAttribute (trim text) (attr ++ ['-', 's']) ++ after) := by
  obtain ⟨hafter, hend⟩ := unwrap_spec hname hargument hwhole hsingle
  obtain ⟨hbefore, htext, hclosed⟩ := hsingle
  have hslot : IsPlain (attr ++ ['-', 's']) := by
    intro c hc
    rcases List.mem_append.1 hc with hc | hc
    · exact hattr c hc
    · exact (by decide : IsPlain ['-', 's']) c hc
  have hleft : IsWhole ',' .start before :=
    (isWhole_append.1 (isWhole_append.1 hwhole).1).1
  have hinject : scan (scan .start before) (injectAttribute (trim text) (attr ++ ['-', 's'])) =
      scan (scan .start before) text := by
    refine ScanState.eq_of_settle_eq ?_ hclosed
    rw [settle_scan_injectAttribute hbefore hslot, settle_scan_trim hbefore]
  have htrimmed := isWhole_trim hbefore htext
  have hinjected := isWhole_injectAttribute hbefore hslot htrimmed
  refine ⟨?_, fun h ↦ ?_, Or.inr ?_⟩
  · rw [isWhole_append, isWhole_append, scan_append, hinject]
    exact ⟨⟨hleft, hinjected⟩, hafter⟩
  · rw [scan_append, scan_append, hinject]
    exact hend h
  · obtain ⟨front, back, h⟩ :=
      attributeSelector_infix_injectAttribute (trim text) (attr ++ ['-', 's'])
    exact ⟨before ++ front, back ++ after, by rw [← h]; simp⟩

/-! ### Selectors -/

/-- A combinator that pierces, or the bare name of a form, with what follows it trimmed. -/
theorem isScopedForm_pierced (hattr : IsPlain attr) {selector left between right : List Char}
    (hselector : selector = left ++ between ++ right) (hbetween : IsPlain between)
    (hne : between ≠ []) (hwhole : IsWhole ',' .start selector) :
    IsScopedForm attr selector (joinDeep left (trimStart right) attr) := by
  obtain ⟨blanks, hblanks, hright⟩ := exists_blanks_trimStart right
  have hparts : selector = left ++ (between ++ blanks) ++ trimStart right := by
    rw [hselector]
    conv_lhs => rw [hright]
    simp
  have hplain : IsPlain (between ++ blanks) := fun c hc ↦
    (List.mem_append.1 hc).elim (hbetween c) (isPlain_of_isBlank hblanks c)
  rw [hparts] at hwhole ⊢
  exact isScopedForm_joinDeep hattr hplain (List.append_ne_nil_of_left_ne_nil hne _) hwhole

theorem exists_scopeSlotted?_eq (hattr : IsPlain attr) {selector : List Char}
    (hwhole : IsWhole ',' .start selector)
    (hsingle : ∀ m, findPseudo ["::v-slotted", ":slotted"] selector = some m → m.UnwrapsSingle) :
    ∃ form, scopeSlotted? selector attr = some form ∧ IsScopedForm attr selector form := by
  have hplain : ∀ name ∈ ["::v-slotted", ":slotted"], IsPlain name.toList := by decide
  unfold scopeSlotted?
  rcases hfind : findPseudo ["::v-slotted", ":slotted"] selector with - | ⟨before, argument, after⟩
  · exact ⟨_, rfl, isScopedForm_injectAttribute hattr hwhole⟩
  · obtain ⟨name, hname, rest, hselector, hargument⟩ := findPseudo_spec hfind
    have hunwraps := hsingle _ hfind
    cases argument with
    | absent => exact ⟨_, rfl, isScopedForm_injectAttribute hattr hwhole⟩
    | broken => exact hunwraps.elim
    | present text =>
      subst hselector
      exact ⟨_, rfl, isScopedForm_slotted hattr (hplain name hname) hargument hwhole hunwraps⟩

theorem exists_scopeDeepForm_eq (hattr : IsPlain attr) {selector : List Char}
    (hwhole : IsWhole ',' .start selector) {m : PseudoMatch}
    (hfind : findPseudo ["::v-deep", ":deep"] selector = some m) (hsingle : m.UnwrapsSingle)
    (hpierce : splitAtFirst ">>>".toList selector = none)
    (hslash : splitAtFirst "/deep/".toList selector = none) :
    ∃ form, scopeDeep? selector attr = some form ∧ IsScopedForm attr selector form := by
  have hplain : ∀ name ∈ ["::v-deep", ":deep"], IsPlain name.toList ∧ name.toList ≠ [] := by decide
  obtain ⟨name, hname, rest, hselector, hargument⟩ := findPseudo_spec hfind
  obtain ⟨hnamePlain, hnameNe⟩ := hplain name hname
  obtain ⟨before, argument, after⟩ := m
  unfold scopeDeep?
  rw [hpierce, hslash, hfind]
  cases argument with
  | absent =>
    refine ⟨_, rfl, isScopedForm_pierced hattr ?_ hnamePlain hnameNe hwhole⟩
    rw [hselector, readArgument_absent hargument]
  | broken => exact hsingle.elim
  | present text =>
    subst hselector
    exact ⟨_, rfl, isScopedForm_deep hattr hnamePlain hargument hwhole hsingle⟩

/-- **A selector without a global form has a scoped form**, if it unwraps one selector at most. -/
theorem exists_scopeDeep?_eq (hattr : IsPlain attr) {selector : List Char}
    (hwhole : IsWhole ',' .start selector) (hsingle : UnwrapsSingle selector) :
    ∃ form, scopeDeep? selector attr = some form ∧ IsScopedForm attr selector form := by
  rcases hpierce : splitAtFirst ">>>".toList selector with - | ⟨left, right⟩
  · rcases hslash : splitAtFirst "/deep/".toList selector with - | ⟨left, right⟩
    · unfold UnwrapsSingle unwrapped? at hsingle
      rw [hpierce, hslash] at hsingle
      rcases hdeep : findPseudo ["::v-deep", ":deep"] selector with - | m
      · have hslotted : scopeDeep? selector attr = scopeSlotted? selector attr := by
          unfold scopeDeep?
          rw [hpierce, hslash, hdeep]
        rw [hslotted]
        refine exists_scopeSlotted?_eq hattr hwhole fun m hm ↦ ?_
        rw [hdeep, hm] at hsingle
        exact hsingle m rfl
      · rw [hdeep] at hsingle
        exact exists_scopeDeepForm_eq hattr hwhole hdeep (hsingle m rfl) hpierce hslash
    · have hform := isScopedForm_pierced hattr (splitAtFirst_eq hslash) (by decide) (by decide) hwhole
      refine ⟨_, ?_, hform⟩
      unfold scopeDeep?
      rw [hpierce, hslash]
  · have hform := isScopedForm_pierced hattr (splitAtFirst_eq hpierce) (by decide) (by decide) hwhole
    refine ⟨_, ?_, hform⟩
    unfold scopeDeep?
    rw [hpierce]

/-! ### Lists -/

/-- A part of a list that asks for no global form and unwraps one selector at most. -/
structure IsLocal (part : List Char) : Prop where
  notGlobal : ∀ name ∈ ["::v-global", ":global"], ¬ name.toList <:+: part
  unwrapsSingle : UnwrapsSingle (trim part)

theorem scopeSelectorChars?_eq {selector : List Char} (attr : List Char)
    (hglobal : ∀ name ∈ ["::v-global", ":global"], ¬ name.toList <:+: selector) :
    scopeSelectorChars? selector attr = scopeDeep? selector attr := by
  unfold scopeSelectorChars?
  rcases hfind : findPseudo ["::v-global", ":global"] selector with - | m
  · rfl
  · obtain ⟨name, hname, rest, hselector, -⟩ := findPseudo_spec hfind
    exact absurd ⟨m.before, rest, hselector.symm⟩ (hglobal name hname)

/-- The selector of a part is what trimming leaves; the white space in front of it is kept. -/
theorem scopeListItem?_eq {part blanks : List Char} (hpart : part = blanks ++ trimStart part)
    (attr : List Char) :
    scopeListItem? attr part = (scopeSelectorChars? (trim part) attr).map (blanks ++ ·) := by
  have hleading : part.take (part.length - (trimStart part).length) = blanks := by
    have hlength := congrArg List.length hpart
    rw [List.length_append] at hlength
    rw [show part.length - (trimStart part).length = blanks.length by omega]
    conv_lhs => rw [hpart]
    exact List.take_left
  show (scopeSelectorChars? (trim part) attr).map
    (part.take (part.length - (trimStart part).length) ++ ·) = _
  rw [hleading]

/-- **A part of a list has a scoped form.** -/
theorem exists_scopeListItem?_eq (hattr : IsPlain attr) {part : List Char}
    (hwhole : IsWhole ',' .start part) (hlocal : IsLocal part) :
    ∃ item, scopeListItem? attr part = some item ∧ IsScopedForm attr part item := by
  have htrim : IsWhole ',' .start (trim part) := isWhole_trim rfl hwhole
  have hglobal : ∀ name ∈ ["::v-global", ":global"], ¬ name.toList <:+: trim part :=
    fun name hname h ↦ hlocal.notGlobal name hname (h.trans (trim_isInfix part))
  obtain ⟨form, hform, hscoped⟩ := exists_scopeDeep?_eq hattr htrim hlocal.unwrapsSingle
  obtain ⟨blanks, hblanks, hpart⟩ := exists_blanks_trimStart part
  have hplain := isPlain_of_isBlank hblanks
  have hscan : scan .start blanks = .start := scan_plain_outside rfl hplain
  have hitem : scopeListItem? attr part = some (blanks ++ form) := by
    rw [scopeListItem?_eq hpart, scopeSelectorChars?_eq attr hglobal, hform]
    rfl
  refine ⟨_, hitem, ?_, fun h ↦ ?_, hscoped.isMarked.of_infix (List.suffix_append _ _).isInfix⟩
  · rw [isWhole_append, hscan]
    exact ⟨hplain.isWhole, hscoped.isWhole⟩
  · rw [scan_append, hscan]
    have hiff := ScanState.outside_iff_of_settle_eq (settle_scan_trim (s := .start) rfl part)
    exact hscoped.outside (hiff.2 h)

theorem exists_mapM_eq {α β : Type} {f : α → Option β} {R : α → β → Prop} {xs : List α}
    (h : ∀ x ∈ xs, ∃ y, f x = some y ∧ R x y) :
    ∃ ys, xs.mapM f = some ys ∧ List.Forall₂ R xs ys := by
  induction xs with
  | nil => exact ⟨[], rfl, .nil⟩
  | cons x xs ih =>
    rw [List.forall_mem_cons] at h
    obtain ⟨y, hy, hR⟩ := h.1
    obtain ⟨ys, hys, hforall⟩ := ih h.2
    exact ⟨y :: ys, by simp [List.mapM_cons, hy, hys], .cons hR hforall⟩

theorem exists_of_mem_of_forall₂ {α β : Type} {R : α → β → Prop} {xs : List α} {ys : List β}
    (h : List.Forall₂ R xs ys) : ∀ y ∈ ys, ∃ x ∈ xs, R x y := by
  induction h with
  | nil => exact fun y hy ↦ absurd hy List.not_mem_nil
  | cons hR _ ih =>
    refine List.forall_mem_cons.2 ⟨⟨_, List.mem_cons_self, hR⟩, fun y hy ↦ ?_⟩
    obtain ⟨x, hx, hxy⟩ := ih y hy
    exact ⟨x, List.mem_cons_of_mem _ hx, hxy⟩

/-- **The scoped forms of the parts of a list stay apart.** Whatever the split of the joined forms
makes of them, each of its parts contains a whole one. -/
theorem isMarked_of_mem_split {parts items : List (List Char)} (hparts : Parts ',' .start parts)
    (hforms : List.Forall₂ (IsScopedForm attr) parts items) :
    ∀ selector ∈ splitTopLevel ',' .outside 0 ([','].intercalate items),
      IsMarked attr selector := by
  intro selector hselector
  have hne : items ≠ [] := by
    rintro rfl
    cases hforms
    exact hparts
  have hwhole : ∀ item ∈ items, ∀ depth, IsWhole ',' (.outside, depth) item := by
    intro item hitem depth
    obtain ⟨part, -, hform⟩ := exists_of_mem_of_forall₂ hforms item hitem
    exact (deepBy_start depth).isWhole hform.isWhole
  have houtside : ∀ item ∈ items.dropLast, ∀ depth, (scan (.outside, depth) item).1 = .outside := by
    intro item hitem depth
    have hfront : List.Forall₂ (IsScopedForm attr) parts.dropLast items.dropLast := by
      rw [List.dropLast_eq_take, List.dropLast_eq_take, hforms.length_eq]
      exact List.forall₂_take _ hforms
    obtain ⟨part, hpart, hform⟩ := exists_of_mem_of_forall₂ hfront item hitem
    have hstart : (scan .start item).1 = .outside :=
      hform.outside (by rw [hparts.scan_eq_start part hpart]; rfl)
    exact ((deepBy_start depth).scan item).1.symm.trans hstart
  obtain ⟨item, hitem, hinfix⟩ := exists_infix_of_mem_splitTopLevel hne hwhole houtside hselector
  obtain ⟨part, -, hform⟩ := exists_of_mem_of_forall₂ hforms item hitem
  exact hform.isMarked.of_infix hinfix

/-- **Every selector of a scoped list belongs to its owner.** A list that uses no global form, and
none of whose forms unwraps more than one selector, has a scoped form; each selector that this text
holds, split once more, carries the attribute or the one for slots. -/
theorem scopeSelectorList?_isMarked {selectors owner : String}
    (howner : ∀ c ∈ owner.toList, isIdentChar c)
    (hglobal : ∀ name ∈ ["::v-global", ":global"], ¬ name.toList <:+: selectors.toList)
    (hsingle : ∀ part ∈ splitTopLevel ',' .outside 0 selectors.toList,
      UnwrapsSingle (trim part)) :
    ∃ form, scopeSelectorList? selectors owner = some form ∧
      ∀ selector ∈ splitTopLevel ',' .outside 0 form.toList,
        IsMarked owner.toList selector := by
  have hattr := isPlain_of_isIdentChar howner
  have hparts := parts_splitTopLevel ',' .start selectors.toList
  have hitems : ∀ part ∈ splitTopLevel ',' .outside 0 selectors.toList,
      ∃ item, scopeListItem? owner.toList part = some item ∧
        IsScopedForm owner.toList part item := by
    intro part hpart
    have hinfix : part <:+: selectors.toList := infix_of_mem_splitTopLevel (s := .start) hpart
    refine exists_scopeListItem?_eq hattr (hparts.isWhole part hpart) ⟨?_, hsingle part hpart⟩
    exact fun name hname h ↦ hglobal name hname (h.trans hinfix)
  obtain ⟨items, hmap, hforms⟩ := exists_mapM_eq hitems
  refine ⟨.ofList ([','].intercalate items), ?_, ?_⟩
  · rw [scopeSelectorList?, scopeSelectorListChars?, hmap]
    rfl
  · rw [String.toList_ofList]
    exact isMarked_of_mem_split hparts hforms

theorem scopeSelectorList?_isMarked_card :
    let selectors := ":is(h1, .a) > b::after, .c :deep(:not(p, q)), :slotted([x=\",\"])"
    let form := ":is(h1, .a) > b[data-p-1f]::after, .c[data-p-1f] :not(p, q), [x=\",\"][data-p-1f-s]"
    (∀ c ∈ "data-p-1f".toList, isIdentChar c) ∧
      (∀ name ∈ ["::v-global", ":global"], ¬ name.toList <:+: selectors.toList) ∧
      (∀ part ∈ splitTopLevel ',' .outside 0 selectors.toList, UnwrapsSingle (trim part)) ∧
      scopeSelectorList? selectors "data-p-1f" = some form ∧
      ∀ selector ∈ splitTopLevel ',' .outside 0 form.toList,
        IsMarked "data-p-1f".toList selector := by
  intro selectors form
  have howner : ∀ c ∈ "data-p-1f".toList, isIdentChar c := List.all_eq_true.1 (by decide +kernel)
  have hglobal : ∀ name ∈ ["::v-global", ":global"], ¬ name.toList <:+: selectors.toList := by
    decide +kernel
  have hsingle : ∀ part ∈ splitTopLevel ',' .outside 0 selectors.toList,
      UnwrapsSingle (trim part) := by
    decide +kernel
  have hform : scopeSelectorList? selectors "data-p-1f" = some form := by decide +kernel
  obtain ⟨form', hform', hmarked⟩ := scopeSelectorList?_isMarked howner hglobal hsingle
  obtain rfl := Option.some.inj (hform.symm.trans hform')
  exact ⟨howner, hglobal, hsingle, hform, hmarked⟩

/-- The two selectors in the argument of this form fall apart, and the second has no owner. -/
example : scopeSelectorList? ".foo :deep(.a, .b)" "data-p-x" = some ".foo[data-p-x] .a, .b" := by
  decide +kernel

end AppletBundle.Style
