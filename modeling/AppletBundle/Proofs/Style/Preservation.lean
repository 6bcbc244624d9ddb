import AppletBundle.Proofs.Style.Forms
import AppletBundle.Proofs.Style.Reading

/-!
# Scoping loses no text

A stylesheet that declares no keyframes and uses no form of its own is the same text after scoping,
but for the attributes in its selectors and for white space in front of a comma
(`scopeStylesheet?_keeps_text`).

Both are put down in one relation between a text and a text with marks in it (`Marks`). A mark opens
a bracket, and has neither a comma nor another bracket inside, so an occurrence of it in the new
text that was not put there was in the old text already (`Marks.prefix_of_prefix`). Deleting the
marks therefore gives the old text back (`Marks.nonBlank_erase`).

Where the marks are is told piece by piece (`Rule.pieces`): only the selectors of style rules get
any, all other text is copied.
-/

namespace AppletBundle.Style

open AppletBundle.Text

/-! ### Texts with marks -/

/-- The second text is the first with a mark put in at some places; white space in front of a comma
may be gone. -/
inductive Marks (mark : List Char) : List Char → List Char → Prop
  | nil : Marks mark [] []
  | keep (c : Char) {t u : List Char} : Marks mark t u → Marks mark (c :: t) (c :: u)
  | put {t u : List Char} : Marks mark t u → Marks mark t (mark ++ u)
  | drop {c : Char} {t u : List Char} :
    isBlank c → Marks mark t (',' :: u) → Marks mark (c :: t) (',' :: u)

variable {mark t u : List Char}

theorem Marks.append_left (h : Marks mark t u) (s : List Char) : Marks mark (s ++ t) (s ++ u) := by
  induction s with
  | nil => exact h
  | cons c s ih => exact .keep c ih

theorem Marks.refl (mark t : List Char) : Marks mark t t := by
  simpa using Marks.nil.append_left t

theorem Marks.append {t' u' : List Char} (h : Marks mark t u) (h' : Marks mark t' u') :
    Marks mark (t ++ t') (u ++ u') := by
  induction h with
  | nil => exact h'
  | keep c _ ih => exact .keep c ih
  | put _ ih =>
    rw [List.append_assoc]
    exact .put ih
  | drop hblank _ ih => exact .drop hblank ih

theorem Marks.drop_all {blanks : List Char} (hblanks : ∀ c ∈ blanks, isBlank c)
    (h : Marks mark t (',' :: u)) : Marks mark (blanks ++ t) (',' :: u) := by
  induction blanks with
  | nil => exact h
  | cons c blanks ih =>
    rw [List.forall_mem_cons] at hblanks
    exact .drop hblanks.1 (ih hblanks.2)

/-- The new text begins with nothing that the old text does not begin with, marks and commas
apart. -/
theorem Marks.prefix_of_prefix {body part : List Char} (h : Marks ('[' :: body) t u)
    (hpart : '[' ∉ part ∧ ',' ∉ part) (hu : part <+: u) : part <+: t := by
  induction part generalizing t u with
  | nil => exact List.nil_prefix
  | cons c part ih =>
    simp only [List.mem_cons, not_or] at hpart
    cases h with
    | nil => exact hu
    | keep c' hrest =>
      obtain ⟨rfl, htail⟩ := List.cons_prefix_cons.1 hu
      exact List.cons_prefix_cons.2 ⟨rfl, ih hrest ⟨hpart.1.2, hpart.2.2⟩ htail⟩
    | put => exact absurd (List.cons_prefix_cons.1 hu).1.symm hpart.1.1
    | drop => exact absurd (List.cons_prefix_cons.1 hu).1.symm hpart.2.1

/-- The text without the occurrences of a mark, looked for from the left; the first `skip`
characters belong to an occurrence that was found before. -/
def erase (mark : List Char) (skip : ℕ) : List Char → List Char
  | [] => []
  | c :: rest =>
    match skip with
    | k + 1 => erase mark k rest
    | 0 => if mark.isPrefixOf (c :: rest) then erase mark (mark.length - 1) rest
      else c :: erase mark 0 rest

/-- The text without white space. -/
def nonBlank (t : List Char) : List Char :=
  t.filter (!isBlank ·)

theorem erase_skip (mark s t : List Char) : erase mark s.length (s ++ t) = erase mark 0 t := by
  induction s with
  | nil => rfl
  | cons c s ih => exact ih

theorem erase_mark_append (c : Char) (body t : List Char) :
    erase (c :: body) 0 (c :: body ++ t) = erase (c :: body) 0 t := by
  have hprefix : (c :: body).isPrefixOf (c :: (body ++ t)) = true :=
    List.isPrefixOf_iff_prefix.2 (List.prefix_append (c :: body) t)
  rw [List.cons_append, erase, if_pos hprefix]
  exact erase_skip (c :: body) body t

theorem nonBlank_cons (c : Char) (t : List Char) :
    nonBlank (c :: t) = if isBlank c then nonBlank t else c :: nonBlank t := by
  rw [nonBlank, List.filter_cons]
  cases isBlank c <;> rfl

/-- **Deleting the marks gives the old text back**, white space apart, if that text had none. -/
theorem Marks.nonBlank_erase {body : List Char} (hbody : '[' ∉ body ∧ ',' ∉ body)
    (h : Marks ('[' :: body) t u) (hfresh : ¬ '[' :: body <:+: t) :
    nonBlank (erase ('[' :: body) 0 u) = nonBlank t := by
  induction h with
  | nil => rfl
  | @keep c t u hrest ih =>
    have hnone : ¬ ('[' :: body).isPrefixOf (c :: u) = true := by
      rw [List.isPrefixOf_iff_prefix, List.cons_prefix_cons]
      rintro ⟨rfl, hprefix⟩
      have hold := hrest.prefix_of_prefix hbody hprefix
      exact hfresh (List.cons_prefix_cons.2 ⟨rfl, hold⟩).isInfix
    rw [erase, if_neg hnone, nonBlank_cons, nonBlank_cons,
      ih fun hin ↦ hfresh (hin.trans (List.suffix_cons c t).isInfix)]
  | put _ ih => rw [erase_mark_append, ih hfresh]
  | @drop c t u hblank _ ih =>
    rw [nonBlank_cons, if_pos hblank,
      ih fun hin ↦ hfresh (hin.trans (List.suffix_cons c t).isInfix)]

/-! ### Selectors without forms -/

/-- The names of the forms, and the combinators that pierce. -/
def formNames : List String :=
  ["::v-global", ":global", ">>>", "/deep/", "::v-deep", ":deep", "::v-slotted", ":slotted"]

/-- A text in which no form occurs. -/
def HasNoForm (t : List Char) : Prop :=
  ∀ name ∈ formNames, ¬ name.toList <:+: t

instance (t : List Char) : Decidable (HasNoForm t) :=
  inferInstanceAs (Decidable (∀ name ∈ formNames, ¬ name.toList <:+: t))

theorem HasNoForm.of_infix (h : HasNoForm u) (ht : t <:+: u) : HasNoForm t :=
  fun name hname hin ↦ h name hname (hin.trans ht)

theorem HasNoForm.isFormFree (h : HasNoForm t) : IsFormFree t where
  names name hname := fun ⟨front, rest, ht, _⟩ ↦ by
    have hmem : ∀ name ∈ pseudoNames, name ∈ formNames := by decide
    exact h name (hmem name hname) ⟨front, rest, ht.symm⟩
  combinators combinator hcombinator := by
    have hmem : ∀ combinator ∈ piercingCombinators, combinator ∈ formNames := by decide
    exact h combinator (hmem combinator hcombinator)

theorem marks_injectAttribute (t attr : List Char) :
    Marks (attributeSelector attr) (trim t) (injectAttribute t attr) := by
  obtain ⟨before, after, htrim, hinject, -⟩ := injectAttribute_spec t
  rw [htrim, hinject, List.append_assoc]
  exact (Marks.put (.refl _ _)).append_left before

/-! ### Lists of selectors -/

/-- Marks in a text that may lose white space at its end. -/
def MarksTrimmed (mark t u : List Char) : Prop :=
  ∃ kept blanks, t = kept ++ blanks ∧ (∀ c ∈ blanks, isBlank c) ∧ Marks mark kept u

theorem MarksTrimmed.marks (h : MarksTrimmed mark t u) (ht : trimEnd t = t) : Marks mark t u := by
  obtain ⟨kept, blanks, rfl, hblanks, hmarks⟩ := h
  have hlength : (trimEnd kept).length ≤ kept.length := by
    obtain ⟨rest, -, hkept⟩ := exists_blanks_trimEnd kept
    conv_rhs => rw [hkept, List.length_append]
    exact Nat.le_add_right _ _
  rw [trimEnd_append_blanks hblanks] at ht
  have hnil : blanks.length = 0 := by
    rw [ht, List.length_append] at hlength
    omega
  obtain rfl := List.length_eq_zero_iff.1 hnil
  rwa [List.append_nil]

theorem HasNoForm.exists_scopeListItem?_eq {part : List Char} (h : HasNoForm part)
    (attr : List Char) :
    ∃ item, scopeListItem? attr part = some item ∧
      MarksTrimmed (attributeSelector attr) part item := by
  obtain ⟨blanks, hblanks, hpart⟩ := exists_blanks_trimStart part
  obtain ⟨rest, hrest, htrimmed⟩ := exists_blanks_trimEnd (trimStart part)
  have hnone : HasNoForm (trim part) := h.of_infix (trim_isInfix part)
  refine ⟨blanks ++ injectAttribute (trim part) attr, ?_, blanks ++ trim part, rest, ?_, hrest, ?_⟩
  · rw [scopeListItem?_eq hpart, hnone.isFormFree.scopeSelectorChars?_eq]
    rfl
  · rw [List.append_assoc, trim, ← htrimmed, ← hpart]
  · have hmarks := marks_injectAttribute (trim part) attr
    rw [trim_trim] at hmarks
    exact hmarks.append_left blanks

theorem marksTrimmed_intercalate {parts items : List (List Char)} (hne : parts ≠ [])
    (h : List.Forall₂ (MarksTrimmed mark) parts items) :
    MarksTrimmed mark ([','].intercalate parts) ([','].intercalate items) := by
  induction h with
  | nil => exact absurd rfl hne
  | @cons part item parts items hpart hparts ih =>
    cases hparts with
    | nil => simpa using hpart
    | @cons part' item' parts items hpart' hparts' =>
      obtain ⟨kept, blanks, hrest, hblanks, hmarks⟩ := ih (List.cons_ne_nil _ _)
      obtain ⟨kept', blanks', rfl, hblanks', hmarks'⟩ := hpart
      refine ⟨kept' ++ (blanks' ++ ',' :: kept), blanks, ?_, hblanks, ?_⟩
      · rw [List.intercalate_cons_cons, hrest]
        simp
      · rw [List.intercalate_cons_cons, List.append_assoc]
        exact hmarks'.append (.drop_all hblanks' (hmarks.keep ','))

/-- **A list of selectors without forms gets attributes, and loses at most white space.** -/
theorem HasNoForm.exists_scopeSelectorListChars?_eq (h : HasNoForm t) (attr : List Char) :
    ∃ form, scopeSelectorListChars? t attr = some form ∧
      MarksTrimmed (attributeSelector attr) t form := by
  have hparts : ∀ part ∈ splitTopLevel ',' .outside 0 t, HasNoForm part :=
    fun part hpart ↦ h.of_infix (infix_of_mem_splitTopLevel (s := .start) hpart)
  obtain ⟨items, hitems, hmarks⟩ :=
    exists_mapM_eq fun part hpart ↦ (hparts part hpart).exists_scopeListItem?_eq attr
  refine ⟨[','].intercalate items, by rw [scopeSelectorListChars?, hitems]; rfl, ?_⟩
  have hjoin : [','].intercalate (splitTopLevel ',' .outside 0 t) = t :=
    intercalate_splitTopLevel ',' .start t
  have hjoined := marksTrimmed_intercalate (splitTopLevel_ne_nil _ _ _ _) hmarks
  rwa [hjoin] at hjoined

/-! ### Pieces -/

/-- A piece of a stylesheet. -/
inductive Piece where
  /-- Text that stays as it is. -/
  | copied (text : List Char)
  /-- The selectors of a style rule. -/
  | selectors (text : List Char)

/-- The text of a piece. -/
def Piece.text : Piece → List Char
  | copied text => text
  | selectors text => text

mutual

/-- The pieces of a rule: what stands in front of a head, heads, blocks, statements, and the text
after the last rule of a group. -/
def Rule.pieces : Rule → List Piece
  | .statement text => [.copied text]
  | .style opening body =>
    [.copied opening.leading, .selectors opening.head, .copied opening.trailing,
      .copied (inBraces body)]
  | .keyframes opening _ _ body => [.copied opening.chars, .copied (inBraces body)]
  | .group opening rules tail =>
    .copied opening.chars :: .copied ['\x7b'] ::
      (Rule.allPieces rules ++ [.copied tail, .copied ['\x7d']])
  | .other opening body => [.copied opening.chars, .copied (inBraces body)]

/-- The pieces of rules. -/
def Rule.allPieces : List Rule → List Piece
  | [] => []
  | r :: rs => r.pieces ++ Rule.allPieces rs

end

/-- The pieces of a stylesheet, the text after its last rule at the end. -/
def Stylesheet.pieces (sheet : Stylesheet) : List Piece :=
  Rule.allPieces sheet.rules ++ [.copied sheet.tail]

mutual

theorem Rule.flatMap_text_pieces : (rule : Rule) → rule.pieces.flatMap Piece.text = rule.chars
  | .statement _ => List.append_nil _
  | .style _ _ => by simp [pieces, Piece.text, chars, Prelude.chars]
  | .keyframes _ _ _ _ => by simp [pieces, Piece.text, chars]
  | .other _ _ => by simp [pieces, Piece.text, chars]
  | .group _ rules _ => by
    have hrules := Rule.flatMap_text_allPieces rules
    simp [pieces, Piece.text, chars, inBraces, hrules]

theorem Rule.flatMap_text_allPieces :
    (rules : List Rule) → (Rule.allPieces rules).flatMap Piece.text = Rule.allChars rules
  | [] => rfl
  | rule :: rules => by
    rw [Rule.allPieces, List.flatMap_append, rule.flatMap_text_pieces,
      Rule.flatMap_text_allPieces rules, Rule.allChars]

end

/-- The pieces make up the text. -/
theorem Stylesheet.flatMap_text_pieces (sheet : Stylesheet) :
    sheet.pieces.flatMap Piece.text = sheet.chars := by
  rw [pieces, List.flatMap_append, Rule.flatMap_text_allPieces]
  exact congrArg (_ ++ ·) (List.append_nil _)

/-- What a piece becomes in a scoped stylesheet. -/
inductive Piece.Becomes (mark : List Char) : Piece → List Char → Prop
  | copied (text : List Char) : Becomes mark (.copied text) text
  | selectors {text form : List Char} : Marks mark text form → Becomes mark (.selectors text) form

theorem marks_flatten {pieces : List Piece} {texts : List (List Char)}
    (h : List.Forall₂ (Piece.Becomes mark) pieces texts) :
    Marks mark (pieces.flatMap Piece.text) texts.flatten := by
  induction h with
  | nil => exact .nil
  | cons hpiece _ ih =>
    rw [List.flatMap_cons, List.flatten_cons]
    cases hpiece with
    | copied => exact (Marks.refl mark _).append ih
    | selectors hmarks => exact hmarks.append ih

/-- Rules with their scoped text, told piece by piece. -/
def KeepsText (scope : Scope) (form? : Option (List Char)) (pieces : List Piece) : Prop :=
  ∃ texts, form? = some texts.flatten ∧
    List.Forall₂ (Piece.Becomes (attributeSelector scope.attributeName)) pieces texts

variable {scope : Scope}

theorem KeepsText.cons {rule : Rule} {rules : List Rule}
    (hrule : KeepsText scope (rule.scoped? scope) rule.pieces)
    (hrules : KeepsText scope (Rule.allScoped? scope rules) (Rule.allPieces rules)) :
    KeepsText scope (Rule.allScoped? scope (rule :: rules)) (Rule.allPieces (rule :: rules)) := by
  obtain ⟨texts, hform, hpieces⟩ := hrule
  obtain ⟨texts', hform', hpieces'⟩ := hrules
  refine ⟨texts ++ texts', ?_, List.rel_append hpieces hpieces'⟩
  rw [Rule.allScoped?, hform, hform', List.flatten_append]

theorem keepsText_copied (scope : Scope) (texts : List (List Char)) {form : List Char}
    (hform : form = texts.flatten) : KeepsText scope (some form) (texts.map .copied) := by
  refine ⟨texts, congrArg some hform, ?_⟩
  rw [List.forall₂_map_left_iff]
  exact List.forall₂_same.2 fun text _ ↦ .copied text

theorem keepsText_style {opening : Prelude} {body : List Char} (hform : HasNoForm opening.head)
    (htrim : trimEnd opening.head = opening.head) :
    KeepsText scope ((Rule.style opening body).scoped? scope) (Rule.style opening body).pieces := by
  obtain ⟨form, hlist, hmarks⟩ := hform.exists_scopeSelectorListChars?_eq scope.attributeName
  refine ⟨[opening.leading, form, opening.trailing, inBraces body], ?_, ?_⟩
  · rw [Rule.scoped?, hlist]
    simp
  · exact .cons (.copied _) (.cons (.selectors (hmarks.marks htrim))
      (.cons (.copied _) (.cons (.copied _) .nil)))

theorem keepsText_group {opening : Prelude} {rules : List Rule} {tail : List Char}
    (hrules : KeepsText scope (Rule.allScoped? scope rules) (Rule.allPieces rules)) :
    KeepsText scope ((Rule.group opening rules tail).scoped? scope)
      (Rule.group opening rules tail).pieces := by
  obtain ⟨texts, hform, hpieces⟩ := hrules
  refine ⟨opening.chars :: ['\x7b'] :: (texts ++ [tail, ['\x7d']]), ?_, ?_⟩
  · rw [Rule.scoped?, hform]
    simp [inBraces]
  · have hend : List.Forall₂ (Piece.Becomes (attributeSelector scope.attributeName))
        [.copied tail, .copied ['\x7d']] [tail, ['\x7d']] :=
      .cons (.copied _) (.cons (.copied _) .nil)
    exact .cons (.copied _) (.cons (.copied _) (List.rel_append hpieces hend))

mutual

/-- Whether a rule declares keyframes, or is a group with such a rule inside. -/
def Rule.declaresKeyframes : Rule → Bool
  | .keyframes .. => true
  | .group _ rules _ => Rule.anyDeclaresKeyframes rules
  | .statement _ => false
  | .style _ _ => false
  | .other _ _ => false

/-- Whether some of the rules declare keyframes. -/
def Rule.anyDeclaresKeyframes : List Rule → Bool
  | [] => false
  | r :: rs => r.declaresKeyframes || Rule.anyDeclaresKeyframes rs

end

mutual

theorem Rule.keyframesNames_eq_nil (scope : Scope) :
    (rule : Rule) → rule.declaresKeyframes = false → rule.keyframesNames scope = []
  | .statement _, _ => rfl
  | .style _ _, _ => rfl
  | .other _ _, _ => rfl
  | .group _ rules _, h => Rule.allKeyframesNames_eq_nil scope rules h

theorem Rule.allKeyframesNames_eq_nil (scope : Scope) :
    (rules : List Rule) → Rule.anyDeclaresKeyframes rules = false →
      Rule.allKeyframesNames scope rules = []
  | [], _ => rfl
  | rule :: rules, h => by
    rw [Rule.anyDeclaresKeyframes, Bool.or_eq_false_iff] at h
    rw [Rule.allKeyframesNames, rule.keyframesNames_eq_nil scope h.1,
      allKeyframesNames_eq_nil scope rules h.2]
    rfl

end

/-! ### Stylesheets -/

/-- **Scoping keeps the text of rules**, when no form occurs in it and no keyframes are declared. -/
theorem Reads.keepsText {s : List Char} {sheet : Stylesheet} (h : Reads s sheet) (scope : Scope)
    (hform : HasNoForm s) (hframes : Rule.anyDeclaresKeyframes sheet.rules = false) :
    KeepsText scope (Rule.allScoped? scope sheet.rules) (Rule.allPieces sheet.rules) := by
  induction h with
  | tail => exact ⟨[], rfl, .nil⟩
  | @statement s before after sheet hsplit _ ih =>
    have hafter : after <:+: s :=
      ⟨before ++ [';'], [], by rw [(splitAtDelimiter?_eq hsplit).1]; simp⟩
    exact .cons (keepsText_copied scope [_] (by simp))
      (ih (hform.of_infix hafter) hframes)
  | @style s before body after sheet hblock _ _ ih =>
    obtain ⟨hhead, -, hafter⟩ := hblock.infixes
    exact .cons (keepsText_style (hform.of_infix hhead) (trimEnd_trimEnd _))
      (ih (hform.of_infix hafter) hframes)
  | keyframes => cases hframes
  | @group s before body after inner sheet hblock _ _ _ ihbody ih =>
    obtain ⟨-, hbody, hafter⟩ := hblock.infixes
    obtain ⟨hinner, hrest⟩ := Bool.or_eq_false_iff.1 hframes
    exact .cons (keepsText_group (ihbody (hform.of_infix hbody) hinner))
      (ih (hform.of_infix hafter) hrest)
  | @other s before body after sheet hblock _ _ ih =>
    obtain ⟨-, -, hafter⟩ := hblock.infixes
    exact .cons (keepsText_copied scope [_, _] (by simp))
      (ih (hform.of_infix hafter) hframes)

theorem isPlain_scopeAttribute {owner : String} (howner : ∀ c ∈ owner.toList, isIdentChar c) :
    IsPlain (scopeAttribute owner).toList := by
  rw [scopeAttribute, String.toList_append]
  intro c hc
  rcases List.mem_append.1 hc with hc | hc
  · exact (by decide : IsPlain "data-p-".toList) c hc
  · exact isPlain_of_isIdentChar howner c hc

/-- **Scoping loses no text.** A stylesheet without keyframes and without forms, in which the
attribute of its owner does not occur, has a scoped text. Deleting the attribute from that text
gives the stylesheet back, white space apart; and its pieces are the pieces of the stylesheet, one by
one, where all but the selectors of style rules are copied. -/
theorem scopeStylesheet?_keeps_text {source owner : String}
    (howner : ∀ c ∈ owner.toList, isIdentChar c)
    (hframes : Rule.anyDeclaresKeyframes (Stylesheet.ofChars source.toList).rules = false)
    (hform : HasNoForm source.toList)
    (hfresh : ¬ (scopeAttribute owner).toList <:+: source.toList) :
    ∃ form, scopeStylesheet? source owner = some form ∧
      nonBlank (erase (attributeSelector (scopeAttribute owner).toList) 0 form.toList) =
        nonBlank source.toList ∧
      (Stylesheet.ofChars source.toList).pieces.flatMap Piece.text = source.toList ∧
      ∃ texts, texts.flatten = form.toList ∧
        List.Forall₂ (Piece.Becomes (attributeSelector (scopeAttribute owner).toList))
          (Stylesheet.ofChars source.toList).pieces texts := by
  set sheet := Stylesheet.ofChars source.toList with hsheet
  set attr := (scopeAttribute owner).toList
  have hread : Reads source.toList sheet := reads_ofChars source.toList
  obtain ⟨texts, hrules, hpieces⟩ :=
    hread.keepsText (.ofIdentity owner) hform hframes
  have hall : List.Forall₂ (Piece.Becomes (attributeSelector attr)) sheet.pieces
      (texts ++ [sheet.tail]) :=
    List.rel_append hpieces (.cons (.copied _) .nil)
  have htext : sheet.pieces.flatMap Piece.text = source.toList :=
    sheet.flatMap_text_pieces.trans hread.chars_eq
  have hmarks := marks_flatten hall
  rw [htext] at hmarks
  have hmark : '[' ∉ attr ++ [']'] ∧ ',' ∉ attr ++ [']'] := by
    have hplain := isPlain_scopeAttribute howner
    simp only [List.mem_append, List.mem_singleton, not_or]
    exact ⟨⟨fun hmem ↦ hplain _ hmem (by decide), by decide⟩,
      fun hmem ↦ hplain _ hmem (by decide), by decide⟩
  have hnone : ¬ attributeSelector attr <:+: source.toList := fun hin ↦
    hfresh (List.IsInfix.trans ⟨['['], [']'], rfl⟩ hin)
  refine ⟨.ofList (texts ++ [sheet.tail]).flatten, ?_, ?_, htext, texts ++ [sheet.tail], ?_, hall⟩
  · have hnames := Rule.allKeyframesNames_eq_nil (.ofIdentity owner) _ hframes
    rw [scopeStylesheet?, Stylesheet.scoped?, ← hsheet, hrules]
    dsimp only [Option.map_some]
    rw [hnames]
    simp
  · rw [String.toList_ofList]
    exact hmarks.nonBlank_erase hmark hnone
  · rw [String.toList_ofList]

theorem scopeStylesheet?_keeps_text_card :
    let source := "/*é*/@media (x)\x7bh1 , a:is(b, c)::d\x7be:f\x7d /*,*/\x7d@g 'x;';" ++
      "p [x=\", \"] ,\x7b\x7d i\x7b"
    let owner := "0123456789abcdef"
    let form := "/*é*/@media (x)\x7bh1[data-p-0123456789abcdef]," ++
      " a[data-p-0123456789abcdef]:is(b, c)::d\x7be:f\x7d /*,*/\x7d@g 'x;';" ++
      "p [x=\", \"][data-p-0123456789abcdef],[data-p-0123456789abcdef]\x7b\x7d i\x7b"
    (∀ c ∈ owner.toList, isIdentChar c) ∧
      Rule.anyDeclaresKeyframes (Stylesheet.ofChars source.toList).rules = false ∧
      HasNoForm source.toList ∧ ¬ (scopeAttribute owner).toList <:+: source.toList ∧
      scopeStylesheet? source owner = some form ∧
      nonBlank (erase (attributeSelector (scopeAttribute owner).toList) 0 form.toList) =
        nonBlank source.toList := by
  intro source owner form
  have howner : ∀ c ∈ owner.toList, isIdentChar c := List.all_eq_true.1 (by decide +kernel)
  have hframes : Rule.anyDeclaresKeyframes (Stylesheet.ofChars source.toList).rules = false := by
    decide +kernel
  have hnone : HasNoForm source.toList := by decide +kernel
  have hfresh : ¬ (scopeAttribute owner).toList <:+: source.toList := by decide +kernel
  have hform : scopeStylesheet? source owner = some form := by decide +kernel
  obtain ⟨form', hform', herase, -⟩ := scopeStylesheet?_keeps_text howner hframes hnone hfresh
  obtain rfl := Option.some.inj (hform.symm.trans hform')
  exact ⟨howner, hframes, hnone, hfresh, hform, herase⟩

end AppletBundle.Style
