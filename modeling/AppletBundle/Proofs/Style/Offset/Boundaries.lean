import AppletBundle.Proofs.Style.Offset.Stylesheet

/-!
# Scoping stays between characters

A style is scoped by offsets into its bytes, and an offset inside a character has no slice. Read by
offsets, every text is scoped as it is when read by characters, so each offset that scoping comes to
lies between two characters, no subtraction falls below zero, and no bracket depth does.

There is one exception. The argument of a form is what stands between the parenthesis and the last
byte of its group; when the group is never closed, that byte belongs to the last character of the
selector, and the cut falls inside this character if it has more than one byte
(`IsCutInside`). So `:global(é` has no scoped form.

A selector has none exactly when the form that decides how it is scoped is cut so (`Breaks`); a list
and a stylesheet have none exactly when they hold such a selector
(`scoping_isSome_iff_not_breaks`).
-/

namespace AppletBundle.Style

open AppletBundle.Text

variable {selector attr rest : List Char}

/-! ### Selectors -/

/-- The group after the name of a form is never closed, and the text ends in a character of several
bytes. -/
def IsCutInside (rest : List Char) : Prop :=
  ∃ inner last, rest = '(' :: (inner ++ [last]) ∧
    closeGroup? '(' ')' .outside 0 (inner ++ [last]) = none ∧ 128 ≤ last.toNat

theorem isCutInside_of_readArgument {after : List Char}
    (h : readArgument rest = (.broken, after)) : IsCutInside rest := by
  unfold readArgument at h
  split at h
  · rename_i inner
    split at h
    · cases congrArg Prod.fst h
    · rename_i hclose
      split at h
      · rename_i last hlast
        obtain ⟨front, rfl⟩ := List.getLast?_eq_some_iff.1 hlast
        refine ⟨front, last, rfl, hclose, Nat.not_lt.1 fun hnarrow ↦ ?_⟩
        rw [if_pos (utf8Size_eq_one_iff.2 hnarrow)] at h
        cases congrArg Prod.fst h
      · cases congrArg Prod.fst h
  · cases congrArg Prod.fst h

/-- The names of the forms that may have an argument. -/
def argumentForms : List String :=
  ["::v-global", ":global", "::v-deep", ":deep", "::v-slotted", ":slotted"]

/-- The form that decides how a selector is scoped: a global form with an argument, or else the one
that gives way to its argument. -/
def deciding? (selector : List Char) : Option PseudoMatch :=
  match findPseudo ["::v-global", ":global"] selector with
  | none => unwrapped? selector
  | some ⟨_, .absent, _⟩ => unwrapped? selector
  | some m => some m

/-- The argument that decides how a selector is scoped would end inside a character. -/
def Breaks (selector : List Char) : Prop :=
  ∃ m ∈ deciding? selector, m.argument = .broken

theorem scopeSlotted?_eq_none_iff :
    scopeSlotted? selector attr = none ↔
      ∃ m ∈ findPseudo ["::v-slotted", ":slotted"] selector, m.argument = .broken := by
  unfold scopeSlotted?
  rcases findPseudo ["::v-slotted", ":slotted"] selector with - | ⟨before, argument, after⟩
  · simp
  · cases argument <;> simp

theorem scopeDeep?_eq_none_iff :
    scopeDeep? selector attr = none ↔ ∃ m ∈ unwrapped? selector, m.argument = .broken := by
  unfold scopeDeep? unwrapped?
  rcases splitAtFirst ">>>".toList selector with - | ⟨left, right⟩
  · rcases splitAtFirst "/deep/".toList selector with - | ⟨left, right⟩
    · rcases findPseudo ["::v-deep", ":deep"] selector with - | ⟨left, argument, after⟩
      · exact scopeSlotted?_eq_none_iff
      · cases argument <;> simp
    · simp
  · simp

theorem scopeSelectorChars?_eq_none_iff :
    scopeSelectorChars? selector attr = none ↔ Breaks selector := by
  unfold scopeSelectorChars? Breaks deciding?
  rcases findPseudo ["::v-global", ":global"] selector with - | ⟨before, argument, after⟩
  · exact scopeDeep?_eq_none_iff
  · cases argument with
    | absent => exact scopeDeep?_eq_none_iff
    | present text => simp
    | broken => simp

theorem exists_of_mem_unwrapped {m : PseudoMatch} (h : m ∈ unwrapped? selector) :
    ∃ names ⊆ argumentForms, findPseudo names selector = some m := by
  unfold unwrapped? at h
  split at h
  · cases h
  · rcases Option.or_eq_some_iff.1 h with hdeep | ⟨-, hslotted⟩
    · exact ⟨_, by decide, hdeep⟩
    · exact ⟨_, by decide, hslotted⟩

theorem exists_of_mem_deciding {m : PseudoMatch} (h : m ∈ deciding? selector) :
    ∃ names ⊆ argumentForms, findPseudo names selector = some m := by
  unfold deciding? at h
  split at h
  · exact exists_of_mem_unwrapped h
  · exact exists_of_mem_unwrapped h
  · rename_i hglobal
    exact ⟨_, by decide, hglobal.trans h⟩

/-- What decides how a selector is scoped is one of the forms, cut inside a character. -/
theorem Breaks.exists_isCutInside (h : Breaks selector) :
    ∃ name ∈ argumentForms, ∃ before rest,
      selector = before ++ name.toList ++ rest ∧ IsCutInside rest := by
  obtain ⟨m, hm, hbroken⟩ := h
  obtain ⟨names, hnames, hfind⟩ := exists_of_mem_deciding hm
  obtain ⟨name, hname, rest, hselector, hargument⟩ := findPseudo_spec hfind
  rw [hbroken] at hargument
  exact ⟨name, hnames hname, m.before, rest, hselector, isCutInside_of_readArgument hargument⟩

/-! ### Lists of selectors -/

/-- A selector of a list breaks. -/
def ListBreaks (selectors : List Char) : Prop :=
  ∃ part ∈ splitTopLevel ',' .outside 0 selectors, Breaks (trim part)

theorem mapM_eq_none_iff {α β : Type} {f : α → Option β} {xs : List α} :
    xs.mapM f = none ↔ ∃ x ∈ xs, f x = none := by
  induction xs with
  | nil => simp
  | cons x xs ih =>
    rw [List.mapM_cons, List.exists_mem_cons_iff, ← ih]
    cases f x <;> cases xs.mapM f <;> simp

theorem scopeSelectorListChars?_eq_none_iff {selectors : List Char} :
    scopeSelectorListChars? selectors attr = none ↔ ListBreaks selectors := by
  rw [scopeSelectorListChars?, Option.map_eq_none_iff, mapM_eq_none_iff, ListBreaks]
  refine exists_congr fun part ↦ and_congr_right fun _ ↦ ?_
  obtain ⟨blanks, -, hpart⟩ := exists_blanks_trimStart part
  rw [scopeListItem?_eq hpart, Option.map_eq_none_iff, scopeSelectorChars?_eq_none_iff]

/-! ### Stylesheets -/

mutual

/-- The lists of selectors of the style rules in a rule. -/
def Rule.selectorLists : Rule → List (List Char)
  | .style opening _ => [opening.head]
  | .group _ rules _ => Rule.allSelectorLists rules
  | .statement _ => []
  | .keyframes _ _ _ _ => []
  | .other _ _ => []

/-- The lists of selectors of the style rules in rules. -/
def Rule.allSelectorLists : List Rule → List (List Char)
  | [] => []
  | r :: rs => r.selectorLists ++ Rule.allSelectorLists rs

end

mutual

theorem Rule.scoped?_eq_none_iff (scope : Scope) :
    (r : Rule) → (r.scoped? scope = none ↔ ∃ selectors ∈ r.selectorLists, ListBreaks selectors)
  | .style opening body => by
    rw [Rule.scoped?, Option.map_eq_none_iff, scopeSelectorListChars?_eq_none_iff,
      Rule.selectorLists]
    simp
  | .group opening rules tail => by
    rw [Rule.scoped?, Option.map_eq_none_iff, Rule.allScoped?_eq_none_iff scope rules,
      Rule.selectorLists]
  | .statement _ => by simp [Rule.scoped?, Rule.selectorLists]
  | .keyframes _ _ _ _ => by simp [Rule.scoped?, Rule.selectorLists]
  | .other _ _ => by simp [Rule.scoped?, Rule.selectorLists]

theorem Rule.allScoped?_eq_none_iff (scope : Scope) :
    (rs : List Rule) →
      (Rule.allScoped? scope rs = none ↔
        ∃ selectors ∈ Rule.allSelectorLists rs, ListBreaks selectors)
  | [] => by simp [Rule.allScoped?, Rule.allSelectorLists]
  | r :: rs => by
    simp only [Rule.allScoped?_cons, Option.bind_eq_none_iff, Option.map_eq_none_iff,
      Rule.allSelectorLists, List.mem_append, or_and_right, exists_or,
      ← Rule.scoped?_eq_none_iff scope r, ← Rule.allScoped?_eq_none_iff scope rs]
    cases r.scoped? scope <;> simp

end

/-- A selector of a style rule in a stylesheet breaks. -/
def Stylesheet.Breaks (sheet : Stylesheet) : Prop :=
  ∃ selectors ∈ Rule.allSelectorLists sheet.rules, ListBreaks selectors

theorem Stylesheet.scoped?_eq_none_iff {sheet : Stylesheet} {scope : Scope} :
    sheet.scoped? scope = none ↔ sheet.Breaks := by
  rw [Stylesheet.scoped?, Option.map_eq_none_iff, Rule.allScoped?_eq_none_iff, Stylesheet.Breaks]

/-! ### Texts -/

namespace Offset

/-- The scoped form of a selector. -/
def scopeSelector? (selector attr : String) : Option String :=
  (scopeSelectorChars? selector.toList attr.toList).map .ofList

/-- A list of selectors, each of which is scoped. -/
def scopeSelectorList? (selectors attr : String) : Option String :=
  (scopeSelectorListChars? selectors.toList attr.toList).map .ofList

/-- A stylesheet scoped to the asset with an identity. -/
def scopeStylesheet? (source identity : String) : Option String :=
  let scope := Scope.ofIdentity identity
  (scopeBlockFrom? scope source.toList 0).map fun r ↦
    .ofList (if r.2.isEmpty then r.1 else renameAnimations ⟨scope.suffix, r.2⟩ r.1)

theorem scopeSelector?_eq_style (selector attr : String) :
    scopeSelector? selector attr = Style.scopeSelector? selector attr := by
  rw [scopeSelector?, scopeSelectorChars?_eq_style, Style.scopeSelector?]

theorem scopeSelectorList?_eq_style (selectors attr : String) :
    scopeSelectorList? selectors attr = Style.scopeSelectorList? selectors attr := by
  rw [scopeSelectorList?, scopeSelectorListChars?_eq_style, Style.scopeSelectorList?]

theorem scopeStylesheet?_eq_style (source identity : String) :
    scopeStylesheet? source identity = Style.scopeStylesheet? source identity := by
  have hblock := scopeBlockFrom?_eq (.ofIdentity identity) (reads_ofChars source.toList)
    (List.suffix_refl _)
  rw [offset_self] at hblock
  rw [scopeStylesheet?, hblock, Style.scopeStylesheet?, Stylesheet.scoped?,
    Stylesheet.scopedWithNames?, Option.map_map, Option.map_map]
  congr 1
  funext inner
  dsimp only [Function.comp_apply]
  cases Rule.allKeyframesNames (.ofIdentity identity) (Stylesheet.ofChars source.toList).rules <;> rfl

end Offset

/-- **Scoping stays between characters, but for a form that is cut inside one.** Read by offsets, a
text is scoped as it is when read by characters, whether it is a selector, a list of selectors or a
stylesheet. There is a scoped text exactly when no selector breaks, and a selector that breaks holds a
form whose group is never closed and whose last character has several bytes. -/
theorem scoping_isSome_iff_not_breaks (text attr identity : String) :
    (Offset.scopeSelector? text attr = scopeSelector? text attr ∧
      ((Offset.scopeSelector? text attr).isSome ↔ ¬ Breaks text.toList)) ∧
    (Offset.scopeSelectorList? text attr = scopeSelectorList? text attr ∧
      ((Offset.scopeSelectorList? text attr).isSome ↔ ¬ ListBreaks text.toList)) ∧
    (Offset.scopeStylesheet? text identity = scopeStylesheet? text identity ∧
      ((Offset.scopeStylesheet? text identity).isSome ↔
        ¬ (Stylesheet.ofChars text.toList).Breaks)) ∧
    (Breaks text.toList → ∃ name ∈ argumentForms, ∃ before rest,
      text.toList = before ++ name.toList ++ rest ∧ IsCutInside rest) := by
  refine ⟨⟨Offset.scopeSelector?_eq_style text attr, ?_⟩,
    ⟨Offset.scopeSelectorList?_eq_style text attr, ?_⟩,
    ⟨Offset.scopeStylesheet?_eq_style text identity, ?_⟩, Breaks.exists_isCutInside⟩
  · rw [Offset.scopeSelector?_eq_style, scopeSelector?, Option.isSome_map, Option.isSome_iff_ne_none,
      Ne, scopeSelectorChars?_eq_none_iff]
  · rw [Offset.scopeSelectorList?_eq_style, scopeSelectorList?, Option.isSome_map,
      Option.isSome_iff_ne_none, Ne, scopeSelectorListChars?_eq_none_iff]
  · rw [Offset.scopeStylesheet?_eq_style, scopeStylesheet?, Option.isSome_map,
      Option.isSome_iff_ne_none, Ne, Stylesheet.scoped?_eq_none_iff]

/-- A global form is cut inside the only character of its argument. Once it is closed, there is a
scoped selector. -/
theorem scoping_isSome_iff_not_breaks_unclosed :
    Breaks ":global(é".toList ∧ Offset.scopeSelector? ":global(é" "data-p-x" = none ∧
      ¬ Breaks ":global(é)".toList ∧ (Offset.scopeSelector? ":global(é)" "data-p-x").isSome := by
  obtain ⟨⟨-, hopen⟩, -⟩ := scoping_isSome_iff_not_breaks ":global(é" "data-p-x" "x"
  obtain ⟨⟨-, hclosed⟩, -⟩ := scoping_isSome_iff_not_breaks ":global(é)" "data-p-x" "x"
  have hbreaks : Breaks ":global(é".toList := ⟨_, rfl, rfl⟩
  have hnot : ¬ Breaks ":global(é)".toList := by
    rintro ⟨m, hm, hbroken⟩
    obtain rfl := Option.some.inj hm
    cases hbroken
  refine ⟨hbreaks, ?_, hnot, hclosed.2 hnot⟩
  rw [← Option.not_isSome_iff_eq_none, hopen, not_not]
  exact hbreaks

end AppletBundle.Style
