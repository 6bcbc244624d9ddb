import AppletBundle.Proofs.Style.Reading
import AppletBundle.Proofs.Style.References
import Mathlib.Data.List.DropRight
import Mathlib.Data.List.Infix

/-!
# Keyframes of a scoped stylesheet

Keyframes get the suffix of their stylesheet, and the declarations that refer to them follow. The
text that is searched is the scoped text, so a rule is described by the place at which it stands
there (`Stands`): every rule of a stylesheet has one (`Occurs.exists_stands`), and what stands at it
is the scoped rule (`Stands.allScoped?_eq`).

At a place that no declaration reaches over, the head of keyframes is copied with the new name, and
a declaration is rewritten item by item (`scopeStylesheet?_keyframes`).
-/

namespace AppletBundle.Style

open AppletBundle.Text AnimationDeclaration

/-! ### Rules and their places -/

/-- A rule is among rules, or in a group among them. -/
inductive Occurs (rule : Rule) : List Rule → Prop
  | head {rules : List Rule} : Occurs rule (rule :: rules)
  | tail {first : Rule} {rules : List Rule} : Occurs rule rules → Occurs rule (first :: rules)
  | inside {opening : Prelude} {inner rules : List Rule} {tail : List Char} :
    Occurs rule inner → Occurs rule (.group opening inner tail :: rules)

/-- A rule among rules, with the scoped text in front of it and after it. -/
inductive Stands (scope : Scope) (rule : Rule) : List Rule → List Char → List Char → Prop
  | head {rules : List Rule} {after : List Char} :
    Rule.allScoped? scope rules = some after → Stands scope rule (rule :: rules) [] after
  | tail {first : Rule} {rules : List Rule} {text before after : List Char} :
    first.scoped? scope = some text → Stands scope rule rules before after →
    Stands scope rule (first :: rules) (text ++ before) after
  | inside {opening : Prelude} {inner rules : List Rule} {tail before after more : List Char} :
    Stands scope rule inner before after → Rule.allScoped? scope rules = some more →
    Stands scope rule (.group opening inner tail :: rules) (opening.chars ++ '\x7b' :: before)
      (after ++ tail ++ '\x7d' :: more)

variable {scope : Scope} {rule : Rule} {rules : List Rule} {before after text : List Char}

theorem Rule.allScoped?_cons_eq_some {first : Rule}
    (h : Rule.allScoped? scope (first :: rules) = some text) :
    ∃ front back, first.scoped? scope = some front ∧ Rule.allScoped? scope rules = some back ∧
      text = front ++ back := by
  rw [Rule.allScoped?_cons] at h
  obtain ⟨front, hfront, h⟩ := Option.bind_eq_some_iff.1 h
  obtain ⟨back, hback, htext⟩ := Option.map_eq_some_iff.1 h
  exact ⟨front, back, hfront, hback, htext.symm⟩

/-- **Every rule of a scoped stylesheet has a place.** -/
theorem Occurs.exists_stands (h : Occurs rule rules)
    (hscoped : Rule.allScoped? scope rules = some text) :
    ∃ before after, Stands scope rule rules before after := by
  induction h generalizing text with
  | head =>
    obtain ⟨front, back, -, hback, -⟩ := Rule.allScoped?_cons_eq_some hscoped
    exact ⟨_, _, .head hback⟩
  | tail _ ih =>
    obtain ⟨front, back, hfront, hback, -⟩ := Rule.allScoped?_cons_eq_some hscoped
    obtain ⟨before, after, hstands⟩ := ih hback
    exact ⟨_, _, .tail hfront hstands⟩
  | inside _ ih =>
    obtain ⟨front, back, hfront, hback, -⟩ := Rule.allScoped?_cons_eq_some hscoped
    rw [Rule.scoped?] at hfront
    obtain ⟨inner, hinner, -⟩ := Option.map_eq_some_iff.1 hfront
    obtain ⟨before, after, hstands⟩ := ih hinner
    exact ⟨_, _, .inside hstands hback⟩

theorem Stands.occurs (h : Stands scope rule rules before after) : Occurs rule rules := by
  induction h with
  | head => exact .head
  | tail _ _ ih => exact .tail ih
  | inside _ _ ih => exact .inside ih

/-- **At the place of a rule stands the scoped rule.** -/
theorem Stands.allScoped?_eq (h : Stands scope rule rules before after)
    (hrule : rule.scoped? scope = some text) :
    Rule.allScoped? scope rules = some (before ++ (text ++ after)) := by
  induction h with
  | head hafter => rw [Rule.allScoped?, hrule, hafter]; rfl
  | tail hfirst _ ih =>
    rw [Rule.allScoped?, hfirst, ih, List.append_assoc]
  | inside _ hmore ih =>
    rw [Rule.allScoped?, Rule.scoped?, ih, hmore]
    simp [inBraces]

/-! ### Keyframes that were read -/

/-- The keyframes that a rule declares are those of its head. -/
def IsHeaded : Rule → Prop
  | .keyframes opening word name _ =>
    (∃ s, opening = .ofChars s) ∧ Head.ofChars opening.head = .keyframes word name
  | _ => True

theorem Reads.isHeaded {s : List Char} {sheet : Stylesheet} (h : Reads s sheet) :
    ∀ rule, Occurs rule sheet.rules → IsHeaded rule := by
  have hcons : ∀ {first : Rule} {sheet : Stylesheet}, IsHeaded first →
      (∀ opening inner tail, first = .group opening inner tail →
        ∀ rule, Occurs rule inner → IsHeaded rule) →
      (∀ rule, Occurs rule sheet.rules → IsHeaded rule) →
      ∀ rule, Occurs rule (sheet.cons first).rules → IsHeaded rule := by
    intro first sheet hfirst hinner hrest rule hrule
    cases hrule with
    | head => exact hfirst
    | tail h => exact hrest rule h
    | inside h => exact hinner _ _ _ rfl rule h
  induction h with
  | tail => exact fun rule hrule ↦ by cases hrule
  | statement _ _ ih => exact hcons trivial (fun _ _ _ h ↦ by cases h) ih
  | style _ _ _ ih => exact hcons trivial (fun _ _ _ h ↦ by cases h) ih
  | keyframes _ hhead _ ih => exact hcons ⟨⟨_, rfl⟩, hhead⟩ (fun _ _ _ h ↦ by cases h) ih
  | group _ _ _ _ ihinner ih =>
    refine hcons trivial (fun _ _ _ h ↦ ?_) ih
    cases h
    exact ihinner
  | other _ _ _ ih => exact hcons trivial (fun _ _ _ h ↦ by cases h) ih

theorem isBlank_trailing (s : List Char) :
    ∀ c ∈ (Prelude.ofChars s).trailing, isBlank c = true := by
  obtain ⟨blanks, hblanks, hrest⟩ := exists_blanks_trimEnd (s.drop (triviaLength .gap s))
  have htrailing : (Prelude.ofChars s).trailing = blanks := by
    show (s.drop (triviaLength .gap s)).drop (trimEnd (s.drop (triviaLength .gap s))).length = _
    conv_lhs => enter [2]; rw [hrest]
    exact List.drop_left
  rw [htrailing]
  exact hblanks

theorem word_of_ofChars_eq {head word name : List Char}
    (h : Head.ofChars head = .keyframes word name) : "keyframes".toList <:+ word := by
  rw [Head.ofChars.eq_def] at h
  split at h
  · dsimp only at h
    split at h
    · rename_i hsuffix
      obtain ⟨rfl, -⟩ := Head.keyframes.inj h
      exact List.isSuffixOf_iff_suffix.1 hsuffix
    · split at h <;> cases h
  · cases h

theorem trim_cons_space {name : List Char} (hne : name ≠ [])
    (hname : ∀ c ∈ name, isNameChar c = true) : trim (' ' :: name) = name := by
  have hblank : ∀ c ∈ name, isBlank c = false :=
    fun c hc ↦ isBlank_eq_false_of_isNameChar (hname c hc)
  have hstart : trimStart (' ' :: name) = name := by
    obtain ⟨c, rest, rfl⟩ := List.exists_cons_of_ne_nil hne
    rw [trimStart, List.dropWhile_cons_of_pos (by decide),
      List.dropWhile_cons_of_neg (by rw [hblank c List.mem_cons_self]; decide)]
  rw [trim, hstart]
  refine List.rdropWhile_eq_self_iff.2 fun hlast ↦ ?_
  rw [hblank _ (List.getLast_mem hlast)]
  decide

/-- A head that is written with an identifier declares it. -/
theorem ofChars_keyframes {word name : List Char} (hword : "keyframes".toList <:+ word)
    (hwordChars : ∀ c ∈ word, isNameChar c = true) (hne : name ≠ [])
    (hname : ∀ c ∈ name, isNameChar c = true) :
    Head.ofChars ('@' :: word ++ ' ' :: name) = .keyframes word name := by
  have hends : ∀ c ∈ word, (!(isBlank c || c == '(')) = true := by
    intro c hc
    have hparen : c ≠ '(' := by
      rintro rfl
      exact absurd (hwordChars _ hc) (by decide)
    simp [isBlank_eq_false_of_isNameChar (hwordChars c hc), hparen]
  have hspace : ∀ c ∈ (' ' :: name).head?, (!(isBlank c || c == '(')) = false := fun c hc ↦ by
    cases hc
    decide
  have htake := takeWhile_append_stop hends hspace
  have hdrop := dropWhile_append_stop hends hspace
  rw [List.cons_append, Head.ofChars]
  dsimp only
  rw [htake, hdrop, if_pos (List.isSuffixOf_iff_suffix.2 hword), trim_cons_space hne hname]

/-! ### The scoped stylesheet -/

/-- The renaming of the keyframes that a stylesheet declares. -/
def Stylesheet.renaming (sheet : Stylesheet) (scope : Scope) : Renaming :=
  ⟨scope.suffix, Rule.allKeyframesNames scope sheet.rules⟩

theorem Occurs.mem_allKeyframesNames {opening : Prelude} {word name body : List Char}
    (h : Occurs (.keyframes opening word name body) rules)
    (hname : ¬ scope.suffix <:+ name) : name ∈ Rule.allKeyframesNames scope rules := by
  induction h with
  | head =>
    rw [Rule.allKeyframesNames, Rule.keyframesNames,
      if_neg fun h ↦ hname (List.isSuffixOf_iff_suffix.1 h)]
    exact List.mem_append_left _ (List.mem_singleton_self name)
  | tail _ ih => exact List.mem_append_right _ ih
  | inside _ ih => exact List.mem_append_left _ ih

/-- A scoped stylesheet that declares keyframes is the scoped text after the search, at the place of
each rule. -/
theorem Stands.scoped?_eq {sheet : Stylesheet} (h : Stands scope rule sheet.rules before after)
    (hrule : rule.scoped? scope = some text) (hnames : (sheet.renaming scope).names ≠ []) :
    sheet.scoped? scope = some (renameAnimations (sheet.renaming scope)
      (before ++ (text ++ (after ++ sheet.tail)))) := by
  rw [Stylesheet.scoped?, h.allScoped?_eq hrule]
  simp only [Option.map_some, List.append_assoc]
  cases hall : Rule.allKeyframesNames scope sheet.rules with
  | nil => exact absurd hall hnames
  | cons name names => rw [Stylesheet.renaming, hall]

/-- The search finds a declaration at the place between two texts. -/
structure IsReached (before : List Char) (d : AnimationDeclaration) (after : List Char) : Prop where
  proper : d.IsProper
  stops : Stops after
  opened : openedAfter true before = true
  unreached : Unreached (d.chars ++ after) true before

/-- A value without strings, escapes and comments, in which all white space is that of styles. -/
structure IsPlainValue (value : List Char) : Prop where
  chars : ∀ c ∈ value, c ≠ '"' ∧ c ≠ '\'' ∧ c ≠ '\\'
  comments : ¬ "/*".toList <:+: value
  blanks : ∀ c ∈ value, isBlank c = true → c ∈ [' ', '\t', '\n', '\r', '\x0c']

instance (value : List Char) : Decidable (IsPlainValue value) :=
  have := List.decidableBAll (fun c ↦ c ≠ '"' ∧ c ≠ '\'' ∧ c ≠ '\\') value
  have := List.decidableBAll (fun c ↦ isBlank c = true → c ∈ [' ', '\t', '\n', '\r', '\x0c'])
    value
  decidable_of_iff ((∀ c ∈ value, c ≠ '"' ∧ c ≠ '\'' ∧ c ≠ '\\') ∧ ¬ "/*".toList <:+: value ∧
    ∀ c ∈ value, isBlank c = true → c ∈ [' ', '\t', '\n', '\r', '\x0c'])
    ⟨fun ⟨h1, h2, h3⟩ ↦ ⟨h1, h2, h3⟩, fun h ↦ ⟨h.chars, h.comments, h.blanks⟩⟩

/-- A value afterwards ends nowhere before its end. -/
theorem isValueEnd_rename {d : AnimationDeclaration} {r : Renaming}
    (hsuffix : ∀ c ∈ r.suffix, isNameChar c = true)
    (hd : ∀ c ∈ d.value, isValueEnd c = false) :
    ∀ c ∈ joinWith [','] ((splitAt (· == ',') d.value).map (r.ofPart d.isNameList)),
      isValueEnd c = false := by
  intro c hc
  obtain rfl | ⟨part', hpart', hc⟩ := mem_joinWith hc
  · decide
  · obtain ⟨part, hpart, rfl⟩ := List.mem_map.1 hpart'
    obtain hc | hc | rfl := Renaming.mem_ofPart hsuffix hc
    · exact hd c (mem_of_mem_splitAt hpart c hc).1
    · exact isValueEnd_eq_false (by decide) hc
    · decide

variable {sheet : Stylesheet} {source : List Char} {r : Renaming}

/-- **Keyframes are declared by their new name**, where no declaration reaches over their head. -/
theorem Reads.keyframes_scoped (hread : Reads source sheet) (hr : sheet.renaming scope = r)
    (hsuffix : ∀ c ∈ r.suffix, isNameChar c = true) {opening : Prelude}
    {word name body : List Char}
    (h : Stands scope (.keyframes opening word name body) sheet.rules before after)
    (hword : ∀ c ∈ word, isNameChar c = true) (hname : isIdentifier name = true)
    (hnew : ¬ scope.suffix <:+ name)
    (hplace : Unreached ('@' :: word ++ ' ' :: r.renamed name ++ opening.trailing ++
      '\x7b' :: (body ++ '\x7d' :: after ++ sheet.tail)) true (before ++ opening.leading)) :
    name ∈ r.names ∧
      sheet.scoped? scope = some (renameAnimations r (before ++ opening.leading) ++
        ('@' :: word ++ ' ' :: r.renamed name ++ opening.trailing ++
          '\x7b' :: renameAnimations r (body ++ '\x7d' :: after ++ sheet.tail))) ∧
      Head.ofChars ('@' :: word ++ ' ' :: r.renamed name) = .keyframes word (r.renamed name) := by
  subst hr
  have hmem : name ∈ (sheet.renaming scope).names := h.occurs.mem_allKeyframesNames hnew
  obtain ⟨⟨s, hopening⟩, hhead⟩ := hread.isHeaded _ h.occurs
  obtain ⟨hne, hnameChars⟩ := forall_isNameChar hname
  set r := sheet.renaming scope
  have hrenamed : ∀ c ∈ r.renamed name, isNameChar c = true := by
    intro c hc
    exact (List.mem_append.1 hc).elim (hnameChars c) (hsuffix c)
  refine ⟨hmem, ?_, ofChars_keyframes (word_of_ofChars_eq hhead) hword
    (List.append_ne_nil_of_left_ne_nil hne _) hrenamed⟩
  have hrule : Rule.scoped? scope (.keyframes opening word name body) =
      some (opening.leading ++ '@' :: word ++ ' ' :: r.renamed name ++ opening.trailing ++
        inBraces body) := by
    rw [Rule.scoped?, if_neg fun h ↦ hnew (List.isSuffixOf_iff_suffix.1 h)]
    rfl
  have hcolon : ':' ∉ '@' :: word ++ ' ' :: r.renamed name ++ opening.trailing := by
    have hword' : ':' ∉ word := fun hmem ↦ absurd (hword _ hmem) (by decide)
    have hrenamed' : ':' ∉ r.renamed name := fun hmem ↦ absurd (hrenamed _ hmem) (by decide)
    have htrailing : ':' ∉ opening.trailing := fun hmem ↦
      absurd (isBlank_trailing s _ (hopening ▸ hmem)) (by decide)
    simp [hword', hrenamed', htrailing]
  have hsearch := (renameAt_append r hplace).trans
    (congrArg _ (renameAt_append_brace _ _ hcolon _))
  rw [h.scoped?_eq hrule (List.ne_nil_of_mem hmem)]
  refine congrArg some (Eq.trans (congrArg _ ?_) hsearch)
  simp [inBraces]

/-- **A declaration is rewritten item by item**, where the search finds it: an item follows its
keyframes when their name can be told from the rest of the item. -/
theorem Stands.declaration_scoped (hr : sheet.renaming scope = r)
    (hsuffix : ∀ c ∈ r.suffix, isNameChar c = true) (hne : r.suffix ≠ []) (hnames : r.names ≠ [])
    {opening : Prelude} {front back selectors : List Char} {d : AnimationDeclaration}
    (h : Stands scope (.style opening (front ++ d.chars ++ back)) sheet.rules before after)
    (hselectors : scopeSelectorListChars? opening.head scope.attributeName = some selectors)
    (hvalue : IsPlainValue d.value)
    (hplace : IsReached (before ++ opening.leading ++ selectors ++ opening.trailing ++
      '\x7b' :: front) d (back ++ '\x7d' :: after ++ sheet.tail)) :
    ∃ value, sheet.scoped? scope = some (renameAnimations r
        (before ++ opening.leading ++ selectors ++ opening.trailing ++ '\x7b' :: front) ++
        (d.property ++ d.colon ++ value ++
          renameFrom r 0 (back ++ '\x7d' :: after ++ sheet.tail))) ∧
      (∀ c ∈ value, isValueEnd c = false) ∧
      List.Forall₂ (fun item item' ↦
        r.IsClear d.isNameList item → r.Follows d.isNameList item item')
        (itemsOf d.value) (itemsOf value) := by
  subst hr
  have hrule : Rule.scoped? scope (.style opening (front ++ d.chars ++ back)) =
      some (opening.leading ++ selectors ++ opening.trailing ++
        inBraces (front ++ d.chars ++ back)) := by
    rw [Rule.scoped?, hselectors]
    rfl
  refine ⟨_, ?_, isValueEnd_rename hsuffix hplace.proper.inside, ?_⟩
  · have hsearch := renameAnimations_declaration (sheet.renaming scope) hplace.proper hplace.stops
      hplace.opened hplace.unreached
    rw [h.scoped?_eq hrule hnames]
    refine congrArg some (Eq.trans (congrArg _ ?_) hsearch)
    simp [inBraces]
  · refine (Renaming.forall₂_itemsOf hsuffix fun c hc ↦ ?_).imp ?_
    · exact ⟨(hvalue.chars c hc).1, (hvalue.chars c hc).2.1⟩
    · exact fun item item' hparts hclear ↦ hclear.follows hsuffix hne hparts

/-- **References to keyframes stay resolved.** In the scoped form of a stylesheet that declares
keyframes, every rule has a place. At the place of keyframes the new name is declared, and at the
place of a style rule a declaration refers, item by item, to the new names; an item that refers to
no keyframes of the stylesheet keeps its words. Both hold where the search for declarations looks,
and for values and items in which a declared name can be told from other text. -/
theorem scopeStylesheet?_keyframes {source identity form : String}
    (hidentity : ∀ c ∈ identity.toList, isNameChar c = true)
    (hform : scopeStylesheet? source identity = some form)
    (hnames : ((Stylesheet.ofChars source.toList).renaming (.ofIdentity identity)).names ≠ []) :
    let scope := Scope.ofIdentity identity
    let sheet := Stylesheet.ofChars source.toList
    let r := sheet.renaming scope
    (∀ rule, Occurs rule sheet.rules →
      ∃ before after, Stands scope rule sheet.rules before after) ∧
    (∀ opening word name body before after,
      Stands scope (.keyframes opening word name body) sheet.rules before after →
      (∀ c ∈ word, isNameChar c = true) → isIdentifier name = true → ¬ scope.suffix <:+ name →
      Unreached ('@' :: word ++ ' ' :: r.renamed name ++ opening.trailing ++
        '\x7b' :: (body ++ '\x7d' :: after ++ sheet.tail)) true (before ++ opening.leading) →
      name ∈ r.names ∧ ∃ head rest, form.toList =
        renameAnimations r (before ++ opening.leading) ++
          (head ++ opening.trailing ++ '\x7b' :: rest) ∧
        Head.ofChars head = .keyframes word (r.renamed name)) ∧
    (∀ opening front d back selectors before after,
      Stands scope (.style opening (front ++ d.chars ++ back)) sheet.rules before after →
      scopeSelectorListChars? opening.head scope.attributeName = some selectors →
      IsPlainValue d.value →
      IsReached (before ++ opening.leading ++ selectors ++ opening.trailing ++ '\x7b' :: front) d
        (back ++ '\x7d' :: after ++ sheet.tail) →
      ∃ value, form.toList =
        renameAnimations r
          (before ++ opening.leading ++ selectors ++ opening.trailing ++ '\x7b' :: front) ++
          (d.property ++ d.colon ++ value ++
            renameFrom r 0 (back ++ '\x7d' :: after ++ sheet.tail)) ∧
        (∀ c ∈ value, isValueEnd c = false) ∧
        List.Forall₂ (fun item item' ↦
          r.IsClear d.isNameList item → r.Follows d.isNameList item item')
          (itemsOf d.value) (itemsOf value)) := by
  intro scope sheet r
  have hr : sheet.renaming scope = r := rfl
  have hsuffix : ∀ c ∈ r.suffix, isNameChar c = true :=
    List.forall_mem_cons.2 ⟨by decide, hidentity⟩
  have hchars : sheet.scoped? scope = some form.toList := by
    obtain ⟨chars, hchars, rfl⟩ := Option.map_eq_some_iff.1 hform
    rw [String.toList_ofList]
    exact hchars
  have hread : Reads source.toList sheet := reads_ofChars source.toList
  refine ⟨fun rule hrule ↦ ?_, ?_, ?_⟩
  · obtain ⟨inner, hinner, -⟩ := Option.map_eq_some_iff.1 hchars
    exact hrule.exists_stands hinner
  · intro opening word name body before after h hword hname hnew hplace
    obtain ⟨hmem, hscoped, hhead⟩ := hread.keyframes_scoped hr hsuffix h hword hname hnew hplace
    exact ⟨hmem, _, _, Option.some.inj (hchars.symm.trans hscoped), hhead⟩
  · intro opening front d back selectors before after h hselectors hvalue hplace
    obtain ⟨value, hscoped, hend, hitems⟩ :=
      h.declaration_scoped hr hsuffix (List.cons_ne_nil _ _) hnames hselectors hvalue hplace
    exact ⟨value, Option.some.inj (hchars.symm.trans hscoped), hend, hitems⟩

deriving instance DecidableEq for Prelude

/-- Keyframes in a group, and a shorthand with a list of two items, of which the second one refers
to them and has a function and a priority. -/
def spinSource : List Char :=
  "@media x\x7b@-a-keyframes ".toList ++ "spin\x7b\x7d\x7db\x7b-a-animation:".toList ++
    "fade,spin f(2, end) ".toList ++ "!important\x7d".toList

def spinForm : List Char :=
  "@media x\x7b@-a-keyframes ".toList ++ "spin-y\x7b\x7d\x7db[data-p-y]\x7b".toList ++
    "-a-animation:fade,".toList ++ "spin-y f(2,end) ".toList ++ "!important\x7d".toList

def spinFrames : Rule :=
  .keyframes ⟨[], "@-a-keyframes spin".toList, []⟩ "-a-keyframes".toList "spin".toList []

def spinDeclaration : AnimationDeclaration :=
  ⟨"-a-animation".toList, false, [':'], "fade,spin f(2, end) !important".toList⟩

def spinSheet : Stylesheet :=
  ⟨[.group ⟨[], "@media x".toList, []⟩ [spinFrames] [],
    .style ⟨[], ['b'], []⟩ ([] ++ spinDeclaration.chars ++ [])], []⟩

/-- Whether a stylesheet is `spinSheet`. -/
def isSpinSheet : Stylesheet → Bool
  | ⟨[.group media [.keyframes frames word name body] tail, .style opening declarations], rest⟩ =>
    decide (media = ⟨[], "@media x".toList, []⟩ ∧ frames = ⟨[], "@-a-keyframes spin".toList, []⟩ ∧
      word = "-a-keyframes".toList ∧ name = "spin".toList ∧ body = [] ∧ tail = [] ∧
      opening = ⟨[], ['b'], []⟩ ∧ declarations = [] ++ spinDeclaration.chars ++ [] ∧ rest = [])
  | _ => false

theorem eq_spinSheet_of_isSpinSheet (h : isSpinSheet sheet = true) : sheet = spinSheet := by
  rw [isSpinSheet.eq_def] at h
  split at h
  · obtain ⟨rfl, rfl, rfl, rfl, rfl, rfl, rfl, rfl, rfl⟩ := of_decide_eq_true h
    rfl
  · cases h

theorem ofChars_spinSource : Stylesheet.ofChars spinSource = spinSheet :=
  eq_spinSheet_of_isSpinSheet (by decide +kernel)

theorem isProper_spinDeclaration : spinDeclaration.IsProper := by
  have hvendor : ∀ c ∈ ['a'], isWord c = true := List.all_eq_true.1 (by decide)
  have hinside : spinDeclaration.value.any isValueEnd = false := by decide +kernel
  exact {
    property := ⟨"-a-".toList, .inr ⟨['a'], by decide, hvendor, by decide⟩, by decide⟩
    colon := ⟨[], [], nofun, nofun, rfl⟩
    begins := ⟨'f', "ade,spin f(2, end) !important".toList, by decide, by decide⟩
    inside := fun c hc ↦ eq_false_of_ne_true (List.any_eq_false.1 hinside c hc) }

theorem stands_spinFrames :
    Stands (.ofIdentity "y") spinFrames spinSheet.rules
      (Prelude.chars ⟨[], "@media x".toList, []⟩ ++ ['\x7b'])
      ([] ++ [] ++ '\x7d' :: ("b[data-p-y]\x7b".toList ++ spinDeclaration.chars ++ ['\x7d'])) :=
  .inside (.head rfl) (by decide +kernel)

theorem stands_spinRule :
    Stands (.ofIdentity "y") (.style ⟨[], ['b'], []⟩ ([] ++ spinDeclaration.chars ++ []))
      spinSheet.rules ("@media x\x7b@-a-keyframes spin-y\x7b\x7d\x7d".toList ++ []) [] :=
  .tail (by decide +kernel) (.head rfl)

theorem scopeStylesheet?_keyframes_spin :
    (∀ c ∈ ['y'], isNameChar c = true) ∧
      scopeStylesheet? (.ofList spinSource) "y" = some (.ofList spinForm) ∧
      (spinSheet.renaming (.ofIdentity "y")).names = ["spin".toList] ∧
      (∃ head rest, spinForm = "@media x\x7b".toList ++ (head ++ '\x7b' :: rest) ∧
        Head.ofChars head = .keyframes "-a-keyframes".toList "spin-y".toList) ∧
      ∃ value rest, spinForm =
          "@media x\x7b@-a-keyframes spin-y\x7b\x7d\x7db[data-p-y]\x7b".toList ++
            ("-a-animation:".toList ++ value ++ rest) ∧
        (itemsOf value).map (reference? false) = [some "fade".toList, some "spin-y".toList] := by
  have hidentity : ∀ c ∈ "y".toList, isNameChar c = true := List.all_eq_true.1 (by decide)
  have hform : scopeStylesheet? (.ofList spinSource) "y" = some (.ofList spinForm) := by
    have hscoped : spinSheet.scoped? (.ofIdentity "y") = some spinForm := by decide +kernel
    rw [scopeStylesheet?, String.toList_ofList, ofChars_spinSource, hscoped]
    rfl
  have hnames : (spinSheet.renaming (.ofIdentity "y")).names = ["spin".toList] := by decide +kernel
  refine ⟨hidentity, hform, hnames, ?_⟩
  have hall := scopeStylesheet?_keyframes hidentity hform
    (by rw [String.toList_ofList, ofChars_spinSource, hnames]; exact List.cons_ne_nil _ _)
  rw [String.toList_ofList, String.toList_ofList, ofChars_spinSource] at hall
  obtain ⟨-, hframes, hstyle⟩ := hall
  set r := spinSheet.renaming (.ofIdentity "y")
  constructor
  · have hword : ∀ c ∈ "-a-keyframes".toList, isNameChar c = true := List.all_eq_true.1 (by decide)
    obtain ⟨-, head, rest, htext, hhead⟩ := hframes _ _ _ _ _ _ stands_spinFrames hword
      (by decide +kernel) (by decide +kernel) (by decide +kernel)
    have hfront : renameAnimations r (Prelude.chars ⟨[], "@media x".toList, []⟩ ++ ['\x7b'] ++ []) =
        "@media x\x7b".toList := by decide +kernel
    refine ⟨head, rest, ?_, hhead⟩
    rw [htext, hfront, List.append_nil]
  · have hselectors : scopeSelectorListChars? ['b'] (Scope.ofIdentity "y").attributeName =
        some "b[data-p-y]".toList := by decide +kernel
    obtain ⟨value, htext, -, hitems⟩ := hstyle _ _ _ _ _ _ _ stands_spinRule hselectors
      (by decide +kernel)
      ⟨isProper_spinDeclaration, by decide, by decide +kernel, by decide +kernel⟩
    have hfront : renameAnimations r ("@media x\x7b@-a-keyframes spin-y\x7b\x7d\x7d".toList ++ [] ++
        [] ++ "b[data-p-y]".toList ++ [] ++ '\x7b' :: []) =
        "@media x\x7b@-a-keyframes spin-y\x7b\x7d\x7db[data-p-y]\x7b".toList := by decide +kernel
    have hproperty : spinDeclaration.property ++ spinDeclaration.colon =
        "-a-animation:".toList := by decide
    refine ⟨value, _, by rw [htext, hfront, hproperty], ?_⟩
    have hvalue : itemsOf spinDeclaration.value =
        ["fade".toList, "spin f(2, end) !important".toList] := by decide +kernel
    rw [hvalue] at hitems
    generalize itemsOf value = items at hitems
    cases hitems with
    | cons hfade hrest =>
      cases hrest with
      | cons hspin hnil =>
        cases hnil
        have hkeeps := (hfade (by decide +kernel)).keeps (by decide +kernel)
        obtain ⟨hrenames, -⟩ := (hspin (by decide +kernel)).renames "spin".toList
          (by decide +kernel) (by decide +kernel)
        have hfade' : reference? false "fade".toList = some "fade".toList := by decide +kernel
        have hspin' : r.renamed "spin".toList = "spin-y".toList := by decide +kernel
        rw [List.map_cons, List.map_cons, List.map_nil, reference?, hkeeps, ← reference?, hfade']
        exact congrArg ([_, ·]) (hrenames.trans (congrArg some hspin'))

end AppletBundle.Style
