import AppletBundle.Proofs.Style.Ownership

/-!
# Looking for forms

A form is looked for by its name, at every place of a selector. An occurrence counts if no longer
identifier goes on after it and if it is not the end of the same name with two colons: the text then
uses the form (`UsesName`), and the search finds nothing exactly if it is not used
(`findPseudo_eq_none_iff`). A selector that uses no form at all gets the attribute and is otherwise
left as it is (`IsFormFree.scopeSelectorChars?_eq`).

Names hold no space and no parenthesis, so nothing that stands on one side of such a character
decides what is found on the other (`findName_append_separator`).
-/

namespace AppletBundle.Style

open AppletBundle.Text

variable {name front rest t left right : List Char} {previous : Option Char}

/-! ### One occurrence after the other -/

/-- No occurrence of a name begins inside another one. -/
def NoOverlap (name : List Char) : Prop :=
  ∀ k < name.length, 0 < k → ¬ name.drop k <+: name

instance (name : List Char) : Decidable (NoOverlap name) :=
  inferInstanceAs (Decidable (∀ k < name.length, 0 < k → ¬ name.drop k <+: name))

/-- A form with more text in front. -/
def PseudoMatch.prepend (front : List Char) (m : PseudoMatch) : PseudoMatch :=
  { m with before := front ++ m.before }

theorem getLast?_cons_or (c : Char) (front : List Char) (previous : Option Char) :
    (c :: front).getLast?.or previous = front.getLast?.or (some c) := by
  rw [List.getLast?_cons]
  cases front.getLast? <;> rfl

theorem findName_cons_of_not {c : Char} (h : ¬ name <+: c :: rest) :
    findName name previous (c :: rest) = (findName name (some c) rest).map (·.prepend [c]) := by
  rw [← List.isPrefixOf_iff_prefix] at h
  rw [findName, Bool.eq_false_iff.2 h]
  rfl

/-- A part in which no occurrence of the name begins. -/
theorem findName_append (h : ∀ k < front.length, ¬ name <+: (front ++ rest).drop k) :
    findName name previous (front ++ rest) =
      (findName name (front.getLast?.or previous) rest).map (·.prepend front) := by
  induction front generalizing previous with
  | nil => exact (Option.map_id' (x := findName name previous rest)).symm
  | cons c front ih =>
    have hfirst : ¬ name <+: c :: (front ++ rest) := h 0 (Nat.succ_pos _)
    have hrest : ∀ k < front.length, ¬ name <+: (front ++ rest).drop k :=
      fun k hk ↦ h (k + 1) (Nat.succ_lt_succ hk)
    rw [List.cons_append, findName_cons_of_not hfirst, ih hrest, getLast?_cons_or, Option.map_map]
    rfl

theorem NoOverlap.not_prefix (h : NoOverlap name) {k : ℕ} (hk : k < name.length) (hpos : 0 < k)
    (rest : List Char) : ¬ name <+: (name ++ rest).drop k := by
  intro hbegins
  rw [List.drop_append_of_le_length (Nat.le_of_lt hk)] at hbegins
  refine h k hk hpos (List.prefix_of_prefix_length_le (List.prefix_append _ rest) hbegins ?_)
  rw [List.length_drop]
  exact Nat.sub_le _ _

/-- What a search finds at an occurrence of the name, or after it. -/
theorem findName_occurrence {c : Char} (hname : NoOverlap (c :: name)) :
    findName (c :: name) previous (c :: name ++ right) =
      if !right.head?.any isIdentChar && !isTailOfLonger (c :: name) previous then
        some ⟨[], (readArgument right).1, (readArgument right).2⟩
      else
        (findName (c :: name) (c :: name).getLast? right).map (·.prepend (c :: name)) := by
  have hbegins : (c :: name).isPrefixOf (c :: (name ++ right)) = true :=
    List.isPrefixOf_iff_prefix.2 (List.prefix_append (c :: name) right)
  have hdrop : (c :: (name ++ right)).drop (c :: name).length = right := List.drop_left
  have hinner : ∀ k < name.length, ¬ c :: name <+: (name ++ right).drop k :=
    fun k hk ↦ hname.not_prefix (Nat.succ_lt_succ hk) (Nat.succ_pos k) right
  have hlast := getLast?_cons_or c name none
  rw [Option.or_none] at hlast
  rw [List.cons_append, findName, hbegins, hdrop, Bool.true_and, findName_append hinner, ← hlast,
    Option.map_map]
  rfl

/-- No occurrence of a pattern begins before the first one. -/
theorem not_prefix_of_splitAtFirst {pattern : List Char}
    (h : splitAtFirst pattern t = some (left, right)) :
    ∀ k < left.length, ¬ pattern <+: t.drop k := by
  induction t generalizing left with
  | nil =>
    unfold splitAtFirst at h
    split at h
    · obtain ⟨rfl, -⟩ := Prod.ext_iff.1 (Option.some.inj h)
      exact fun k hk ↦ absurd hk (Nat.not_lt_zero k)
    · cases h
  | cons c t ih =>
    unfold splitAtFirst at h
    split at h
    · obtain ⟨rfl, -⟩ := Prod.ext_iff.1 (Option.some.inj h)
      exact fun k hk ↦ absurd hk (Nat.not_lt_zero k)
    · rename_i hfirst
      obtain ⟨⟨left', right'⟩, hsplit, heq⟩ := Option.map_eq_some_iff.1 h
      obtain ⟨rfl, rfl⟩ := Prod.ext_iff.1 heq
      rintro (- | k) hk
      · rwa [List.isPrefixOf_iff_prefix] at hfirst
      · exact ih hsplit k (Nat.lt_of_succ_lt_succ hk)

theorem findName_eq_none_of_splitAtFirst (h : splitAtFirst name t = none) :
    findName name previous t = none := by
  induction t generalizing previous with
  | nil => rfl
  | cons c t ih =>
    unfold splitAtFirst at h
    split at h
    · cases h
    · rename_i hfirst
      rw [List.isPrefixOf_iff_prefix] at hfirst
      rw [findName_cons_of_not hfirst, ih (Option.map_eq_none_iff.1 h)]
      rfl

/-! ### Forms that are used -/

/-- An occurrence of a name with some text in front and behind is a use of the form. -/
def IsUse (name : List Char) (previous next : Option Char) : Prop :=
  next.any isIdentChar = false ∧ isTailOfLonger name previous = false

instance (name : List Char) (previous next : Option Char) : Decidable (IsUse name previous next) :=
  inferInstanceAs (Decidable (_ ∧ _))

/-- A text uses a form by a name: the name occurs, no longer identifier goes on after it, and it is
not the end of the same name with two colons. -/
def UsesName (name t : List Char) : Prop :=
  ∃ front rest, t = front ++ name ++ rest ∧ IsUse name front.getLast? rest.head?

/-- One step of the search. -/
theorem findName_cons (name : List Char) (previous : Option Char) (c : Char) (t : List Char) :
    findName name previous (c :: t) =
      if name <+: c :: t ∧ IsUse name previous ((c :: t).drop name.length).head? then
        some ⟨[], (readArgument ((c :: t).drop name.length)).1,
          (readArgument ((c :: t).drop name.length)).2⟩
      else (findName name (some c) t).map (·.prepend [c]) := by
  rw [findName]
  dsimp only
  refine if_congr ?_ rfl rfl
  rw [Bool.and_eq_true, Bool.and_eq_true, List.isPrefixOf_iff_prefix, and_assoc,
    Bool.not_eq_true', Bool.not_eq_true']
  rfl

/-- **The search finds nothing exactly if the form is not used.** -/
theorem findName_eq_none_iff (hname : name ≠ []) :
    findName name previous t = none ↔
      ∀ front rest, t = front ++ name ++ rest →
        ¬ IsUse name (front.getLast?.or previous) rest.head? := by
  induction t generalizing previous with
  | nil =>
    refine iff_of_true rfl fun front rest h ↦ absurd h.symm ?_
    simp [hname]
  | cons c t ih =>
    rw [findName_cons]
    split
    · rename_i huse
      obtain ⟨rest, hrest⟩ := huse.1
      refine iff_of_false (Option.some_ne_none _) fun h ↦ h [] rest hrest.symm ?_
      rw [← hrest, List.drop_left] at huse
      exact huse.2
    · rename_i huse
      rw [Option.map_eq_none_iff, ih]
      constructor
      · rintro h (- | ⟨c', front⟩) rest hsplit
        · rintro hrest
          refine huse ⟨⟨rest, hsplit.symm⟩, ?_⟩
          rw [hsplit, List.nil_append, List.drop_left]
          exact hrest
        · obtain ⟨rfl, htail⟩ := List.cons.inj hsplit
          rw [getLast?_cons_or]
          exact h front rest htail
      · intro h front rest hsplit
        rw [← getLast?_cons_or c front previous]
        exact h (c :: front) rest (congrArg (c :: ·) hsplit)

theorem findName_eq_none_iff_not_usesName (hname : name ≠ []) :
    findName name none t = none ↔ ¬ UsesName name t := by
  rw [findName_eq_none_iff hname]
  simp only [Option.or_none]
  exact ⟨fun h ⟨front, rest, hsplit, huse⟩ ↦ h front rest hsplit huse,
    fun h front rest hsplit huse ↦ h ⟨front, rest, hsplit, huse⟩⟩

theorem splitAtFirst_eq_none_iff {pattern : List Char} :
    splitAtFirst pattern t = none ↔ ¬ pattern <:+: t := by
  induction t with
  | nil => cases pattern <;> simp [splitAtFirst]
  | cons c t ih =>
    rw [splitAtFirst, List.infix_cons_iff, not_or, ← ih, ← List.isPrefixOf_iff_prefix]
    split
    · rename_i hfirst
      exact iff_of_false (Option.some_ne_none _) fun h ↦ h.1 hfirst
    · rename_i hfirst
      rw [Option.map_eq_none_iff]
      exact ⟨fun h ↦ ⟨hfirst, h⟩, And.right⟩

/-! ### Selectors without forms -/

/-- The names of the forms. -/
def pseudoNames : List String :=
  ["::v-global", ":global", "::v-deep", ":deep", "::v-slotted", ":slotted"]

/-- The combinators that pierce. -/
def piercingCombinators : List String :=
  [">>>", "/deep/"]

/-- A text that uses no form and no combinator that pierces. -/
structure IsFormFree (t : List Char) : Prop where
  names : ∀ name ∈ pseudoNames, ¬ UsesName name.toList t
  combinators : ∀ combinator ∈ piercingCombinators, ¬ combinator.toList <:+: t

theorem pseudoNames_ne_nil : ∀ name ∈ pseudoNames, name.toList ≠ [] := by
  decide

/-- The same condition, in terms of the searches. -/
theorem isFormFree_iff :
    IsFormFree t ↔ (∀ name ∈ pseudoNames, findName name.toList none t = none) ∧
      ∀ combinator ∈ piercingCombinators, splitAtFirst combinator.toList t = none := by
  have hnames : (∀ name ∈ pseudoNames, findName name.toList none t = none) ↔
      ∀ name ∈ pseudoNames, ¬ UsesName name.toList t :=
    forall₂_congr fun name hname ↦
      findName_eq_none_iff_not_usesName (pseudoNames_ne_nil name hname)
  simp only [hnames, splitAtFirst_eq_none_iff]
  exact ⟨fun h ↦ ⟨h.names, h.combinators⟩, fun h ↦ ⟨h.1, h.2⟩⟩

instance (t : List Char) : Decidable (IsFormFree t) :=
  have (m : Option PseudoMatch) : Decidable (m = none) :=
    decidable_of_iff (m.isNone = true) Option.isNone_iff_eq_none
  decidable_of_iff _ isFormFree_iff.symm

theorem findPseudo_eq_none_iff {names : List String} :
    findPseudo names t = none ↔ ∀ name ∈ names, findName name.toList none t = none :=
  List.findSome?_eq_none_iff

/-- **A selector without forms gets the attribute**, and nothing else happens to it. -/
theorem IsFormFree.scopeSelectorChars?_eq (h : IsFormFree t) (attr : List Char) :
    scopeSelectorChars? t attr = some (injectAttribute t attr) := by
  obtain ⟨hnames, hcombinators⟩ := isFormFree_iff.1 h
  have hnone : ∀ names : List String, (∀ name ∈ names, name ∈ pseudoNames) →
      findPseudo names t = none :=
    fun names hsub ↦ findPseudo_eq_none_iff.2 fun name hname ↦ hnames name (hsub name hname)
  rw [scopeSelectorChars?, hnone _ (by decide)]
  dsimp only
  rw [scopeDeep?, hcombinators ">>>" (by decide), hcombinators "/deep/" (by decide),
    hnone _ (by decide)]
  dsimp only
  rw [scopeSlotted?, hnone _ (by decide)]

/-! ### Separators -/

/-- A character that stands in no name of a form and ends every identifier. -/
structure Separates (sep : Char) (name : List Char) : Prop where
  not_mem : sep ∉ name
  notIdent : isIdentChar sep = false
  notColon : sep ≠ ':'

instance (sep : Char) (name : List Char) : Decidable (Separates sep name) :=
  decidable_of_iff (sep ∉ name ∧ isIdentChar sep = false ∧ sep ≠ ':')
    ⟨fun h ↦ ⟨h.1, h.2.1, h.2.2⟩, fun h ↦ ⟨h.not_mem, h.notIdent, h.notColon⟩⟩

variable {sep : Char}

theorem prefix_append_separator_iff (hsep : sep ∉ name) :
    name <+: t ++ sep :: rest ↔ name <+: t := by
  refine ⟨fun h ↦ ?_, fun h ↦ h.trans (List.prefix_append _ _)⟩
  have hfront : t ++ [sep] <+: t ++ sep :: rest := ⟨rest, by simp⟩
  rcases List.prefix_or_prefix_of_prefix h hfront with h | h
  · rcases List.prefix_concat_iff.1 h with rfl | h
    · exact absurd (by simp) hsep
    · exact h
  · exact absurd (h.subset (by simp)) hsep

/-- Whether a name is used at the beginning of a text is decided in front of a separator. -/
theorem isUse_append_separator_iff (hsep : Separates sep name) :
    name <+: t ++ sep :: rest ∧
        IsUse name previous ((t ++ sep :: rest).drop name.length).head? ↔
      name <+: t ∧ IsUse name previous (t.drop name.length).head? := by
  rw [prefix_append_separator_iff hsep.not_mem]
  refine and_congr_right fun hname ↦ ?_
  obtain ⟨back, rfl⟩ := hname
  rw [List.append_assoc, List.drop_left, List.drop_left]
  rcases back with - | ⟨c, back⟩
  · have hnext : (some sep).any isIdentChar = false := hsep.notIdent
    exact and_congr_left fun _ ↦ iff_of_true hnext rfl
  · rfl

/-- What stands in front of a separator, and uses no form, is passed over. -/
theorem findName_append_separator (hname : name ≠ []) (hsep : Separates sep name)
    (h : findName name previous front = none) :
    findName name previous (front ++ sep :: rest) =
      (findName name (some sep) rest).map (·.prepend (front ++ [sep])) := by
  induction front generalizing previous with
  | nil =>
    have hbegins : ¬ name <+: sep :: rest := fun hbegins ↦
      hname (List.prefix_nil.1 ((prefix_append_separator_iff (t := []) hsep.not_mem).1 hbegins))
    exact findName_cons_of_not hbegins
  | cons c front ih =>
    have huse : name <+: c :: (front ++ sep :: rest) ∧
          IsUse name previous ((c :: (front ++ sep :: rest)).drop name.length).head? ↔
        name <+: c :: front ∧ IsUse name previous ((c :: front).drop name.length).head? :=
      isUse_append_separator_iff (t := c :: front) hsep
    rw [List.cons_append, findName_cons]
    rw [findName_cons] at h
    split at h
    · exact absurd h (Option.some_ne_none _)
    · rename_i hnot
      rw [if_neg fun hfound ↦ hnot (huse.1 hfound), ih (Option.map_eq_none_iff.1 h),
        Option.map_map]
      rfl

/-- A separator in front is as good as nothing. -/
theorem findName_some_separator (hsep : Separates sep name) (t : List Char) :
    findName name (some sep) t = findName name none t := by
  have htail : isTailOfLonger name (some sep) = isTailOfLonger name none := by
    simp [isTailOfLonger, hsep.notColon]
  cases t with
  | nil => rfl
  | cons c t => rw [findName, findName, htail]

theorem findName_append_separator_eq_none (hname : name ≠ []) (hsep : Separates sep name)
    (hfront : findName name none front = none) (hrest : findName name none rest = none) :
    findName name none (front ++ sep :: rest) = none := by
  rw [findName_append_separator hname hsep hfront, findName_some_separator hsep, hrest]
  rfl

theorem splitAtFirst_append_separator {pattern : List Char} (hpattern : pattern ≠ [])
    (hsep : sep ∉ pattern) (h : splitAtFirst pattern front = none) :
    splitAtFirst pattern (front ++ sep :: rest) =
      (splitAtFirst pattern rest).map fun r ↦ (front ++ sep :: r.1, r.2) := by
  induction front with
  | nil =>
    have hbegins : ¬ pattern.isPrefixOf (sep :: rest) = true := fun hbegins ↦ by
      rw [List.isPrefixOf_iff_prefix] at hbegins
      exact hpattern (List.prefix_nil.1 ((prefix_append_separator_iff (t := []) hsep).1 hbegins))
    rw [List.nil_append, splitAtFirst, if_neg hbegins]
    rfl
  | cons c front ih =>
    have hbegins : pattern <+: c :: (front ++ sep :: rest) ↔ pattern <+: c :: front :=
      prefix_append_separator_iff (t := c :: front) hsep
    rw [List.cons_append]
    simp only [splitAtFirst, List.isPrefixOf_iff_prefix] at h ⊢
    split at h
    · exact absurd h (Option.some_ne_none _)
    · rename_i hnot
      rw [if_neg fun hfound ↦ hnot (hbegins.1 hfound), ih (Option.map_eq_none_iff.1 h),
        Option.map_map]
      rfl

end AppletBundle.Style
