import AppletBundle.Proofs.Style.Forms
import AppletBundle.Proofs.Style.Groups

/-!
# Spellings of the deep combinator

A deep selector is written with one of two combinators that pierce, with a form that has the inner
selector as its argument, or with the bare name of the form. All of them mean the same: the left side
is scoped as a selector of its own, and the right side follows it as it is
(`scopeSelector?_deep_spellings`). A blank left side is an attribute alone.

What the scoping finds first depends on the spelling alone, as neither side uses a form. The spaces
and parentheses around the sides keep an occurrence from lying across an edge (`findName_around`), and
the argument reaches to the last parenthesis since it is balanced (`readArgument_of_isBalanced`).
-/

namespace AppletBundle.Style

open AppletBundle.Text

variable {left right mark : List Char} {edge : Char}

/-- The left side of a deep selector is scoped as it would be alone. -/
theorem joinDeep_space (left right attr : List Char) :
    joinDeep (left ++ [' ']) right attr = injectAttribute left attr ++ ' ' :: right := by
  have hleft : trim (trimEnd (left ++ [' '])) = trim left := by
    rw [trim_trimEnd, trim_append_blanks (forall_mem_of_all (by decide))]
  rw [joinDeep_eq, List.append_assoc]
  unfold injectAttribute
  rw [hleft]
  rfl

theorem trimStart_space (htrim : trim right = right) : trimStart (' ' :: right) = right := by
  rw [← htrim]
  exact trimStart_trim right

theorem injectAttribute_of_trim_eq_nil {t : List Char} (ht : trim t = []) (attr : List Char) :
    injectAttribute t attr = attributeSelector attr := by
  unfold injectAttribute
  rw [ht]
  exact List.append_nil _

/-! ### Edges -/

/-- The characters that stand between the sides of a deep selector and what joins them. -/
def edgeChars : List Char :=
  [' ', '(', ')']

theorem separates_of_mem_edgeChars :
    ∀ name ∈ pseudoNames, ∀ edge ∈ edgeChars, Separates edge name.toList := by
  have hall : ∀ name ∈ pseudoNames, edgeChars.all (Separates · name.toList) = true := by decide
  exact fun name hname ↦ forall_mem_of_all (hall name hname)

theorem not_mem_of_mem_edgeChars :
    ∀ combinator ∈ piercingCombinators, combinator.toList ≠ [] ∧
      ∀ edge ∈ edgeChars, edge ∉ combinator.toList := by
  have hall : ∀ combinator ∈ piercingCombinators, combinator.toList ≠ [] ∧
      edgeChars.all (· ∉ combinator.toList) = true := by decide
  exact fun combinator hmem ↦ (hall combinator hmem).imp id forall_mem_of_all

theorem IsFormFree.append_edge (hleft : IsFormFree left) (hright : IsFormFree right) {edge : Char}
    (hedge : edge ∈ edgeChars) : IsFormFree (left ++ edge :: right) := by
  rw [isFormFree_iff] at hleft hright ⊢
  refine ⟨fun name hname ↦ ?_, fun combinator hcombinator ↦ ?_⟩
  · exact findName_append_separator_eq_none (pseudoNames_ne_nil name hname)
      (separates_of_mem_edgeChars name hname edge hedge) (hleft.1 name hname) (hright.1 name hname)
  · obtain ⟨hne, hnot⟩ := not_mem_of_mem_edgeChars combinator hcombinator
    rw [splitAtFirst_append_separator hne (hnot edge hedge) (hleft.2 combinator hcombinator),
      hright.2 combinator hcombinator]
    rfl

/-- A deep selector: two sides and what joins them, with a space in front and an edge behind. -/
def deepText (left mark : List Char) (edge : Char) (right : List Char) : List Char :=
  left ++ ' ' :: (mark ++ edge :: right)

/-- A form that is used neither by the sides nor by what joins them is not found. -/
theorem findName_around (hleft : IsFormFree left) (hright : IsFormFree right)
    (hedge : edge ∈ edgeChars) {name : String} (hname : name ∈ pseudoNames)
    (hmark : findName name.toList none mark = none) :
    findName name.toList none (deepText left mark edge right) = none := by
  have hne := pseudoNames_ne_nil name hname
  refine findName_append_separator_eq_none hne
    (separates_of_mem_edgeChars name hname ' ' (by decide)) ((isFormFree_iff.1 hleft).1 name hname) ?_
  exact findName_append_separator_eq_none hne (separates_of_mem_edgeChars name hname edge hedge)
    hmark ((isFormFree_iff.1 hright).1 name hname)

theorem findPseudo_around (hleft : IsFormFree left) (hright : IsFormFree right)
    (hedge : edge ∈ edgeChars) {names : List String} (hnames : ∀ name ∈ names, name ∈ pseudoNames)
    (hmark : findPseudo names mark = none) :
    findPseudo names (deepText left mark edge right) = none :=
  findPseudo_eq_none_iff.2 fun name hname ↦
    findName_around hleft hright hedge (hnames name hname)
      (findPseudo_eq_none_iff.1 hmark name hname)

theorem splitAtFirst_around (hleft : IsFormFree left) (hright : IsFormFree right)
    (hedge : edge ∈ edgeChars) {combinator : String} (hcombinator : combinator ∈ piercingCombinators)
    (hmark : splitAtFirst combinator.toList mark = none) :
    splitAtFirst combinator.toList (deepText left mark edge right) = none := by
  obtain ⟨hne, hnot⟩ := not_mem_of_mem_edgeChars combinator hcombinator
  rw [deepText, splitAtFirst_append_separator hne (hnot ' ' (by decide))
      ((isFormFree_iff.1 hleft).2 combinator hcombinator),
    splitAtFirst_append_separator hne (hnot edge hedge) hmark,
    (isFormFree_iff.1 hright).2 combinator hcombinator]
  rfl

/-! ### The spellings -/

/-- A combinator that pierces is found where it joins the sides. -/
theorem splitAtFirst_mark (hleft : IsFormFree left) {combinator : String}
    (hcombinator : combinator ∈ piercingCombinators) :
    splitAtFirst combinator.toList (deepText left combinator.toList edge right) =
      some (left ++ [' '], edge :: right) := by
  obtain ⟨hne, hnot⟩ := not_mem_of_mem_edgeChars combinator hcombinator
  have hmark : splitAtFirst combinator.toList (combinator.toList ++ edge :: right) =
      some ([], edge :: right) := by
    obtain ⟨c, rest, hcons⟩ := List.exists_cons_of_ne_nil hne
    have hbegins : (c :: rest).isPrefixOf (c :: (rest ++ edge :: right)) = true :=
      List.isPrefixOf_iff_prefix.2 (List.prefix_append (c :: rest) _)
    rw [hcons, List.cons_append, splitAtFirst, if_pos hbegins, ← List.cons_append, List.drop_left]
  rw [deepText, splitAtFirst_append_separator hne (hnot ' ' (by decide))
    ((isFormFree_iff.1 hleft).2 combinator hcombinator), hmark]
  rfl

/-- A form is found where it joins the sides. -/
theorem findName_mark (hleft : IsFormFree left) (hedge : edge ∈ edgeChars) {name : String}
    (hname : name ∈ pseudoNames) :
    findName name.toList none (deepText left name.toList edge right) =
      some ⟨left ++ [' '], (readArgument (edge :: right)).1, (readArgument (edge :: right)).2⟩ := by
  have hne := pseudoNames_ne_nil name hname
  have hspace := separates_of_mem_edgeChars name hname ' ' (by decide)
  have huse : IsUse name.toList none (some edge) :=
    ⟨(separates_of_mem_edgeChars name hname edge hedge).notIdent, rfl⟩
  have hmark : findName name.toList none (name.toList ++ edge :: right) =
      some ⟨[], (readArgument (edge :: right)).1, (readArgument (edge :: right)).2⟩ := by
    obtain ⟨c, rest, hcons⟩ := List.exists_cons_of_ne_nil hne
    rw [hcons] at huse ⊢
    have hdrop : (c :: (rest ++ edge :: right)).drop (c :: rest).length = edge :: right :=
      List.drop_left
    rw [List.cons_append, findName_cons, hdrop, if_pos ⟨List.prefix_append (c :: rest) _, huse⟩]
  rw [deepText, findName_append_separator hne hspace ((isFormFree_iff.1 hleft).1 name hname),
    findName_some_separator hspace, hmark]
  simp [PseudoMatch.prepend]

/-- Balanced text between two parentheses is an argument. -/
theorem readArgument_of_isBalanced (h : IsBalanced .parenthesis right) :
    readArgument ('(' :: (right ++ [')'])) = (.present right, []) := by
  have hclose : closeGroup? '(' ')' .outside 0 (right ++ [')']) = some (right, []) :=
    h.closeGroup?_closer []
  rw [readArgument, hclose]

/-- The names of deep forms, in the order in which they are looked for. -/
theorem findPseudo_mark (hleft : IsFormFree left) (hright : IsFormFree right)
    (hedge : edge ∈ edgeChars) {name : String} (hname : name ∈ ["::v-deep", ":deep"]) :
    findPseudo ["::v-deep", ":deep"] (deepText left name.toList edge right) =
      some ⟨left ++ [' '], (readArgument (edge :: right)).1, (readArgument (edge :: right)).2⟩ := by
  rw [findPseudo, List.findSome?_cons]
  rw [List.mem_cons, List.mem_singleton] at hname
  rcases hname with rfl | rfl
  · rw [findName_mark hleft hedge (by decide)]
  · rw [findName_around hleft hright hedge (by decide) (by rfl)]
    dsimp only
    rw [List.findSome?_cons, findName_mark hleft hedge (by decide)]

/-- With a combinator that pierces. -/
theorem scopeSelectorChars?_pierced (hleft : IsFormFree left) (hright : IsFormFree right)
    (htrim : trim right = right) (combinator : String)
    (hcombinator : combinator ∈ piercingCombinators) (attr : List Char) :
    scopeSelectorChars? (deepText left combinator.toList ' ' right) attr =
      some (injectAttribute left attr ++ ' ' :: right) := by
  have hspace : ' ' ∈ edgeChars := by decide
  have hfound : splitAtFirst combinator.toList (deepText left combinator.toList ' ' right) =
      some (left ++ [' '], ' ' :: right) := splitAtFirst_mark hleft hcombinator
  rw [piercingCombinators, List.mem_cons, List.mem_singleton] at hcombinator
  rcases hcombinator with rfl | rfl
  · rw [scopeSelectorChars?, findPseudo_around hleft hright hspace (by decide) (by rfl)]
    dsimp only
    rw [scopeDeep?, hfound]
    dsimp only
    rw [joinDeep_space, trimStart_space htrim]
  · rw [scopeSelectorChars?, findPseudo_around hleft hright hspace (by decide) (by rfl)]
    dsimp only
    rw [scopeDeep?, splitAtFirst_around hleft hright hspace (by decide) (by rfl), hfound]
    dsimp only
    rw [joinDeep_space, trimStart_space htrim]

/-- With a form, whose argument, if it has one, is the right side. -/
theorem scopeSelectorChars?_deepForm (hleft : IsFormFree left) (hright : IsFormFree right)
    (hedge : edge ∈ edgeChars) {name : String} (hname : name ∈ ["::v-deep", ":deep"])
    (attr : List Char) :
    scopeSelectorChars? (deepText left name.toList edge right) attr =
      match readArgument (edge :: right) with
      | (.present argument, after) =>
        some (injectAttribute left attr ++ ' ' :: (trim argument ++ after))
      | (.absent, after) => some (injectAttribute left attr ++ ' ' :: trimStart after)
      | (.broken, _) => none := by
  have hnone : findPseudo ["::v-global", ":global"] (deepText left name.toList edge right) = none := by
    refine findPseudo_around hleft hright hedge (by decide) ?_
    rw [List.mem_cons, List.mem_singleton] at hname
    rcases hname with rfl | rfl <;> rfl
  have hsplit : ∀ combinator ∈ piercingCombinators,
      splitAtFirst combinator.toList (deepText left name.toList edge right) = none := by
    intro combinator hcombinator
    have hmark : ∀ name ∈ ["::v-deep", ":deep"], ∀ combinator ∈ piercingCombinators,
        splitAtFirst combinator.toList name.toList = none := by decide +kernel
    exact splitAtFirst_around hleft hright hedge hcombinator (hmark name hname combinator hcombinator)
  rw [scopeSelectorChars?, hnone]
  dsimp only
  rw [scopeDeep?, hsplit ">>>" (by decide), hsplit "/deep/" (by decide),
    findPseudo_mark hleft hright hedge hname]
  rcases readArgument (edge :: right) with ⟨argument, after⟩
  cases argument <;> simp only [joinDeep_space]

/-- With a form and its argument in parentheses. -/
theorem scopeSelectorChars?_argument (hleft : IsFormFree left) (hright : IsFormFree right)
    (htrim : trim right = right) (hbalanced : IsBalanced .parenthesis right) (name : String)
    (hname : name ∈ ["::v-deep", ":deep"]) (attr : List Char) :
    scopeSelectorChars? (deepText left name.toList '(' (right ++ [')'])) attr =
      some (injectAttribute left attr ++ ' ' :: right) := by
  have hclosed : IsFormFree (right ++ [')']) := hright.append_edge (by decide) (by decide)
  rw [scopeSelectorChars?_deepForm hleft hclosed (by decide) hname,
    readArgument_of_isBalanced hbalanced]
  dsimp only
  rw [htrim, List.append_nil]

/-- With the bare name of a form. -/
theorem scopeSelectorChars?_bare (hleft : IsFormFree left) (hright : IsFormFree right)
    (htrim : trim right = right) (name : String) (hname : name ∈ ["::v-deep", ":deep"])
    (attr : List Char) :
    scopeSelectorChars? (deepText left name.toList ' ' right) attr =
      some (injectAttribute left attr ++ ' ' :: right) := by
  rw [scopeSelectorChars?_deepForm hleft hright (by decide) hname]
  show some (injectAttribute left attr ++ ' ' :: trimStart (' ' :: right)) = _
  rw [trimStart_space htrim]

/-- The ways to write a deep selector with a left side and a right side. -/
def deepSpellings (left right : String) : List String :=
  [left ++ " >>> " ++ right, left ++ " /deep/ " ++ right, left ++ " :deep(" ++ right ++ ")",
    left ++ " ::v-deep(" ++ right ++ ")", left ++ " ::v-deep " ++ right]

/-- **All spellings of a deep selector are scoped alike**: to the left side as it is scoped alone, a
space, and the right side as it is. Neither side uses a form; the right side is trimmed, and in it
strings are closed and parentheses balanced. A left side of white space is the attribute alone. -/
theorem scopeSelector?_deep_spellings {left right : String} (attr : String)
    (hleft : IsFormFree left.toList) (hright : IsFormFree right.toList)
    (htrim : trim right.toList = right.toList)
    (hbalanced : IsBalanced .parenthesis right.toList) :
    ∃ form, scopeSelector? left attr = some form ∧
      ((∀ c ∈ left.toList, isBlank c) → form = "[" ++ attr ++ "]") ∧
      ∀ spelling ∈ deepSpellings left right,
        scopeSelector? spelling attr = some (form ++ " " ++ right) := by
  refine ⟨.ofList (injectAttribute left.toList attr.toList), ?_, fun hblank ↦ ?_, ?_⟩
  · rw [scopeSelector?, hleft.scopeSelectorChars?_eq]
    rfl
  · have hnone : trim left.toList = [] := trim_append_blanks hblank []
    rw [injectAttribute_of_trim_eq_nil hnone]
    simp [attributeSelector, String.ofList_append, String.append_assoc]
  · have hjoined : ∀ {spelling : String} {t : List Char}, spelling.toList = t →
        scopeSelectorChars? t attr.toList =
          some (injectAttribute left.toList attr.toList ++ ' ' :: right.toList) →
        scopeSelector? spelling attr =
          some (.ofList (injectAttribute left.toList attr.toList) ++ " " ++ right) := by
      rintro spelling _ rfl ht
      rw [scopeSelector?, ht, Option.map_some]
      refine congrArg some (String.toList_inj.1 ?_)
      simp
    simp only [deepSpellings, List.forall_mem_cons]
    refine ⟨?_, ?_, ?_, ?_, ?_, fun _ h ↦ absurd h List.not_mem_nil⟩
    · exact hjoined (by simp [deepText])
        (scopeSelectorChars?_pierced hleft hright htrim ">>>" (by decide) _)
    · exact hjoined (by simp [deepText])
        (scopeSelectorChars?_pierced hleft hright htrim "/deep/" (by decide) _)
    · exact hjoined (by simp [deepText])
        (scopeSelectorChars?_argument hleft hright htrim hbalanced ":deep" (by decide) _)
    · exact hjoined (by simp [deepText])
        (scopeSelectorChars?_argument hleft hright htrim hbalanced "::v-deep" (by decide) _)
    · exact hjoined (by simp [deepText])
        (scopeSelectorChars?_bare hleft hright htrim "::v-deep" (by decide) _)

theorem isBalanced_not : IsBalanced .parenthesis ".b:not([x=\")\"], :deeper) > c".toList := by
  have hfront : IsBalanced .parenthesis ".b:not".toList := isBalanced_of_forall (forall_mem_of_all (by decide))
  have hinner : IsBalanced .parenthesis ("[x=".toList ++ '"' :: (")".toList ++ '"' ::
      "], :deeper".toList)) :=
    (isBalanced_of_forall (forall_mem_of_all (by decide))).append (.string (.inl rfl)
      (.char (by decide) (by decide) .nil) (isBalanced_of_forall (forall_mem_of_all (by decide))))
  have hback : IsBalanced .parenthesis " > c".toList := isBalanced_of_forall (forall_mem_of_all (by decide))
  exact hfront.append (.group hinner hback)

theorem scopeSelector?_deep_spellings_card :
    (IsFormFree " ul > .card:hover".toList ∧ IsFormFree ".b:not([x=\")\"], :deeper) > c".toList ∧
        trim ".b:not([x=\")\"], :deeper) > c".toList = ".b:not([x=\")\"], :deeper) > c".toList ∧
        IsBalanced .parenthesis ".b:not([x=\")\"], :deeper) > c".toList) ∧
      scopeSelector? " ul > .card:hover" "x" = some "ul > .card[x]:hover" ∧
      ∀ spelling ∈ deepSpellings " ul > .card:hover" ".b:not([x=\")\"], :deeper) > c",
        scopeSelector? spelling "x" =
          some "ul > .card[x]:hover .b:not([x=\")\"], :deeper) > c" := by
  have hleft : IsFormFree " ul > .card:hover".toList := by decide +kernel
  have hright : IsFormFree ".b:not([x=\")\"], :deeper) > c".toList := by decide +kernel
  have htrim : trim ".b:not([x=\")\"], :deeper) > c".toList =
      ".b:not([x=\")\"], :deeper) > c".toList := by decide +kernel
  have halone : scopeSelector? " ul > .card:hover" "x" = some "ul > .card[x]:hover" := by
    decide +kernel
  obtain ⟨form, hform, -, hspellings⟩ :=
    scopeSelector?_deep_spellings "x" hleft hright htrim isBalanced_not
  have hcard : form = "ul > .card[x]:hover" := Option.some.inj (hform.symm.trans halone)
  subst hcard
  exact ⟨⟨hleft, hright, htrim, isBalanced_not⟩, halone, hspellings⟩

end AppletBundle.Style
