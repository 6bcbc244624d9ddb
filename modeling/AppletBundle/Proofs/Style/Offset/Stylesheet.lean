import AppletBundle.Proofs.Style.Offset.Selector
import AppletBundle.Proofs.Style.Offset.Zone

/-!
# Scoped stylesheets by offsets

The reader of a stylesheet keeps the offset after the last rule. It looks for a delimiter from there,
for the brace that closes the block, and cuts the text at what it found; the body of a group is a text
of its own, in which it starts from zero again.

The reading of the text by characters is an induction over `Reads`, and so is the comparison
(`scopeBlockFrom?_eq`): the offset at which a rule begins is that of a rest of the text, the delimiter
and the brace are found between characters, and so the next rule begins at such an offset, too.
-/

namespace AppletBundle.Style

open AppletBundle.Text

/-! ### White space and comments in front of a rule -/

theorem trimStart_suffix (t : List Char) : trimStart t <:+ t :=
  List.dropWhile_suffix isBlank

theorem not_isBlank_of_trimStart_eq_cons {c : Char} {t rest : List Char}
    (h : trimStart t = c :: rest) : ¬ isBlank c := by
  have hhead := List.head?_dropWhile_not isBlank t
  rw [show t.dropWhile isBlank = c :: rest from h] at hhead
  simpa using hhead

theorem afterComment_suffix (rest : List Char) : afterComment rest <:+ rest := by
  rw [afterComment]
  rcases hsplit : splitAtFirst ['*', '/'] rest with - | ⟨inside, after⟩
  · exact List.nil_suffix
  · rw [splitAtFirst_eq hsplit]
    exact List.suffix_append _ _

/-- What is left of a text after the white space and the comments in front. -/
def afterTrivia (rest : List Char) : List Char :=
  rest.drop (triviaLength .gap rest)

/-- The zone of a reader of white space and comments. -/
def TriviaState.zone : TriviaState → Zone
  | gap => .code
  | comment false => .comment
  | comment true => .commentStar

theorem zone_step_comment (star : Bool) (c : Char) :
    (TriviaState.comment star).zone.step c =
      (if star && c == '/' then TriviaState.gap else .comment (c == '*')).zone := by
  by_cases hslash : c = '/'
  · subst hslash
    cases star <;> rfl
  · by_cases hstar : c = '*'
    · subst hstar
      cases star <;> rfl
    · have hstar' : (c == '*') = false := beq_eq_false_iff_ne.2 hstar
      cases star <;> simp [hstar', TriviaState.zone, Zone.step, hslash, hstar]

/-- The white space and the comments in front end where they end after the comment that the reader is
in. -/
theorem drop_triviaLength (state : TriviaState) (rest : List Char) :
    rest.drop (triviaLength state rest) = afterTrivia (state.zone.after rest) := by
  induction rest generalizing state with
  | nil => rw [Zone.after_nil, afterTrivia, List.drop_nil, List.drop_nil]
  | cons c rest ih =>
    cases state with
    | gap => rfl
    | comment star =>
      have hafter : (TriviaState.comment star).zone.after (c :: rest) =
          ((TriviaState.comment star).zone.step c).after rest := by
        cases star with
        | false => exact (Zone.goesOn_comment c rest).1
        | true => exact (Zone.goesOn_commentStar c rest).1
      rw [hafter, zone_step_comment, ← ih, triviaLength, List.drop_succ_cons]

theorem afterTrivia_comment (rest : List Char) :
    afterTrivia ('/' :: '*' :: rest) = afterTrivia (afterComment rest) :=
  drop_triviaLength (.comment false) rest

theorem afterTrivia_blank {c : Char} (hc : isBlank c) (rest : List Char) :
    afterTrivia (c :: rest) = afterTrivia rest := by
  have hlength : triviaLength .gap (c :: rest) = triviaLength .gap rest + 1 := by
    conv_lhs => unfold triviaLength
    exact if_pos hc
  rw [afterTrivia, hlength, List.drop_succ_cons, afterTrivia]

theorem afterTrivia_trimStart (rest : List Char) :
    afterTrivia (trimStart rest) = afterTrivia rest := by
  induction rest with
  | nil => rfl
  | cons c rest ih =>
    by_cases hc : isBlank c
    · have htrim : trimStart (c :: rest) = trimStart rest := List.dropWhile_cons_of_pos hc
      rw [htrim, ih, afterTrivia_blank hc]
    · have htrim : trimStart (c :: rest) = c :: rest := List.dropWhile_cons_of_neg hc
      rw [htrim]

/-- Nothing is dropped in front of code. -/
theorem afterTrivia_eq_trimStart {t : List Char} (h : ¬ ['/', '*'] <+: trimStart t) :
    afterTrivia t = trimStart t := by
  rw [← afterTrivia_trimStart]
  rcases htrim : trimStart t with - | ⟨c, rest⟩
  · rfl
  · rw [htrim] at h
    have hlength : triviaLength .gap (c :: rest) = 0 := by
      unfold triviaLength
      refine (if_neg (not_isBlank_of_trimStart_eq_cons htrim)).trans ?_
      split
      · exact absurd ⟨_, rfl⟩ h
      · rfl
    rw [afterTrivia, hlength, List.drop_zero]

namespace Offset

variable {t rest : List Char} {i j : ℕ}

/-! ### Preludes -/

/-- The offset after the white space and the comments that follow an offset. -/
def triviaFrom? (t : List Char) (i : ℕ) : Option ℕ :=
  (slice? t i (byteLength t)).bind fun rest ↦
    (sub? (byteLength rest) (byteLength (trimStart rest))).bind fun blanks ↦
      if ['/', '*'].isPrefixOf (trimStart rest) then
        match _h : skipComment? t (i + blanks) with
        | none => none
        | some j => triviaFrom? t j
      else some (i + blanks)
termination_by byteLength t - i
decreasing_by
  have := lt_of_skipComment? _h
  omega

/-- The offset after the white space and the comments in front of a text. -/
theorem triviaFrom?_offset (h : rest <:+ t) :
    triviaFrom? t (offset t rest) = some (offset t (afterTrivia rest)) := by
  -- a comment is skipped at once, so the induction is on the length of what is left
  induction hn : rest.length using Nat.strong_induction_on generalizing rest with
  | h n ih =>
    obtain ⟨blanks, -, hrest⟩ := exists_blanks_trimStart rest
    have hlength : byteLength rest = byteLength blanks + byteLength (trimStart rest) := by
      conv_lhs => rw [hrest, byteLength_append]
    have hsub : sub? (byteLength rest) (byteLength (trimStart rest)) = some (byteLength blanks) := by
      rw [sub?, if_pos (by omega), hlength, Nat.add_sub_cancel]
    have hsuffix : trimStart rest <:+ t := (trimStart_suffix rest).trans h
    have hstart : offset t rest + byteLength blanks = offset t (trimStart rest) := by
      have hadd := offset_add (t := t) blanks (trimStart rest) (by rwa [← hrest])
      rwa [← hrest] at hadd
    rw [triviaFrom?, slice?_to_end h, Option.bind_some, hsub, Option.bind_some, hstart]
    split
    · rename_i hopen
      obtain ⟨inner, hinner⟩ := List.isPrefixOf_iff_prefix.1 hopen
      have hshorter : (afterComment inner).length < n := by
        have hcomment := (afterComment_suffix inner).length_le
        have htrimmed := (trimStart_suffix rest).length_le
        rw [← hinner, List.length_append, List.length_cons, hn] at htrimmed
        omega
      rw [← hinner] at hsuffix
      have hskip : skipComment? t (offset t (['/', '*'] ++ inner)) =
          some (offset t (afterComment inner)) := skipComment?_offset hsuffix
      have hnext := (afterComment_suffix inner).trans ((List.suffix_append _ _).trans hsuffix)
      rw [← afterTrivia_trimStart, ← hinner]
      refine Eq.trans ?_ ((ih _ hshorter hnext rfl).trans
        (congrArg (some <| offset t ·) (afterTrivia_comment inner).symm))
      split
      · rename_i hnone
        cases hnone.symm.trans hskip
      · rename_i hsome
        rw [Option.some.inj (hsome.symm.trans hskip)]
    · rename_i hopen
      rw [List.isPrefixOf_iff_prefix] at hopen
      rw [afterTrivia_eq_trimStart hopen]

/-- A prelude cut into its parts. -/
def cutPrelude? (t : List Char) : Option Prelude :=
  (triviaFrom? t 0).bind fun i ↦
    (slice? t 0 i).bind fun leading ↦
      (slice? t i (byteLength t)).bind fun rest ↦
        let head := trimEnd rest
        (slice? rest (byteLength head) (byteLength rest)).map fun trailing ↦ ⟨leading, head, trailing⟩

theorem slice?_after_trimEnd (t : List Char) :
    slice? t (byteLength (trimEnd t)) (byteLength t) = some (t.drop (trimEnd t).length) := by
  obtain ⟨blanks, -, ht⟩ := exists_blanks_trimEnd t
  have hslice := slice?_back (trimEnd t) blanks
  have hdrop : (trimEnd t ++ blanks).drop (trimEnd t).length = blanks := List.drop_left
  rw [← ht] at hslice hdrop
  rw [hslice, hdrop]

theorem cutPrelude?_eq (t : List Char) : cutPrelude? t = some (.ofChars t) := by
  have hstart := triviaFrom?_offset (List.suffix_refl t)
  rw [offset_self, afterTrivia, offset_drop] at hstart
  rw [cutPrelude?, hstart, Option.bind_some, slice?_take, Option.bind_some, slice?_drop,
    Option.bind_some]
  dsimp only
  rw [slice?_after_trimEnd]
  rfl

/-- Classifies the head of a rule. -/
def classify? : List Char → Option Head
  | '@' :: rest =>
    let ends := fun c ↦ isBlank c || c == '('
    let length := byteLength (rest.takeWhile (!ends ·))
    (slice? rest 0 length).bind fun word ↦
      (slice? rest length (byteLength rest)).map fun parameters ↦
        if "keyframes".toList.isSuffixOf word then .keyframes word (trim parameters)
        else if String.ofList word ∈ groupWords then .group
        else .other
  | _ => some .selectors

theorem classify?_eq (head : List Char) : classify? head = some (Head.ofChars head) := by
  have hcut : ∀ (p : Char → Bool) (rest : List Char),
      slice? rest 0 (byteLength (rest.takeWhile p)) = some (rest.takeWhile p) ∧
        slice? rest (byteLength (rest.takeWhile p)) (byteLength rest) = some (rest.dropWhile p) := by
    intro p rest
    have hword := slice?_front (rest.takeWhile p) (rest.dropWhile p)
    have hparameters := slice?_back (rest.takeWhile p) (rest.dropWhile p)
    rw [List.takeWhile_append_dropWhile] at hword hparameters
    exact ⟨hword, hparameters⟩
  by_cases hsign : ∃ rest, head = '@' :: rest
  · obtain ⟨rest, rfl⟩ := hsign
    rw [classify?]
    dsimp only
    rw [(hcut _ _).1, Option.bind_some, (hcut _ _).2]
    rfl
  · have hclass : classify? head = some .selectors := by
      unfold classify?
      split
      · exact absurd ⟨_, rfl⟩ hsign
      · rfl
    have hmodel : Head.ofChars head = .selectors := by
      unfold Head.ofChars
      split
      · exact absurd ⟨_, rfl⟩ hsign
      · rfl
    rw [hclass, hmodel]

/-! ### Rules -/

/-- The text of a scoped rule and the names of the keyframes that it declares, `inner` being those of
its body. -/
def scopeRule? (scope : Scope) (inner : Option (List Char × List (List Char)))
    (before body : List Char) : Option (List Char × List (List Char)) :=
  (cutPrelude? before).bind fun opening ↦
    (classify? opening.head).bind fun head ↦
      match head with
      | .selectors =>
        (scopeSelectorListChars? opening.head scope.attributeName).map fun selectors ↦
          (opening.leading ++ selectors ++ opening.trailing ++ inBraces body, [])
      | .keyframes word name =>
        let isScoped := scope.suffix.isSuffixOf name
        let renamed := if isScoped then name else name ++ scope.suffix
        some (opening.leading ++ '@' :: word ++ ' ' :: renamed ++ opening.trailing ++ inBraces body,
          if isScoped then [] else [name])
      | .group => inner.map fun r ↦ (opening.chars ++ inBraces r.1, r.2)
      | .other => some (opening.chars ++ inBraces body, [])

/-- The text of scoped rules from an offset on, with what follows them, and the names of the keyframes
that they declare. -/
def scopeBlockFrom? (scope : Scope) (t : List Char) (pos : ℕ) :
    Option (List Char × List (List Char)) :=
  match _hnext : nextDelimiter? t pos with
  | none => none
  | some none => (slice? t pos (byteLength t)).map fun tail ↦ (tail, [])
  | some (some (stop, delimiter)) =>
    if delimiter = ';' then
      (slice? t pos (stop + 1)).bind fun statement ↦
        (scopeBlockFrom? scope t (stop + 1)).map fun more ↦ (statement ++ more.1, more.2)
    else
      match _hclose : matchingBrace? t stop with
      | none => none
      | some none => (slice? t pos (byteLength t)).map fun tail ↦ (tail, [])
      | some (some close) =>
        -- the body has fewer bytes than the text from the offset on, which ends the recursion
        match _hbody : slice? t (stop + 1) close with
        | none => none
        | some body =>
          (slice? t pos stop).bind fun before ↦
            (scopeRule? scope (scopeBlockFrom? scope body 0) before body).bind fun first ↦
              (scopeBlockFrom? scope t (close + 1)).map fun more ↦
                (first.1 ++ more.1, first.2 ++ more.2)
termination_by byteLength t - pos
decreasing_by
  all_goals have := nextDelimiter?_bounds _hnext
  · omega
  · have := byteLength_of_slice? _hbody
    omega
  · have := stopFrom?_bounds _hclose
    omega

theorem scopeRule?_eq (scope : Scope) (inner : Option (List Char × List (List Char)))
    (before body : List Char) :
    scopeRule? scope inner before body =
      match Head.ofChars (Prelude.ofChars before).head with
      | .selectors =>
        (Rule.scoped? scope (.style (.ofChars before) body)).map fun text ↦ (text, [])
      | .keyframes word name =>
        (Rule.scoped? scope (.keyframes (.ofChars before) word name body)).map fun text ↦
          (text, Rule.keyframesNames scope (.keyframes (.ofChars before) word name body))
      | .group =>
        inner.map fun r ↦ ((Prelude.ofChars before).chars ++ inBraces r.1, r.2)
      | .other =>
        (Rule.scoped? scope (.other (.ofChars before) body)).map fun text ↦ (text, []) := by
  rw [scopeRule?, cutPrelude?_eq, Option.bind_some, classify?_eq, Option.bind_some]
  split
  · rw [scopeSelectorListChars?_eq_style, Rule.scoped?, Option.map_map]
    rfl
  · rfl
  · rfl
  · rfl

/-! ### Stylesheets -/

variable {scope : Scope} {before body after : List Char}

theorem scopeBlockFrom?_step (scope : Scope) (t : List Char) (pos : ℕ) :
    scopeBlockFrom? scope t pos =
      (nextDelimiter? t pos).bind fun found ↦
        match found with
        | none => (slice? t pos (byteLength t)).map fun tail ↦ (tail, [])
        | some (stop, delimiter) =>
          if delimiter = ';' then
            (slice? t pos (stop + 1)).bind fun statement ↦
              (scopeBlockFrom? scope t (stop + 1)).map fun more ↦ (statement ++ more.1, more.2)
          else
            (matchingBrace? t stop).bind fun found ↦
              match found with
              | none => (slice? t pos (byteLength t)).map fun tail ↦ (tail, [])
              | some close =>
                (slice? t (stop + 1) close).bind fun body ↦
                  (slice? t pos stop).bind fun before ↦
                    (scopeRule? scope (scopeBlockFrom? scope body 0) before body).bind fun first ↦
                      (scopeBlockFrom? scope t (close + 1)).map fun more ↦
                        (first.1 ++ more.1, first.2 ++ more.2) := by
  conv_lhs => rw [scopeBlockFrom?]
  split
  · rename_i hnext
    rw [hnext]
    rfl
  · rename_i hnext
    rw [hnext]
    rfl
  · rename_i stop delimiter hnext
    rw [hnext, Option.bind_some]
    dsimp only
    refine if_congr Iff.rfl rfl ?_
    split
    · rename_i hclose
      rw [hclose]
      rfl
    · rename_i hclose
      rw [hclose]
      rfl
    · rename_i close hclose
      rw [hclose, Option.bind_some]
      dsimp only
      split
      · rename_i hbody
        rw [hbody]
        rfl
      · rename_i body hbody
        rw [hbody]
        rfl

theorem scopeBlockFrom?_tail (h : rest <:+ t) (hnone : HasNoRule rest) :
    scopeBlockFrom? scope t (offset t rest) = some (rest, []) := by
  rw [scopeBlockFrom?_step, nextDelimiter?_offset h, Option.bind_some]
  rcases hsplit : splitAtDelimiter? .code 0 rest with - | ⟨before, delimiter, after⟩
  · dsimp only [Option.map_none]
    rw [slice?_to_end h]
    rfl
  · obtain ⟨hdelimiter, hclose⟩ := hnone before delimiter after hsplit
    obtain ⟨hrest, hkind⟩ := splitAtDelimiter?_eq hsplit
    obtain rfl := hkind.resolve_right hdelimiter
    have hbrace : '\x7b' :: after <:+ t := by
      rw [hrest] at h
      exact (List.suffix_append _ _).trans h
    dsimp only [Option.map_some]
    rw [if_neg hdelimiter, matchingBrace?_offset hbrace, hclose, slice?_to_end h]
    rfl

theorem scopeBlockFrom?_statement (h : rest <:+ t)
    (hsplit : splitAtDelimiter? .code 0 rest = some (before, ';', after)) :
    scopeBlockFrom? scope t (offset t rest) =
      (scopeBlockFrom? scope t (offset t after)).map fun more ↦
        (before ++ [';'] ++ more.1, more.2) := by
  have hrest : rest = before ++ [';'] ++ after := by
    rw [(splitAtDelimiter?_eq hsplit).1, List.append_assoc]
    rfl
  have hslice : slice? t (offset t rest) (offset t after) = some (before ++ [';']) := by
    rw [hrest] at h ⊢
    exact slice?_offset h
  have hsemicolon : ';' :: after <:+ t := by
    rw [hrest, List.append_assoc] at h
    exact (List.suffix_append _ _).trans h
  rw [scopeBlockFrom?_step, nextDelimiter?_offset h, Option.bind_some, hsplit]
  dsimp only [Option.map_some]
  rw [if_pos rfl, offset_succ hsemicolon (by decide), hslice]
  rfl

/-- A block is cut out between characters. -/
theorem scopeBlockFrom?_block (h : rest <:+ t) (hblock : BeginsWithBlock rest before body after) :
    scopeBlockFrom? scope t (offset t rest) =
      (scopeRule? scope (scopeBlockFrom? scope body 0) before body).bind fun first ↦
        (scopeBlockFrom? scope t (offset t after)).map fun more ↦
          (first.1 ++ more.1, first.2 ++ more.2) := by
  obtain ⟨inner, hsplit, hclose⟩ := hblock
  have hinner := closeBlock?_eq hclose
  have hbrace : '\x7b' :: inner <:+ t := by
    rw [(splitAtDelimiter?_eq hsplit).1] at h
    exact (List.suffix_append _ _).trans h
  have hclosing : '\x7d' :: after <:+ t := by
    have hsuffix := suffix_of_cons_suffix hbrace
    rw [hinner] at hsuffix
    exact (List.suffix_append _ _).trans hsuffix
  have hbefore : slice? t (offset t rest) (offset t ('\x7b' :: inner)) = some before := by
    rw [(splitAtDelimiter?_eq hsplit).1] at h ⊢
    exact slice?_offset h
  have hbody : slice? t (offset t inner) (offset t ('\x7d' :: after)) = some body := by
    have hsuffix := suffix_of_cons_suffix hbrace
    rw [hinner] at hsuffix ⊢
    exact slice?_offset hsuffix
  rw [scopeBlockFrom?_step, nextDelimiter?_offset h, Option.bind_some, hsplit]
  dsimp only [Option.map_some]
  rw [if_neg (by decide), matchingBrace?_offset hbrace, hclose, Option.bind_some]
  dsimp only [Option.map_some]
  rw [offset_succ hbrace (by decide), hbody, hbefore, offset_succ hclosing (by decide)]
  rfl

end Offset

/-- The text of a scoped stylesheet whose keyframes still have their names, and these names. -/
def Stylesheet.scopedWithNames? (sheet : Stylesheet) (scope : Scope) :
    Option (List Char × List (List Char)) :=
  (Rule.allScoped? scope sheet.rules).map fun inner ↦
    (inner ++ sheet.tail, Rule.allKeyframesNames scope sheet.rules)

theorem Stylesheet.scopedWithNames?_cons (rule : Rule) (sheet : Stylesheet) (scope : Scope) :
    (sheet.cons rule).scopedWithNames? scope =
      (rule.scoped? scope).bind fun first ↦
        (sheet.scopedWithNames? scope).map fun more ↦
          (first ++ more.1, rule.keyframesNames scope ++ more.2) := by
  rw [scopedWithNames?, Stylesheet.cons, Rule.allScoped?_cons, scopedWithNames?]
  cases rule.scoped? scope with
  | none => rfl
  | some first =>
    cases Rule.allScoped? scope sheet.rules with
    | none => rfl
    | some more => simp [Rule.allKeyframesNames]

namespace Offset

variable {t rest : List Char}

/-- **Rules are scoped by bytes as they are by characters.** -/
theorem scopeBlockFrom?_eq (scope : Scope) {sheet : Stylesheet} (hreads : Reads rest sheet)
    (h : rest <:+ t) :
    scopeBlockFrom? scope t (offset t rest) = sheet.scopedWithNames? scope := by
  induction hreads generalizing t with
  | tail hnone => exact scopeBlockFrom?_tail h hnone
  | statement hsplit _ ih =>
    have hafter := (List.suffix_append _ _).trans ((splitAtDelimiter?_eq hsplit).1 ▸ h)
    rw [scopeBlockFrom?_statement h hsplit, ih (suffix_of_cons_suffix hafter),
      Stylesheet.scopedWithNames?_cons]
    rfl
  | style hblock hhead _ ih =>
    have hafter := (List.suffix_append _ _).trans (hblock.eq ▸ h)
    rw [scopeBlockFrom?_block h hblock, scopeRule?_eq, hhead, ih hafter,
      Stylesheet.scopedWithNames?_cons, Option.bind_map]
    rfl
  | keyframes hblock hhead _ ih =>
    have hafter := (List.suffix_append _ _).trans (hblock.eq ▸ h)
    rw [scopeBlockFrom?_block h hblock, scopeRule?_eq, hhead, ih hafter,
      Stylesheet.scopedWithNames?_cons, Option.bind_map]
    rfl
  | other hblock hhead _ ih =>
    have hafter := (List.suffix_append _ _).trans (hblock.eq ▸ h)
    rw [scopeBlockFrom?_block h hblock, scopeRule?_eq, hhead, ih hafter,
      Stylesheet.scopedWithNames?_cons, Option.bind_map]
    rfl
  | group hblock hhead _ _ ihbody ih =>
    -- the body is a text of its own, read from its first byte on
    have hafter := (List.suffix_append _ _).trans (hblock.eq ▸ h)
    have hbody := ihbody (List.suffix_refl _)
    rw [offset_self] at hbody
    rw [scopeBlockFrom?_block h hblock, scopeRule?_eq, hhead, ih hafter, hbody,
      Stylesheet.scopedWithNames?_cons, Stylesheet.scopedWithNames?]
    dsimp only
    rw [Rule.scoped?, Option.map_map, Option.bind_map, Option.bind_map]
    rfl

end Offset

end AppletBundle.Style
