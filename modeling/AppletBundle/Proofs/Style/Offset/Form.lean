import AppletBundle.Proofs.Style.Offset.Insertion
import AppletBundle.Proofs.Style.Forms

/-!
# Forms by offsets

A form is looked for by its name, occurrence after occurrence, where the search by characters tries
every place. No occurrence of a name begins inside another one (`NoOverlap`), so none is missed.

The argument reaches to the byte before the end of its group. For a group that is closed this is the
closing parenthesis; for any other it is the last byte of the text, and if that is part of a longer
character, the slice has no result (`slice?_unclosed`). No other slice of a selector fails.
-/

namespace AppletBundle.Style

open AppletBundle.Text

variable {name front rest t left right : List Char} {previous : Option Char}

/-! ### Arguments -/

namespace Offset

/-- A form that was found, by the offsets of its two ends. -/
structure OffsetMatch where
  start : ℕ
  stop : ℕ
  argument : Option (List Char)

/-- The form whose name is between two offsets. An argument that is never closed ends one byte before
the end. -/
def formBetween? (t : List Char) (start after : ℕ) : Option OffsetMatch :=
  if byte? t after = some '(' then
    (skipGroup? t '(' ')' after).bind fun stop ↦
      (slice? t (after + 1) (max (stop - 1) (after + 1))).map fun argument ↦
        ⟨start, stop, some argument⟩
  else some ⟨start, after, none⟩

/-- The form by offsets. One whose argument would end inside a character has none. -/
def matchAt? (t : List Char) (start : ℕ) : PseudoArgument × List Char → Option OffsetMatch
  | (.absent, after) => some ⟨start, offset t after, none⟩
  | (.present argument, after) => some ⟨start, offset t after, some argument⟩
  | (.broken, _) => none

/-- An argument that is closed. -/
theorem slice?_closed {inner after : List Char} (h : inner ++ ')' :: after <:+ t) :
    slice? t (offset t (inner ++ ')' :: after))
      (max (offset t after - 1) (offset t (inner ++ ')' :: after))) = some inner := by
  have hclose : ')' :: after <:+ t := (List.suffix_append inner _).trans h
  have hstop := offset_succ hclose (by decide)
  have hstart := offset_add inner (')' :: after) h
  rw [show max (offset t after - 1) (offset t (inner ++ ')' :: after)) = offset t (')' :: after) by
    omega]
  exact slice?_offset h

/-- An argument that is never closed. -/
theorem slice?_unclosed (h : rest <:+ t) :
    slice? t (offset t rest) (max (byteLength t - 1) (offset t rest)) =
      match rest.getLast? with
      | some c => if c.utf8Size = 1 then some rest.dropLast else none
      | none => some [] := by
  rcases rest.eq_nil_or_concat' with rfl | ⟨front, c, rfl⟩
  · rw [offset_nil, max_eq_right (Nat.sub_le _ _)]
    exact slice?_to_end h
  · have hle : offset t (front ++ [c]) ≤ byteLength t - 1 := by
      have hpos := c.utf8Size_pos
      have hlength := byteLength_le_of_suffix h
      rw [byteLength_append, byteLength_cons] at hlength
      rw [offset, byteLength_append, byteLength_cons]
      omega
    rw [max_eq_left hle, slice?_before_end h, List.getLast?_append_of_ne_nil _ (List.cons_ne_nil _ _),
      List.dropLast_concat]
    rfl

theorem formBetween?_offset {start : ℕ} (h : rest <:+ t) :
    formBetween? t start (offset t rest) = matchAt? t start (readArgument rest) := by
  have hparen : ('(').toNat < 128 := by decide
  rw [formBetween?]
  by_cases hhead : rest.head? = some '('
  · rw [if_pos ((byte?_eq_some_iff hparen h).2 hhead)]
    obtain ⟨rest, rfl⟩ := List.head?_eq_some_iff.1 hhead
    have hrest := suffix_of_cons_suffix h
    rw [skipGroup?_offset hparen (by decide) h, offset_succ h hparen, Option.bind_some, afterGroup,
      readArgument]
    rcases hclose : closeGroup? '(' ')' .outside 0 rest with - | ⟨inner, after⟩
    · have hend : offset t [] = byteLength t := offset_nil t
      dsimp only [Option.map_none, Option.getD_none]
      rw [hend, slice?_unclosed hrest]
      rcases rest.getLast? with - | c
      · rfl
      · dsimp only
        split <;> rfl
    · dsimp only [Option.map_some, Option.getD_some]
      rw [closeGroup?_eq hclose] at hrest ⊢
      rw [slice?_closed hrest]
      rfl
  · rw [if_neg (mt (byte?_eq_some_iff hparen h).1 hhead)]
    have habsent : readArgument rest = (.absent, rest) := by
      unfold readArgument
      split
      · exact absurd rfl hhead
      · rfl
    rw [habsent]
    rfl

/-! ### Names -/

/-- Whether the byte before an offset is a colon. -/
def followsColon? (t : List Char) : ℕ → Option Bool
  | 0 => some false
  | i + 1 => (byte? t i).map (· == ':')

/-- The bytes from an offset on hold those before an occurrence, and those of the occurrence. -/
theorem add_byteLength_le {i : ℕ} (hslice : slice? t i (byteLength t) = some rest)
    (hsplit : splitAtFirst name rest = some (left, right)) :
    i + byteLength left + byteLength name ≤ byteLength t := by
  obtain ⟨hlength, -⟩ := byteLength_of_slice? hslice
  rw [splitAtFirst_eq hsplit, byteLength_append, byteLength_append] at hlength
  omega

/-- Finds the first use of a form by one name, from an offset on. -/
def findFrom? (t name : List Char) (hname : name ≠ []) (i : ℕ) : Option (Option OffsetMatch) :=
  match _h : slice? t i (byteLength t) with
  | none => none
  | some rest =>
    match _hsplit : splitAtFirst name rest with
    | none => some none
    | some (left, _) =>
      let start := i + byteLength left
      let after := start + byteLength name
      if (byte? t after).any isIdentChar then findFrom? t name hname after
      else
        match followsColon? t start with
        | none => none
        | some follows =>
          if follows && !([':', ':'].isPrefixOf name) then findFrom? t name hname after
          else (formBetween? t start after).map some
termination_by byteLength t - i
decreasing_by
  all_goals
    have := add_byteLength_le _h _hsplit
    have := byteLength_pos hname
    omega

/-- Finds the first use of a form by the first of its names that is used. A search for an empty name
would not end. -/
def findPseudo? (t : List Char) : List String → Option (Option OffsetMatch)
  | [] => some none
  | name :: names =>
    if h : name.toList ≠ [] then
      (findFrom? t name.toList h 0).bind fun found ↦
        match found with
        | some m => some (some m)
        | none => findPseudo? t names
    else none

/-- What is found in a rest of a text, by offsets into the text. -/
def foundAfter? (t front : List Char) : Option PseudoMatch → Option (Option OffsetMatch)
  | some m => (matchAt? t (byteLength (front ++ m.before)) (m.argument, m.after)).map some
  | none => some none

theorem foundAfter?_prepend (t front left : List Char) (found : Option PseudoMatch) :
    foundAfter? t front (found.map (·.prepend left)) = foundAfter? t (front ++ left) found := by
  cases found with
  | none => rfl
  | some m =>
    rw [Option.map_some, foundAfter?, foundAfter?, List.append_assoc]
    rfl

theorem any_byte?_isIdentChar (h : rest <:+ t) :
    (byte? t (offset t rest)).any isIdentChar = rest.head?.any isIdentChar := by
  cases rest with
  | nil => rw [byte?_offset_nil]; rfl
  | cons c rest =>
    rcases Nat.lt_or_ge c.toNat 128 with hc | hc
    · rw [byte?_narrow h hc]
      rfl
    · obtain ⟨b, hb, hwide⟩ := exists_byte?_wide h hc c.utf8Size_pos
      rw [Nat.add_zero] at hb
      rw [hb, Option.any_some, isIdentChar_of_wide hwide, List.head?_cons, Option.any_some,
        isIdentChar_of_wide hc]

theorem followsColon?_eq (front rest : List Char) :
    followsColon? (front ++ rest) (byteLength front) = some (front.getLast? == some ':') := by
  rcases front.eq_nil_or_concat' with rfl | ⟨front, c, rfl⟩
  · rfl
  · have hsuffix : c :: rest <:+ front ++ [c] ++ rest :=
      ⟨front, by rw [List.append_assoc, List.singleton_append]⟩
    have hlength : byteLength (front ++ [c]) =
        offset (front ++ [c] ++ rest) (c :: rest) + (c.utf8Size - 1) + 1 := by
      have hpos := c.utf8Size_pos
      rw [Nat.add_assoc, Nat.sub_add_cancel hpos, offset_add_utf8Size hsuffix, offset_append]
    rw [hlength, followsColon?, List.getLast?_concat]
    rcases Nat.lt_or_ge c.toNat 128 with hc | hc
    · rw [utf8Size_eq_one_iff.2 hc, Nat.sub_self, Nat.add_zero, byte?_narrow hsuffix hc]
      rfl
    · obtain ⟨b, hb, hwide⟩ := exists_byte?_wide hsuffix hc (Nat.sub_lt c.utf8Size_pos Nat.one_pos)
      rw [hb, Option.map_some, beq_eq_false_iff_ne.2 (ne_of_wide hwide (by decide))]
      exact congrArg some (beq_eq_false_iff_ne.2
        fun hcolon ↦ ne_of_wide hc (by decide) (Option.some.inj hcolon)).symm

variable {i : ℕ} {hname : name ≠ []}

theorem findFrom?_none (hslice : slice? t i (byteLength t) = some rest)
    (hsplit : splitAtFirst name rest = none) : findFrom? t name hname i = some none := by
  rw [findFrom?]
  split <;> simp_all
  split <;> simp_all

theorem findFrom?_some {follows : Bool} (hslice : slice? t i (byteLength t) = some rest)
    (hsplit : splitAtFirst name rest = some (left, right))
    (hfollows : followsColon? t (i + byteLength left) = some follows) :
    findFrom? t name hname i =
      if (byte? t (i + byteLength left + byteLength name)).any isIdentChar ||
          follows && !([':', ':'].isPrefixOf name) then
        findFrom? t name hname (i + byteLength left + byteLength name)
      else
        (formBetween? t (i + byteLength left) (i + byteLength left + byteLength name)).map some := by
  rw [findFrom?]
  split
  · simp_all
  · rename_i hslice'
    obtain rfl := Option.some.inj (hslice.symm.trans hslice')
    split
    · simp_all
    · rename_i hsplit'
      obtain ⟨rfl, rfl⟩ := Prod.ext_iff.1 (Option.some.inj (hsplit.symm.trans hsplit'))
      dsimp only
      rw [hfollows]
      cases (byte? t (i + byteLength left + byteLength name)).any isIdentChar <;> rfl

/-- **A name is found for the bytes where it is found for the characters**, with the argument that it
has there, unless that would end inside a character. -/
theorem findFrom?_eq (hname : NoOverlap name) (hne : name ≠ []) (front rest : List Char) :
    findFrom? (front ++ rest) name hne (byteLength front) =
      foundAfter? (front ++ rest) front (findName name front.getLast? rest) := by
  obtain ⟨c, name, rfl⟩ := List.exists_cons_of_ne_nil hne
  induction hn : rest.length using Nat.strong_induction_on generalizing front rest with
  | _ n ih =>
    have hslice := slice?_back front rest
    rcases hsplit : splitAtFirst (c :: name) rest with - | ⟨left, right⟩
    · rw [findFrom?_none hslice hsplit, findName_eq_none_of_splitAtFirst hsplit]
      rfl
    · have hrest := splitAtFirst_eq hsplit
      have hbefore := not_prefix_of_splitAtFirst hsplit
      have htext : front ++ rest = front ++ left ++ (c :: name) ++ right := by
        rw [hrest]
        simp
      have hfollows := followsColon?_eq (front ++ left) (c :: name ++ right)
      have hright : right <:+ front ++ rest := ⟨_, htext.symm⟩
      rw [← List.append_assoc, ← htext, byteLength_append] at hfollows
      have hafter : byteLength front + byteLength left + byteLength (c :: name) =
          offset (front ++ rest) right := by
        rw [htext, offset_append, byteLength_append, byteLength_append]
      have hmodel : findName (c :: name) front.getLast? rest =
          (findName (c :: name) (front ++ left).getLast? (c :: name ++ right)).map
            (·.prepend left) := by
        rw [hrest, List.append_assoc] at hbefore ⊢
        rw [findName_append hbefore, List.getLast?_append]
      rw [findFrom?_some hslice hsplit hfollows, hafter, any_byte?_isIdentChar hright, hmodel,
        foundAfter?_prepend, findName_occurrence hname, isTailOfLonger, ← Bool.not_or]
      cases right.head?.any isIdentChar || (front ++ left).getLast? == some ':' &&
        !([':', ':'].isPrefixOf (c :: name)) with
      | true =>
        have hlength : right.length < n := by
          rw [← hn, hrest, List.length_append, List.length_append, List.length_cons]
          omega
        have hlater := ih _ hlength (front ++ left ++ (c :: name)) right rfl
        rw [← htext, ← offset_append _ right, ← htext] at hlater
        rw [if_pos rfl, if_neg (by decide), foundAfter?_prepend, hlater,
          List.getLast?_append_of_ne_nil _ (List.cons_ne_nil c name)]
      | false =>
        rw [if_neg (by decide), if_pos (by decide), formBetween?_offset hright, foundAfter?,
          List.append_nil, byteLength_append]

/-- **A form is found for the bytes where it is found for the characters.** -/
theorem findPseudo?_eq (t : List Char) {names : List String}
    (hnames : ∀ name ∈ names, name.toList ≠ [] ∧ NoOverlap name.toList) :
    findPseudo? t names = foundAfter? t [] (findPseudo names t) := by
  induction names with
  | nil => rfl
  | cons name names ih =>
    obtain ⟨⟨hne, hname⟩, hrest⟩ := List.forall_mem_cons.1 hnames
    have hfirst : findFrom? t name.toList hne 0 =
        foundAfter? t [] (findName name.toList none t) := findFrom?_eq hname hne [] t
    rw [findPseudo?, dif_pos hne, hfirst, findPseudo, List.findSome?_cons]
    rcases findName name.toList none t with - | m
    · exact ih hrest
    · dsimp only [foundAfter?]
      rcases matchAt? t (byteLength ([] ++ m.before)) (m.argument, m.after) with - | found <;> rfl

end Offset

end AppletBundle.Style
