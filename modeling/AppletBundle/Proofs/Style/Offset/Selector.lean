import AppletBundle.Proofs.Style.Offset.Form

/-!
# Scoped selectors by offsets

A selector is cut at the offsets of the form, of the combinator or of the place for the attribute that
was found in it, and a list at its commas. All of these lie between characters, so the scoped text by
offsets is the one by characters, and there is none only where an argument is cut inside a character.
-/

namespace AppletBundle.Style

open AppletBundle.Text

theorem readArgument_suffix (rest : List Char) : (readArgument rest).2 <:+ rest := by
  unfold readArgument
  split
  · split
    · rename_i inner after hclose
      refine ⟨'(' :: inner ++ [')'], ?_⟩
      rw [closeGroup?_eq hclose, List.append_assoc]
      rfl
    · split <;> exact List.nil_suffix
  · exact List.suffix_refl _

namespace Offset

variable {t front rest attr : List Char}

/-! ### Selectors -/

/-- The scoped left side of a deep form, and its right side as it is. -/
def joinDeep? (left right attr : List Char) : Option (List Char) :=
  let left := trimEnd left
  if left.isEmpty then some (attributeSelector attr ++ ' ' :: right)
  else (injectAttribute? left attr).map (· ++ ' ' :: right)

theorem joinDeep?_eq (left right attr : List Char) :
    joinDeep? left right attr = some (joinDeep left right attr) := by
  rw [joinDeep?, injectAttribute?_eq]
  unfold joinDeep
  dsimp only
  split <;> rfl

/-- A selector without a global or deep form. -/
def scopeSlotted? (t attr : List Char) : Option (List Char) :=
  (findPseudo? t ["::v-slotted", ":slotted"]).bind fun found ↦
    match found with
    | some ⟨start, stop, some argument⟩ =>
      (slice? t 0 start).bind fun before ↦
        (injectAttribute? (trim argument) (attr ++ ['-', 's'])).bind fun inner ↦
          (slice? t stop (byteLength t)).map fun after ↦ before ++ inner ++ after
    | _ => injectAttribute? t attr

/-- A selector with a combinator that pierces, if it has one. -/
def scopePierced? (t attr : List Char) (combinator : String) : Option (Option (List Char)) :=
  match splitAtFirst combinator.toList t with
  | none => some none
  | some (left, _) =>
    (slice? t (byteLength left + byteLength combinator.toList) (byteLength t)).bind fun right ↦
      (slice? t 0 (byteLength left)).bind fun left ↦
        (joinDeep? left (trimStart right) attr).map some

/-- A selector without a global form. -/
def scopeDeep? (t attr : List Char) : Option (List Char) :=
  (scopePierced? t attr ">>>").bind fun pierced ↦
    match pierced with
    | some form => some form
    | none =>
      (scopePierced? t attr "/deep/").bind fun pierced ↦
        match pierced with
        | some form => some form
        | none =>
          (findPseudo? t ["::v-deep", ":deep"]).bind fun found ↦
            match found with
            | some ⟨start, stop, argument⟩ =>
              (slice? t 0 start).bind fun left ↦
                (slice? t stop (byteLength t)).bind fun after ↦
                  match argument with
                  | some argument => joinDeep? left (trim argument ++ after) attr
                  | none => joinDeep? left (trimStart after) attr
            | none => scopeSlotted? t attr

/-- The scoped form of a selector. -/
def scopeSelectorChars? (t attr : List Char) : Option (List Char) :=
  (findPseudo? t ["::v-global", ":global"]).bind fun found ↦
    match found with
    | some ⟨_, _, some argument⟩ => some (trim argument)
    | _ => scopeDeep? t attr

/-- A selector of a list, with the blanks in front of it. -/
def scopeListItem? (attr part : List Char) : Option (List Char) :=
  let trimmed := trimStart part
  (sub? (byteLength part) (byteLength trimmed)).bind fun stop ↦
    (slice? part 0 stop).bind fun leading ↦
      (scopeSelectorChars? (trimEnd trimmed) attr).map (leading ++ ·)

/-- A list of selectors, each of which is scoped. -/
def scopeSelectorListChars? (t attr : List Char) : Option (List Char) :=
  (splitTopLevel? t ',').bind fun parts ↦
    (parts.mapM (scopeListItem? attr)).map ([','].intercalate ·)

/-! ### Selectors for bytes and for characters -/

/-- The names of the forms can be looked for one occurrence after the other. -/
theorem noOverlap_names : ∀ names ∈ [["::v-global", ":global"], ["::v-deep", ":deep"],
    ["::v-slotted", ":slotted"]], ∀ name ∈ names, name.toList ≠ [] ∧ NoOverlap name.toList := by
  decide

/-- What stands before and after a form that was found. -/
theorem slices_of_findPseudo {names : List String} {m : PseudoMatch}
    (h : findPseudo names t = some m) :
    slice? t 0 (byteLength m.before) = some m.before ∧
      slice? t (offset t m.after) (byteLength t) = some m.after := by
  obtain ⟨name, -, rest, ht, hargument⟩ := findPseudo_spec h
  have hafter : m.after <:+ rest := by
    have hsuffix := readArgument_suffix rest
    rwa [hargument] at hsuffix
  refine ⟨?_, slice?_to_end (hafter.trans ⟨_, ht.symm⟩)⟩
  rw [ht, List.append_assoc]
  exact slice?_front _ _

theorem scopeSlotted?_eq (t attr : List Char) :
    scopeSlotted? t attr = Style.scopeSlotted? t attr := by
  rw [scopeSlotted?, findPseudo?_eq t (noOverlap_names _ (by decide)), Style.scopeSlotted?]
  rcases hfind : findPseudo ["::v-slotted", ":slotted"] t with - | ⟨before, argument, after⟩
  · exact injectAttribute?_eq t attr
  · obtain ⟨hbefore, hafter⟩ := slices_of_findPseudo hfind
    cases argument with
    | absent => exact injectAttribute?_eq t attr
    | broken => rfl
    | present argument =>
      dsimp only [foundAfter?, matchAt?, Option.map_some, Option.bind_some, List.nil_append]
      rw [hbefore, hafter, injectAttribute?_eq]
      rfl

theorem scopePierced?_eq (t attr : List Char) (combinator : String) :
    scopePierced? t attr combinator =
      some ((splitAtFirst combinator.toList t).map fun r ↦ joinDeep r.1 (trimStart r.2) attr) := by
  rw [scopePierced?]
  rcases hsplit : splitAtFirst combinator.toList t with - | ⟨left, right⟩
  · rfl
  · have ht := splitAtFirst_eq hsplit
    have hright : slice? t (byteLength left + byteLength combinator.toList) (byteLength t) =
        some right := by
      have hright := slice?_to_end (List.suffix_append (left ++ combinator.toList) right)
      rwa [offset_append, byteLength_append, ← ht] at hright
    have hleft : slice? t 0 (byteLength left) = some left := by
      rw [ht, List.append_assoc]
      exact slice?_front _ _
    dsimp only
    rw [hright, hleft, Option.bind_some, Option.bind_some, joinDeep?_eq]
    rfl

theorem scopeDeep?_eq (t attr : List Char) : scopeDeep? t attr = Style.scopeDeep? t attr := by
  rw [scopeDeep?, scopePierced?_eq, scopePierced?_eq, Style.scopeDeep?]
  rcases splitAtFirst ">>>".toList t with - | ⟨left, right⟩
  · rcases splitAtFirst "/deep/".toList t with - | ⟨left, right⟩
    · dsimp only [Option.map_none, Option.bind_some]
      rw [findPseudo?_eq t (noOverlap_names _ (by decide))]
      rcases hfind : findPseudo ["::v-deep", ":deep"] t with - | ⟨left, argument, after⟩
      · exact scopeSlotted?_eq t attr
      · obtain ⟨hleft, hafter⟩ := slices_of_findPseudo hfind
        cases argument with
        | broken => rfl
        | absent =>
          dsimp only [foundAfter?, matchAt?, Option.map_some, Option.bind_some, List.nil_append]
          rw [hleft, hafter]
          exact joinDeep?_eq _ _ _
        | present argument =>
          dsimp only [foundAfter?, matchAt?, Option.map_some, Option.bind_some, List.nil_append]
          rw [hleft, hafter]
          exact joinDeep?_eq _ _ _
    · rfl
  · rfl

/-- **A selector is scoped by bytes as it is by characters**, and fails only where that fails. -/
theorem scopeSelectorChars?_eq_style (t attr : List Char) :
    scopeSelectorChars? t attr = Style.scopeSelectorChars? t attr := by
  rw [scopeSelectorChars?, findPseudo?_eq t (noOverlap_names _ (by decide)),
    Style.scopeSelectorChars?]
  rcases findPseudo ["::v-global", ":global"] t with - | ⟨before, argument, after⟩
  · exact scopeDeep?_eq t attr
  · cases argument with
    | absent => exact scopeDeep?_eq t attr
    | broken => rfl
    | present argument => rfl

theorem scopeListItem?_eq_style (attr part : List Char) :
    scopeListItem? attr part = Style.scopeListItem? attr part := by
  obtain ⟨blanks, -, hpart⟩ := exists_blanks_trimStart part
  have hlength : byteLength part = byteLength blanks + byteLength (trimStart part) := by
    conv_lhs => rw [hpart, byteLength_append]
  have hstop : sub? (byteLength part) (byteLength (trimStart part)) = some (byteLength blanks) := by
    rw [sub?, if_pos (by omega), hlength, Nat.add_sub_cancel]
  have hleading : slice? part 0 (byteLength blanks) = some blanks := by
    conv_lhs => rw [hpart]
    exact slice?_front _ _
  rw [scopeListItem?, Style.scopeListItem?_eq hpart, hstop, Option.bind_some, hleading,
    Option.bind_some, scopeSelectorChars?_eq_style]
  rfl

theorem scopeSelectorListChars?_eq_style (t attr : List Char) :
    scopeSelectorListChars? t attr = Style.scopeSelectorListChars? t attr := by
  rw [scopeSelectorListChars?, splitTopLevel?_eq, Style.scopeSelectorListChars?, Option.bind_some]
  congr 2
  exact funext fun part ↦ scopeListItem?_eq_style attr part

end Offset

end AppletBundle.Style
