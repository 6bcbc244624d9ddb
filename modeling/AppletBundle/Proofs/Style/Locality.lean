import AppletBundle.Proofs.Style.Preservation

/-!
# Scoping is local to rules

A text of complete rules, followed by any other text, is scoped to the scoped text of the first
followed by that of the second, if neither declares keyframes (`scopeStylesheet?_append`). Keyframes
are what rules have to do with each other: their names are replaced wherever they are referred to.

The reason is that reading is local. Where a cut is made depends on nothing behind it
(`splitAtDelimiter?_append`, `closeBlock?_append`), and a text that leaves no tail is read to its end,
so the rules of the whole are the rules of both (`Stylesheet.ofChars_append`).
-/

namespace AppletBundle.Style

/-! ### Cuts -/

variable {z : Zone} {depth : ℕ} {s before body after : List Char} {delimiter : Char}

/-- A delimiter that is found is found whatever comes later. -/
theorem splitAtDelimiter?_append (h : splitAtDelimiter? z depth s = some (before, delimiter, after))
    (t : List Char) :
    splitAtDelimiter? z depth (s ++ t) = some (before, delimiter, after ++ t) := by
  induction s generalizing z depth before with
  | nil => exact absurd h (Option.some_ne_none _).symm
  | cons c s ih =>
    rw [List.cons_append]
    unfold splitAtDelimiter? at h ⊢
    dsimp only at h ⊢
    split at h
    · rename_i hfound
      obtain ⟨rfl, rfl, rfl⟩ : [] = before ∧ c = delimiter ∧ s = after := by simpa using h
      rw [if_pos hfound]
    · rename_i hfound
      obtain ⟨⟨before', delimiter', after'⟩, hrest, heq⟩ := Option.map_eq_some_iff.1 h
      obtain ⟨rfl, rfl, rfl⟩ : c :: before' = before ∧ delimiter' = delimiter ∧ after' = after := by
        simpa using heq
      rw [if_neg hfound, ih hrest, Option.map_some]

/-- A block that is closed is closed whatever comes later. -/
theorem closeBlock?_append (h : closeBlock? z depth s = some (body, after)) (t : List Char) :
    closeBlock? z depth (s ++ t) = some (body, after ++ t) := by
  induction s generalizing z depth body with
  | nil => exact absurd h (Option.some_ne_none _).symm
  | cons c s ih =>
    have hcons : ∀ z' depth', (closeBlock? z' depth' s).map (fun r ↦ (c :: r.1, r.2)) =
        some (body, after) →
        (closeBlock? z' depth' (s ++ t)).map (fun r ↦ (c :: r.1, r.2)) =
          some (body, after ++ t) := by
      intro z' depth' hmap
      obtain ⟨⟨body', after'⟩, hrest, heq⟩ := Option.map_eq_some_iff.1 hmap
      obtain ⟨rfl, rfl⟩ := Prod.ext_iff.1 heq
      rw [ih hrest, Option.map_some]
    rw [List.cons_append]
    unfold closeBlock? at h ⊢
    dsimp only at h ⊢
    split at h
    · rename_i hopen
      rw [if_pos hopen]
      exact hcons _ _ h
    · rename_i hopen
      rw [if_neg hopen]
      split at h
      · rename_i hclose
        rw [if_pos hclose]
        split at h
        · obtain ⟨rfl, rfl⟩ := Prod.ext_iff.1 (Option.some.inj h)
          rfl
        · exact hcons _ _ h
      · rename_i hclose
        rw [if_neg hclose]
        exact hcons _ _ h

theorem BeginsWithBlock.append (h : BeginsWithBlock s before body after) (t : List Char) :
    BeginsWithBlock (s ++ t) before body (after ++ t) := by
  obtain ⟨rest, hsplit, hclose⟩ := h
  exact ⟨rest ++ t, splitAtDelimiter?_append hsplit t, closeBlock?_append hclose t⟩

/-! ### Reading -/

variable {sheet : Stylesheet}

/-- A bound on the length of a text that begins with a block leaves one for the parts. -/
theorem BeginsWithBlock.exists_bound (h : BeginsWithBlock s before body after) {fuel : ℕ}
    (hfuel : s.length ≤ fuel) :
    ∃ bound, fuel = bound + 1 ∧ body.length ≤ bound ∧ after.length ≤ bound := by
  have hlength := congrArg List.length h.eq
  simp only [inBraces, List.length_append, List.length_cons] at hlength
  exact ⟨fuel - 1, by omega, by omega, by omega⟩

/-- One more rule is read off a text that begins with a block. -/
theorem BeginsWithBlock.readWithin_eq (h : BeginsWithBlock s before body after) (fuel : ℕ) :
    Stylesheet.readWithin (fuel + 1) s =
      Stylesheet.cons
        (match Head.ofChars (Prelude.ofChars before).head with
          | .selectors => .style (Prelude.ofChars before) body
          | .keyframes word name => .keyframes (Prelude.ofChars before) word name body
          | .group => .group (Prelude.ofChars before) (Stylesheet.readWithin fuel body).rules
              (Stylesheet.readWithin fuel body).tail
          | .other => .other (Prelude.ofChars before) body)
        (Stylesheet.readWithin fuel after) := by
  obtain ⟨rest, hsplit, hclose⟩ := h
  rw [Stylesheet.readWithin, hsplit]
  dsimp only
  rw [if_neg (by decide), hclose]
  rfl

/-- **There is one way to read a text**, and any bound that is at least its length gives it. -/
theorem Reads.readWithin_eq (h : Reads s sheet) {fuel : ℕ} (hfuel : s.length ≤ fuel) :
    Stylesheet.readWithin fuel s = sheet := by
  induction h generalizing fuel with
  | @tail s hnone =>
    rcases fuel with - | fuel
    · rfl
    · rw [Stylesheet.readWithin]
      split
      · rfl
      · rename_i before delimiter after hsplit
        obtain ⟨hsemicolon, hclose⟩ := hnone _ _ _ hsplit
        rw [if_neg hsemicolon, hclose]
  | @statement s before after sheet hsplit _ ih =>
    have hlength := congrArg List.length (splitAtDelimiter?_eq hsplit).1
    rw [List.length_append, List.length_cons] at hlength
    obtain ⟨fuel, rfl⟩ : ∃ n, fuel = n + 1 := ⟨fuel - 1, by omega⟩
    rw [Stylesheet.readWithin, hsplit]
    dsimp only
    rw [if_pos rfl, ih (by omega)]
    rfl
  | style hblock hhead _ ih | keyframes hblock hhead _ ih | other hblock hhead _ ih =>
    obtain ⟨fuel, rfl, -, hafter⟩ := hblock.exists_bound hfuel
    rw [hblock.readWithin_eq, hhead, ih hafter]
  | group hblock hhead _ _ ihbody ih =>
    obtain ⟨fuel, rfl, hbody, hafter⟩ := hblock.exists_bound hfuel
    rw [hblock.readWithin_eq, hhead, ihbody hbody, ih hafter]

/-- Reading goes on behind a text of complete rules. -/
theorem Reads.append {t : List Char} {more : Stylesheet} (h : Reads s sheet)
    (hwhole : sheet.tail = []) (ht : Reads t more) :
    Reads (s ++ t) ⟨sheet.rules ++ more.rules, more.tail⟩ := by
  induction h with
  | tail =>
    obtain rfl := hwhole
    exact ht
  | statement hsplit _ ih => exact .statement (splitAtDelimiter?_append hsplit t) (ih hwhole)
  | style hblock hhead _ ih => exact .style (hblock.append t) hhead (ih hwhole)
  | keyframes hblock hhead _ ih => exact .keyframes (hblock.append t) hhead (ih hwhole)
  | group hblock hhead hbody _ _ ih => exact .group (hblock.append t) hhead hbody (ih hwhole)
  | other hblock hhead _ ih => exact .other (hblock.append t) hhead (ih hwhole)

/-- **Reading is local to rules.** -/
theorem Stylesheet.ofChars_append (hwhole : (Stylesheet.ofChars s).tail = []) (t : List Char) :
    Stylesheet.ofChars (s ++ t) =
      ⟨(Stylesheet.ofChars s).rules ++ (Stylesheet.ofChars t).rules, (Stylesheet.ofChars t).tail⟩ :=
  ((reads_ofChars s).append hwhole (reads_ofChars t)).readWithin_eq (Nat.le_refl _)

/-! ### Scoping -/

theorem Rule.allScoped?_append (scope : Scope) (rules more : List Rule) :
    Rule.allScoped? scope (rules ++ more) =
      (Rule.allScoped? scope rules).bind fun front ↦
        (Rule.allScoped? scope more).map (front ++ ·) := by
  induction rules with
  | nil =>
    rw [List.nil_append, Rule.allScoped?]
    cases Rule.allScoped? scope more <;> rfl
  | cons rule rules ih =>
    rw [List.cons_append, Rule.allScoped?_cons, Rule.allScoped?_cons, ih]
    cases rule.scoped? scope with
    | none => rfl
    | some first =>
      cases Rule.allScoped? scope rules with
      | none => rfl
      | some front => cases Rule.allScoped? scope more <;> simp

theorem Rule.anyDeclaresKeyframes_append (rules more : List Rule) :
    Rule.anyDeclaresKeyframes (rules ++ more) =
      (Rule.anyDeclaresKeyframes rules || Rule.anyDeclaresKeyframes more) := by
  induction rules with
  | nil => rfl
  | cons rule rules ih =>
    rw [List.cons_append, Rule.anyDeclaresKeyframes, ih, ← Bool.or_assoc]
    rfl

/-- Without keyframes a scoped stylesheet is its scoped rules and its tail. -/
theorem scopeStylesheet?_eq_of_no_keyframes {source : String} (owner : String)
    (hframes : Rule.anyDeclaresKeyframes (Stylesheet.ofChars source.toList).rules = false) :
    scopeStylesheet? source owner =
      (Rule.allScoped? (.ofIdentity owner) (Stylesheet.ofChars source.toList).rules).map fun inner ↦
        .ofList (inner ++ (Stylesheet.ofChars source.toList).tail) := by
  have hnames := Rule.allKeyframesNames_eq_nil (.ofIdentity owner) _ hframes
  rw [scopeStylesheet?, Stylesheet.scoped?, hnames, Option.map_map]
  rfl

/-- **Scoping is local to rules.** When the first of two texts is a sequence of complete rules and
neither declares keyframes, both together are scoped to what the two are scoped to, one behind the
other; and they have a scoped text exactly if each of the two has one. -/
theorem scopeStylesheet?_append {source more : String} (owner : String)
    (hwhole : (Stylesheet.ofChars source.toList).tail = [])
    (hframes : Rule.anyDeclaresKeyframes (Stylesheet.ofChars source.toList).rules = false)
    (hmore : Rule.anyDeclaresKeyframes (Stylesheet.ofChars more.toList).rules = false) :
    scopeStylesheet? (source ++ more) owner =
      (scopeStylesheet? source owner).bind fun front ↦
        (scopeStylesheet? more owner).map (front ++ ·) := by
  have hread : Stylesheet.ofChars (source ++ more).toList =
      ⟨(Stylesheet.ofChars source.toList).rules ++ (Stylesheet.ofChars more.toList).rules,
        (Stylesheet.ofChars more.toList).tail⟩ := by
    rw [String.toList_append, Stylesheet.ofChars_append hwhole]
  have hboth : Rule.anyDeclaresKeyframes (Stylesheet.ofChars (source ++ more).toList).rules =
      false := by
    rw [hread, Rule.anyDeclaresKeyframes_append, hframes, hmore]
    rfl
  rw [scopeStylesheet?_eq_of_no_keyframes owner hboth,
    scopeStylesheet?_eq_of_no_keyframes owner hframes,
    scopeStylesheet?_eq_of_no_keyframes owner hmore, hread, hwhole, Rule.allScoped?_append]
  cases Rule.allScoped? (.ofIdentity owner) (Stylesheet.ofChars source.toList).rules with
  | none => rfl
  | some front =>
    cases Rule.allScoped? (.ofIdentity owner) (Stylesheet.ofChars more.toList).rules with
    | none => rfl
    | some back => simp [String.ofList_append, String.append_assoc]

theorem scopeStylesheet?_append_card :
    let source := "/*\x7b*/h1, :is(a, b) > i\x7bc:'\x7d;'\x7d@x url(;);@media (y)\x7bd:e\x7b/*\x7d*/f:g\x7dh\x7d"
    let more := "\x7d.k::l \x7bm:n\x7d\n/*o*/@font-face\x7b\x7dp\x7b"
    let front := "/*\x7b*/h1[data-p-1f], :is(a, b) > i[data-p-1f]\x7bc:'\x7d;'\x7d@x url(;);" ++
      "@media (y)\x7bd[data-p-1f]:e\x7b/*\x7d*/f:g\x7dh\x7d"
    let back := "\x7d.k[data-p-1f]::l \x7bm:n\x7d\n/*o*/@font-face\x7b\x7dp\x7b"
    (Stylesheet.ofChars source.toList).tail = [] ∧
      Rule.anyDeclaresKeyframes (Stylesheet.ofChars source.toList).rules = false ∧
      Rule.anyDeclaresKeyframes (Stylesheet.ofChars more.toList).rules = false ∧
      scopeStylesheet? source "1f" = some front ∧ scopeStylesheet? more "1f" = some back ∧
      scopeStylesheet? (source ++ more) "1f" = some (front ++ back) := by
  intro source more front back
  have hwhole : (Stylesheet.ofChars source.toList).tail = [] := by decide +kernel
  have hframes : Rule.anyDeclaresKeyframes (Stylesheet.ofChars source.toList).rules = false := by
    decide +kernel
  have hmore : Rule.anyDeclaresKeyframes (Stylesheet.ofChars more.toList).rules = false := by
    decide +kernel
  have hfront : scopeStylesheet? source "1f" = some front := by decide +kernel
  have hback : scopeStylesheet? more "1f" = some back := by decide +kernel
  refine ⟨hwhole, hframes, hmore, hfront, hback, ?_⟩
  rw [scopeStylesheet?_append "1f" hwhole hframes hmore, hfront, hback]
  rfl

end AppletBundle.Style
