import AppletBundle.Proofs.Text.Words
import AppletBundle.Style.Animation

/-!
# Declarations in a text

Declarations that may refer to keyframes are found by their text alone. `IsProper` says what such a
declaration looks like, without the reader; a proper declaration is read wherever its value ends
(`read?_chars_append`).

The search goes through the text once, and what a declaration holds is passed over. So a place is
searched exactly if no declaration before it reaches over it (`Unreached`), and then the search
before the place and the search from the place on are two searches (`renameAt_append`). That a
declaration is read does not depend on what follows its value: `read?_of_append` and
`isSome_read?_append` compare the reader on a text and on a longer one.
-/

namespace AppletBundle.Style

open AppletBundle.Text

namespace AnimationDeclaration

/-! ### What a declaration looks like -/

/-- The text of a declaration. -/
def chars (d : AnimationDeclaration) : List Char :=
  d.property ++ d.colon ++ d.value

@[simp] theorem length_chars (d : AnimationDeclaration) : d.chars.length = d.length := by
  simp [chars, length, Nat.add_assoc]

/-- Nothing, or the prefix of a vendor between two dashes. -/
def IsVendor (vendor : List Char) : Prop :=
  vendor = [] ∨ ∃ name, name ≠ [] ∧ (∀ c ∈ name, isWord c) ∧ vendor = '-' :: name ++ ['-']

/-- The name of a property that refers to keyframes. -/
def propertyName : Bool → List Char
  | false => "animation".toList
  | true => "animation-name".toList

/-- A property that refers to keyframes, with or without the prefix of a vendor. -/
def IsProperty (isNameList : Bool) (property : List Char) : Prop :=
  ∃ vendor, IsVendor vendor ∧ property = vendor ++ propertyName isNameList

/-- A colon with white space around it. -/
def IsColon (colon : List Char) : Prop :=
  ∃ before after, (∀ c ∈ before, isBlank c) ∧ (∀ c ∈ after, isBlank c) ∧
    colon = before ++ ':' :: after

/-- A declaration with the property, the colon and a value. -/
structure IsProper (d : AnimationDeclaration) : Prop where
  property : IsProperty d.isNameList d.property
  colon : IsColon d.colon
  begins : ∃ c rest, d.value = c :: rest ∧ isBlank c = false
  inside : ∀ c ∈ d.value, isValueEnd c = false

/-- A value ends before this text. -/
def Stops (s : List Char) : Prop :=
  ∀ c ∈ s.head?, isValueEnd c = true

instance (s : List Char) : Decidable (Stops s) :=
  decidable_of_iff (s.head?.all isValueEnd = true) (Option.all_eq_true _ _)

/-! ### Reading the property -/

variable {s t u property : List Char} {isNameList : Bool} {d : AnimationDeclaration}

/-- A text begins with a colon, or with white space in front of one. -/
def BeginsColon (s : List Char) : Prop :=
  ∃ before rest, (∀ c ∈ before, isBlank c) ∧ s = before ++ ':' :: rest

theorem readWord?_append (word s : List Char) : readWord? word (word ++ s) = some s := by
  simp [readWord?]

theorem readWord?_eq_some (h : readWord? property s = some t) : s = property ++ t := by
  rw [readWord?] at h
  split at h
  · rename_i hprefix
    obtain ⟨rest, rfl⟩ := List.isPrefixOf_iff_prefix.1 hprefix
    simpa using h
  · cases h

theorem readVendor_append {vendor : List Char} (h : IsVendor vendor)
    (hs : s.head? = some 'a') : readVendor (vendor ++ s) = (vendor, s) := by
  obtain ⟨s, rfl⟩ : ∃ rest, s = 'a' :: rest := by
    rcases s with - | ⟨c, s⟩
    · cases hs
    · exact ⟨s, congrArg (· :: s) (Option.some.inj hs)⟩
  obtain rfl | ⟨name, hne, hname, rfl⟩ := h
  · rfl
  · have hdash : ∀ c ∈ ('-' :: 'a' :: s).head?, isWord c = false := fun c hc ↦ by
      cases hc
      decide
    have htake := takeWhile_append_stop hname hdash
    have hdrop := dropWhile_append_stop hname hdash
    obtain ⟨c, name, rfl⟩ := List.exists_cons_of_ne_nil hne
    have htext : '-' :: (c :: name) ++ ['-'] ++ 'a' :: s =
        '-' :: (c :: name ++ '-' :: 'a' :: s) := by simp
    rw [htext, readVendor]
    simp only [htake, hdrop]

theorem readVendor_spec (s : List Char) :
    IsVendor (readVendor s).1 ∧ s = (readVendor s).1 ++ (readVendor s).2 := by
  have hnone : IsVendor [] ∧ s = [] ++ s := ⟨.inl rfl, rfl⟩
  unfold readVendor
  split
  · rename_i rest
    split
    · exact hnone
    · rename_i after hdrop hne
      refine ⟨.inr ⟨rest.takeWhile isWord, hne, fun c hc ↦ ?_, rfl⟩, ?_⟩
      · exact List.mem_takeWhile_imp hc
      · conv_lhs => rw [← List.takeWhile_append_dropWhile (p := isWord) (l := rest), hdrop]
        simp
    · exact hnone
  · exact hnone

theorem propertyName_false : propertyName false = "animation".toList :=
  rfl

theorem propertyName_true : propertyName true = "animation".toList ++ "-name".toList := by
  decide

theorem BeginsColon.readWord?_eq_none (h : BeginsColon s) : readWord? "-name".toList s = none := by
  obtain ⟨before, rest, hblank, rfl⟩ := h
  rcases before with - | ⟨c, before⟩
  · rfl
  · have hdash : ¬ '-' = c := fun h ↦
      absurd (h ▸ hblank c List.mem_cons_self) (by decide)
    simp [readWord?, List.isPrefixOf, hdash]

theorem read?_eq (s : List Char) :
    read? s = (readWord? "animation".toList (readVendor s).2).bind fun rest ↦
      match readWord? "-name".toList rest with
      | some rest => readValue? ((readVendor s).1 ++ "animation".toList ++ "-name".toList) true rest
      | none => readValue? ((readVendor s).1 ++ "animation".toList) false rest := by
  rfl

/-- The reader takes a property for what it is. -/
theorem read?_append (hproperty : IsProperty isNameList property) (ht : BeginsColon t) :
    read? (property ++ t) = readValue? property isNameList t := by
  obtain ⟨vendor, hvendor, rfl⟩ := hproperty
  have hword : ∀ u, readVendor (vendor ++ ("animation".toList ++ u)) =
      (vendor, "animation".toList ++ u) :=
    fun u ↦ readVendor_append hvendor (by simp)
  cases isNameList with
  | false =>
    rw [propertyName_false, List.append_assoc, read?_eq, hword, readWord?_append, Option.bind_some,
      ht.readWord?_eq_none]
  | true =>
    rw [propertyName_true, List.append_assoc, List.append_assoc, read?_eq, hword, readWord?_append,
      Option.bind_some, readWord?_append, List.append_assoc]

theorem exists_of_read?_eq_some (h : read? s = some d) :
    ∃ property isNameList t, IsProperty isNameList property ∧ s = property ++ t ∧
      readValue? property isNameList t = some d := by
  obtain ⟨hvendor, hs⟩ := readVendor_spec s
  rw [read?_eq] at h
  obtain ⟨rest, hrest, hvalue⟩ := Option.bind_eq_some_iff.1 h
  rw [readWord?_eq_some hrest] at hs
  rcases hname : readWord? "-name".toList rest with - | t
  · rw [hname] at hvalue
    refine ⟨_, false, rest, ⟨_, hvendor, rfl⟩, ?_, ?_⟩
    · rw [propertyName_false, List.append_assoc]
      exact hs
    · rw [propertyName_false]
      exact hvalue
  · rw [hname] at hvalue
    refine ⟨_, true, t, ⟨_, hvendor, rfl⟩, ?_, ?_⟩
    · rw [propertyName_true, List.append_assoc, List.append_assoc, ← readWord?_eq_some hname]
      exact hs
    · rw [propertyName_true, ← List.append_assoc]
      exact hvalue

/-! ### Reading the value -/

/-- What stands in front of the next end of a value. -/
def beforeEnd (s : List Char) : List Char :=
  s.takeWhile (!isValueEnd ·)

/-- No character of a class without the two ends of a value ends one. -/
theorem isValueEnd_eq_false {p : Char → Bool} (hp : p ';' = false ∧ p '\x7d' = false) {c : Char}
    (hc : p c = true) : isValueEnd c = false := by
  cases hend : isValueEnd c with
  | false => rfl
  | true =>
    rw [isValueEnd, Bool.or_eq_true, beq_iff_eq, beq_iff_eq] at hend
    obtain rfl | rfl := hend
    · exact absurd hc (by rw [hp.1]; decide)
    · exact absurd hc (by rw [hp.2]; decide)

theorem isValueEnd_of_isBlank {c : Char} (hc : isBlank c = true) : isValueEnd c = false :=
  isValueEnd_eq_false (by decide) hc

/-- A value and the white space in front of it are what stands before the next end. -/
theorem blanks_beforeEnd (s : List Char) :
    (beforeEnd s).takeWhile isBlank = s.takeWhile isBlank ∧
      (beforeEnd s).dropWhile isBlank = (s.dropWhile isBlank).takeWhile (!isValueEnd ·) := by
  induction s with
  | nil => exact ⟨rfl, rfl⟩
  | cons c s ih =>
    cases hc : isBlank c with
    | true =>
      have hend := isValueEnd_of_isBlank hc
      simpa [beforeEnd, hend, hc] using ih
    | false => cases hend : isValueEnd c <;> simp [beforeEnd, hend, hc]

theorem beforeEnd_append (hs : ∀ c ∈ s, isValueEnd c = false) (ht : Stops t) :
    beforeEnd (s ++ t) = s :=
  takeWhile_append_stop (fun c hc ↦ by rw [hs c hc]; rfl) fun c hc ↦ by rw [ht c hc]; rfl

theorem exists_eq_beforeEnd_append (s : List Char) :
    ∃ rest, s = beforeEnd s ++ rest ∧ Stops rest := by
  refine ⟨s.dropWhile (!isValueEnd ·), List.takeWhile_append_dropWhile.symm, fun c hc ↦ ?_⟩
  have hhead := List.head?_dropWhile_not (!isValueEnd ·) s
  rw [Option.mem_def.1 hc] at hhead
  simpa using hhead

variable {before : List Char}

theorem readValue?_colon (hbefore : ∀ c ∈ before, isBlank c) (s : List Char) :
    readValue? property isNameList (before ++ ':' :: s) =
      match (beforeEnd s).dropWhile isBlank, ((beforeEnd s).takeWhile isBlank).getLast? with
      | [], none => none
      | [], some blank => some ⟨property, isNameList,
          before ++ ':' :: ((beforeEnd s).takeWhile isBlank).dropLast, [blank]⟩
      | c :: value, _ => some ⟨property, isNameList,
          before ++ ':' :: (beforeEnd s).takeWhile isBlank, c :: value⟩ := by
  have hcolon : ∀ c ∈ (':' :: s).head?, isBlank c = false := fun c hc ↦ by
    cases hc
    decide
  have htake := takeWhile_append_stop hbefore hcolon
  have hdrop := dropWhile_append_stop hbefore hcolon
  rw [(blanks_beforeEnd s).1, (blanks_beforeEnd s).2]
  simp only [readValue?, hdrop, htake]
  cases (s.dropWhile isBlank).takeWhile (!isValueEnd ·) <;>
    cases (s.takeWhile isBlank).getLast? <;> rfl

theorem beginsColon_of_readValue?_eq_some (h : readValue? property isNameList t = some d) :
    BeginsColon t := by
  rw [readValue?] at h
  split at h
  · rename_i rest hrest
    refine ⟨t.takeWhile isBlank, rest, fun c hc ↦ List.mem_takeWhile_imp hc, ?_⟩
    rw [← hrest, List.takeWhile_append_dropWhile]
  · cases h

theorem length_of_readValue?_eq_some (hbefore : ∀ c ∈ before, isBlank c)
    (h : readValue? property isNameList (before ++ ':' :: s) = some d) :
    beforeEnd s ≠ [] ∧ d.length = property.length + (before.length + 1 + (beforeEnd s).length) := by
  have hparts := List.takeWhile_append_dropWhile (p := isBlank) (l := beforeEnd s)
  have hlength := congrArg List.length hparts
  rw [List.length_append] at hlength
  rw [readValue?_colon hbefore] at h
  split at h
  · cases h
  · rename_i blank hvalue hgap
    obtain rfl := Option.some.inj h
    have hpos := List.length_pos_iff.2 (List.ne_nil_of_mem (List.mem_of_getLast? hgap))
    rw [hvalue] at hlength
    refine ⟨fun hnil ↦ ?_, ?_⟩
    · rw [hnil] at hpos
      exact absurd hpos (Nat.lt_irrefl 0)
    · simp only [length, List.length_append, List.length_cons, List.length_dropLast,
        List.length_nil] at hlength ⊢
      omega
  · rename_i c value hvalue
    obtain rfl := Option.some.inj h
    rw [hvalue] at hlength hparts
    refine ⟨fun hnil ↦ ?_, ?_⟩
    · rw [hnil] at hparts
      simp at hparts
    · simp only [length, List.length_append, List.length_cons] at hlength ⊢
      omega

theorem isSome_readValue?_colon (hbefore : ∀ c ∈ before, isBlank c) (hs : beforeEnd s ≠ []) :
    (readValue? property isNameList (before ++ ':' :: s)).isSome = true := by
  rw [readValue?_colon hbefore]
  split
  · rename_i hvalue hgap
    rw [List.getLast?_eq_none_iff] at hgap
    have hnil := List.takeWhile_append_dropWhile (p := isBlank) (l := beforeEnd s)
    rw [hvalue, hgap] at hnil
    exact absurd hnil.symm hs
  · rfl
  · rfl

theorem readValue?_congr (hbefore : ∀ c ∈ before, isBlank c) (h : beforeEnd s = beforeEnd t) :
    readValue? property isNameList (before ++ ':' :: s) =
      readValue? property isNameList (before ++ ':' :: t) := by
  rw [readValue?_colon hbefore, readValue?_colon hbefore, h]

/-! ### Reading a declaration -/

/-- **A proper declaration is read** where its value ends. -/
theorem read?_chars_append (hd : d.IsProper) (ht : Stops t) : read? (d.chars ++ t) = some d := by
  obtain ⟨before, after, hbefore, hafter, hcolon⟩ := hd.colon
  obtain ⟨c, rest, hvalue, hc⟩ := hd.begins
  have htext : d.chars ++ t = d.property ++ (before ++ ':' :: (after ++ d.value ++ t)) := by
    rw [chars, hcolon]
    simp
  have hend : beforeEnd (after ++ d.value ++ t) = after ++ d.value := by
    refine beforeEnd_append (fun x hx ↦ ?_) ht
    rcases List.mem_append.1 hx with hx | hx
    · exact isValueEnd_of_isBlank (hafter x hx)
    · exact hd.inside x hx
  have hstop : ∀ x ∈ d.value.head?, isBlank x = false := fun x hx ↦ by
    rw [hvalue] at hx
    cases hx
    exact hc
  have htake := takeWhile_append_stop hafter hstop
  have hdrop := dropWhile_append_stop hafter hstop
  rw [htext, read?_append hd.property ⟨before, _, hbefore, rfl⟩, readValue?_colon hbefore, hend,
    htake, hdrop, hvalue]
  dsimp only
  rw [← hvalue, ← hcolon]

/-- What is read in front of the end of a text is read without the text after it. -/
theorem read?_of_append (h : read? (s ++ t) = some d) (hlength : d.length < s.length) :
    read? s = some d := by
  obtain ⟨property, isNameList, u, hproperty, hs, hvalue⟩ := exists_of_read?_eq_some h
  obtain ⟨before, after, hbefore, rfl⟩ := beginsColon_of_readValue?_eq_some hvalue
  obtain ⟨rest, hafter, hrest⟩ := exists_eq_beforeEnd_append after
  have hd := (length_of_readValue?_eq_some hbefore hvalue).2
  have htext : s ++ t = property ++ (before ++ ':' :: beforeEnd after) ++ rest := by
    conv_lhs => rw [hs, hafter]
    simp
  obtain ⟨s', rfl⟩ : property ++ (before ++ ':' :: beforeEnd after) <+: s := by
    refine List.prefix_of_prefix_length_le ⟨rest, htext.symm⟩ (List.prefix_append s t) ?_
    simp only [List.length_append, List.length_cons]
    omega
  have hs' : Stops s' := by
    rw [List.append_assoc, List.append_cancel_left_eq] at htext
    rcases s' with - | ⟨c, s'⟩
    · exact fun c hc ↦ by cases hc
    · rw [← htext] at hrest
      exact fun x hx ↦ hrest x hx
  have hend : beforeEnd (beforeEnd after ++ s') = beforeEnd after :=
    beforeEnd_append (fun c hc ↦ by simpa using List.mem_takeWhile_imp hc) hs'
  rw [← hvalue, ← readValue?_congr hbefore hend, ← read?_append hproperty ⟨before, _, hbefore, rfl⟩]
  simp

/-- Where a declaration is read, one is read whatever follows. -/
theorem isSome_read?_append (h : read? s = some d) (t : List Char) :
    (read? (s ++ t)).isSome = true := by
  obtain ⟨property, isNameList, u, hproperty, rfl, hvalue⟩ := exists_of_read?_eq_some h
  obtain ⟨before, after, hbefore, rfl⟩ := beginsColon_of_readValue?_eq_some hvalue
  obtain ⟨hne, -⟩ := length_of_readValue?_eq_some hbefore hvalue
  have htext : property ++ (before ++ ':' :: after) ++ t =
      property ++ (before ++ ':' :: (after ++ t)) := by simp
  rw [htext, read?_append hproperty ⟨before, _, hbefore, rfl⟩]
  refine isSome_readValue?_colon hbefore fun hnil ↦ hne ?_
  rcases after with - | ⟨c, after⟩
  · rfl
  · simp only [beforeEnd, List.cons_append, List.takeWhile_cons] at hnil ⊢
    split at hnil
    · cases hnil
    · rename_i hc
      rw [if_neg hc]

theorem read?_nil : read? [] = none := by
  decide

theorem length_pos_of_read?_eq_some (h : read? s = some d) : 0 < d.length := by
  obtain ⟨property, isNameList, u, -, -, hvalue⟩ := exists_of_read?_eq_some h
  obtain ⟨before, after, hbefore, rfl⟩ := beginsColon_of_readValue?_eq_some hvalue
  have hd := (length_of_readValue?_eq_some hbefore hvalue).2
  omega

end AnimationDeclaration

/-! ### Places of a text -/

open AnimationDeclaration

variable {s t rest : List Char} {opened : Bool} {d : AnimationDeclaration}

/-- Whether a declaration may follow a text, when one may stand at its beginning or not. -/
def openedAfter (opened : Bool) (s : List Char) : Bool :=
  s.foldl (fun _ c ↦ opensDeclaration c) opened

/-- No declaration that the search finds in front of a place reaches over the place. -/
def Unreached (rest : List Char) : Bool → List Char → Prop
  | _, [] => True
  | opened, c :: s =>
    (opened = true → ∀ d ∈ read? (c :: s ++ rest), d.length ≤ s.length) ∧
      Unreached rest (opensDeclaration c) s

instance (rest : List Char) :
    (opened : Bool) → (s : List Char) → Decidable (Unreached rest opened s)
  | _, [] => .isTrue trivial
  | opened, c :: s =>
    have := instDecidableUnreached rest (opensDeclaration c) s
    inferInstanceAs (Decidable ((opened = true → ∀ d ∈ read? (c :: s ++ rest),
      d.length ≤ s.length) ∧ Unreached rest (opensDeclaration c) s))

theorem openedAfter_of_ne_nil (hs : s ≠ []) (opened opened' : Bool) :
    openedAfter opened s = openedAfter opened' s := by
  obtain ⟨c, s, rfl⟩ := List.exists_cons_of_ne_nil hs
  rfl

theorem openedAfter_drop {n : ℕ} (hn : n < s.length) (opened opened' : Bool) :
    openedAfter opened (s.drop n) = openedAfter opened' s := by
  have hne : s.drop n ≠ [] := by simpa using hn
  conv_rhs => rw [← List.take_append_drop n s, openedAfter, List.foldl_append]
  exact openedAfter_of_ne_nil hne _ _

theorem Unreached.closed (h : Unreached rest opened s) : Unreached rest false s := by
  cases s with
  | nil => trivial
  | cons c s => exact ⟨nofun, h.2⟩

theorem Unreached.drop (h : Unreached rest opened s) (n : ℕ) : Unreached rest false (s.drop n) := by
  induction n generalizing s opened with
  | zero => exact h.closed
  | succ n ih =>
    cases s with
    | nil => trivial
    | cons c s => exact ih h.2

/-! ### The search -/

variable {r : Renaming}

theorem renameFrom_eq_drop (r : Renaming) (k : ℕ) (s : List Char) :
    renameFrom r k s = renameFrom r 0 (s.drop k) := by
  induction s generalizing k with
  | nil => cases k <;> rfl
  | cons c s ih =>
    cases k with
    | zero => rfl
    | succ k => exact ih k

/-- The search in a text, at whose beginning a declaration may stand or not. -/
def renameAt (r : Renaming) (opened : Bool) (s : List Char) : List Char :=
  if opened then renameAnimations r s else renameFrom r 0 s

theorem renameAt_nil (r : Renaming) (opened : Bool) : renameAt r opened [] = [] := by
  cases opened with
  | false => rfl
  | true =>
    rw [renameAt, if_pos rfl, renameAnimations, read?_nil]
    rfl

theorem renameAt_of_read?_eq_some (h : read? s = some d) :
    renameAt r true s = d.rename r ++ renameAt r false (s.drop d.length) := by
  rw [renameAt, if_pos rfl, renameAnimations, h]
  dsimp only
  rw [renameFrom_eq_drop]
  rfl

theorem renameAt_of_read?_eq_none (h : read? s = none) :
    renameAt r true s = renameAt r false s := by
  rw [renameAt, if_pos rfl, renameAnimations, h]
  rfl

theorem renameAt_cons (r : Renaming) (c : Char) (s : List Char) :
    renameAt r false (c :: s) = c :: renameAt r (opensDeclaration c) s := by
  rw [renameAt, if_neg Bool.false_ne_true, renameFrom]
  cases opensDeclaration c with
  | false => rfl
  | true =>
    rw [if_pos rfl]
    cases hread : read? s with
    | none => rw [renameAt_of_read?_eq_none hread]; rfl
    | some d =>
      rw [renameAt_of_read?_eq_some hread]
      dsimp only
      rw [renameFrom_eq_drop]
      rfl

/-- **The search before a place that nothing reaches over, and from it on.** -/
theorem renameAt_append (r : Renaming) (h : Unreached rest opened s) :
    renameAt r opened (s ++ rest) =
      renameAt r opened s ++ renameAt r (openedAfter opened s) rest := by
  induction hn : s.length using Nat.strongRecOn generalizing s opened with
  | ind n ih =>
    subst hn
    cases s with
    | nil => rw [renameAt_nil]; rfl
    | cons c s =>
      have hclosed : renameAt r false (c :: s ++ rest) =
          renameAt r false (c :: s) ++ renameAt r (openedAfter opened (c :: s)) rest := by
        rw [List.cons_append, renameAt_cons, renameAt_cons,
          ih s.length (Nat.lt_succ_self _) h.2 rfl]
        rfl
      cases opened with
      | false => exact hclosed
      | true =>
        cases hread : read? (c :: s ++ rest) with
        | none =>
          have hnone : read? (c :: s) = none := by
            by_contra hsome
            obtain ⟨d, hd⟩ := Option.ne_none_iff_exists'.1 hsome
            have hlonger := isSome_read?_append hd rest
            rw [hread] at hlonger
            cases hlonger
          rw [renameAt_of_read?_eq_none hread, renameAt_of_read?_eq_none hnone, hclosed]
        | some d =>
          have hlength : d.length < (c :: s).length := Nat.lt_succ_of_le (h.1 rfl d hread)
          have hpos := length_pos_of_read?_eq_some hread
          have hdrop : ((c :: s).drop d.length).length < (c :: s).length := by
            rw [List.length_drop]
            omega
          have hread' := read?_of_append hread hlength
          rw [renameAt_of_read?_eq_some hread, renameAt_of_read?_eq_some hread',
            List.drop_append_of_le_length hlength.le, ih _ hdrop (h.drop d.length) rfl,
            openedAfter_drop hlength false true, List.append_assoc]

/-- **The search renames a proper declaration at a place that it reaches.** -/
theorem renameAnimations_declaration (r : Renaming) (hd : d.IsProper) (hrest : Stops rest)
    (hopened : openedAfter true s = true) (hs : Unreached (d.chars ++ rest) true s) :
    renameAnimations r (s ++ (d.chars ++ rest)) =
      renameAnimations r s ++ (d.rename r ++ renameFrom r 0 rest) := by
  have hplace := renameAt_append r hs
  have hread := read?_chars_append hd hrest
  rw [hopened, renameAt_of_read?_eq_some hread, ← length_chars, List.drop_left] at hplace
  exact hplace

/-! ### Text without colons -/

theorem not_mem_property {property : List Char} {isNameList : Bool}
    (h : IsProperty isNameList property) : '\x7b' ∉ property := by
  obtain ⟨vendor, hvendor, rfl⟩ := h
  have hname : '\x7b' ∉ propertyName isNameList := by
    cases isNameList <;> decide
  rw [List.mem_append, not_or]
  refine ⟨?_, hname⟩
  obtain rfl | ⟨name, -, hword, rfl⟩ := hvendor
  · exact List.not_mem_nil
  · intro hmem
    have hmem' : '\x7b' ∈ name := by simpa using hmem
    exact absurd (hword _ hmem') (by decide)

/-- No declaration has its colon behind an opening brace. -/
theorem read?_append_brace (hs : ':' ∉ s) (rest : List Char) :
    read? (s ++ '\x7b' :: rest) = none := by
  by_contra hsome
  obtain ⟨d, hd⟩ := Option.ne_none_iff_exists'.1 hsome
  obtain ⟨property, isNameList, u, hproperty, htext, hvalue⟩ := exists_of_read?_eq_some hd
  obtain ⟨before, after, hbefore, rfl⟩ := beginsColon_of_readValue?_eq_some hvalue
  have hfront : '\x7b' ∉ property ++ before := by
    rw [List.mem_append, not_or]
    exact ⟨not_mem_property hproperty, fun hmem ↦ absurd (hbefore _ hmem) (by decide)⟩
  rw [← List.append_assoc, List.append_eq_append_iff] at htext
  obtain ⟨u, hu, hrest⟩ | ⟨u, hu, hrest⟩ := htext
  · rcases u with - | ⟨c, u⟩
    · simp at hrest
    · obtain ⟨rfl, -⟩ := List.cons.inj hrest
      exact hfront (by rw [hu]; simp)
  · rcases u with - | ⟨c, u⟩
    · simp at hrest
    · obtain ⟨rfl, -⟩ := List.cons.inj hrest
      exact hs (by rw [hu]; simp)

/-- **The search copies text without colons in front of a block.** -/
theorem renameAt_append_brace (r : Renaming) (opened : Bool) (hs : ':' ∉ s) (rest : List Char) :
    renameAt r opened (s ++ '\x7b' :: rest) = s ++ '\x7b' :: renameAnimations r rest := by
  have hclose : renameAt r opened (s ++ '\x7b' :: rest) =
      renameAt r false (s ++ '\x7b' :: rest) := by
    cases opened with
    | false => rfl
    | true => exact renameAt_of_read?_eq_none (read?_append_brace hs rest)
  rw [hclose]
  induction s generalizing opened with
  | nil =>
    rw [List.nil_append, renameAt_cons]
    rfl
  | cons c s ih =>
    have hs' : ':' ∉ s := fun hmem ↦ hs (List.mem_cons_of_mem _ hmem)
    rw [List.cons_append, renameAt_cons]
    refine congrArg (c :: ·) ?_
    cases hopens : opensDeclaration c with
    | false => exact ih false hs' rfl
    | true =>
      rw [renameAt_of_read?_eq_none (read?_append_brace hs' rest)]
      exact ih true hs' (renameAt_of_read?_eq_none (read?_append_brace hs' rest))

end AppletBundle.Style
