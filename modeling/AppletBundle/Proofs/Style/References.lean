import AppletBundle.Proofs.Style.Declarations
import AppletBundle.Proofs.Style.Ownership
import AppletBundle.Proofs.Text.Words
import Mathlib.Data.List.Forall2

/-!
# References to keyframes

An item of a declaration refers to keyframes by its first identifier that is no keyword and stands
outside brackets, in front of the priority. `reference?` says so of the text of an item, without
what the renaming does.

The renaming works on the parts between all commas, those inside brackets included, and on the words
of a part. `gather` puts parts together to items again, and as names bring no brackets the items
afterwards are made of the same parts (`forall₂_itemsOf`). In an item in which the declared
names stand for nothing but the reference (`IsClear`) every word is replaced by itself or by its new
name (`words_ofPart`), so the reference is the new name (`referenceIn_map`).
-/

namespace AppletBundle.Style

open AppletBundle.Text

/-! ### What an item refers to -/

/-- A character of a name: one of an identifier that is no white space. -/
def isNameChar (c : Char) : Bool :=
  isIdentChar c && !isBlank c

/-- Whether a word begins like an identifier, and not like a number. -/
def beginsIdentifier : List Char → Bool
  | [] => false
  | c :: rest => if c = '-' then rest.head?.any (!·.isDigit) else !c.isDigit

/-- Whether a word is an identifier. -/
def isIdentifier (w : List Char) : Bool :=
  beginsIdentifier w && w.all isNameChar

/-- The words that are the value of any property. -/
def wideKeywords : List String :=
  ["initial", "inherit", "unset", "revert", "revert-layer", "default"]

/-- The words with a meaning of their own in a shorthand. -/
def shorthandKeywords : List String :=
  ["linear", "ease", "ease-in", "ease-out", "ease-in-out", "step-start", "step-end", "infinite",
    "normal", "reverse", "alternate", "alternate-reverse", "forwards", "backwards", "both",
    "running", "paused"]

/-- Whether a word is a keyword, in capital letters or not. -/
def isKeyword (isNameList : Bool) (w : List Char) : Bool :=
  let word := String.ofList (w.map Char.toLower)
  word == "none" || word ∈ wideKeywords || !isNameList && word ∈ shorthandKeywords

/-- The words in front of the exclamation mark of a priority. -/
def beforePriority : List (List Char) → List (List Char)
  | [] => []
  | w :: ws =>
    if '!' ∈ w then [w.takeWhile (· != '!')].filter (!·.isEmpty) else w :: beforePriority ws

/-- The identifiers among words that stand outside brackets; `depth` brackets are open. -/
def bareIdentifiers (depth : ℕ) : List (List Char) → List (List Char)
  | [] => []
  | w :: ws =>
    let more := bareIdentifiers (w.foldl nest depth) ws
    if depth = 0 ∧ isIdentifier w then w :: more else more

/-- The words of an item, between the commas that brackets hold. -/
def partWords (item : List Char) : List (List (List Char)) :=
  (splitAt (· == ',') item).map words

/-- The name that words refer to. -/
def referenceIn (isNameList : Bool) (ws : List (List Char)) : Option (List Char) :=
  (bareIdentifiers 0 (beforePriority ws)).find? (!isKeyword isNameList ·)

/-- The name of keyframes that an item of a declaration refers to. -/
def reference? (isNameList : Bool) (item : List Char) : Option (List Char) :=
  referenceIn isNameList (partWords item).flatten

/-- The items of a value: its parts between the commas outside brackets. -/
def itemsOf (value : List Char) : List (List Char) :=
  splitTopLevel ',' .outside 0 value

/-- Words are compared as lists; every decision below cites this one fact. -/
local instance lawfulBEq_word : LawfulBEq (List Char) :=
  List.instLawfulBEq

namespace Renaming

/-- What a word becomes. -/
def replaced (r : Renaming) (w : List Char) : List Char :=
  if w ∈ r.names then r.renamed w else w

/-- The declared names that occur in an item can be told from everything else in it. -/
structure IsClear (r : Renaming) (isNameList : Bool) (item : List Char) : Prop where
  /-- A declared name is not written together with a priority. -/
  separate : ∀ w ∈ (partWords item).flatten, '!' ∈ w →
    w.takeWhile (· != '!') = [] ∨ w.takeWhile (· != '!') ∉ r.names
  /-- A declared name occurs as the reference only, and once. -/
  once : (partWords item).flatten.filter (· ∈ r.names) =
    (reference? isNameList item).toList.filter (· ∈ r.names)
  /-- In a list of names it has the space between two commas to itself. -/
  whole : isNameList = true → ∀ part ∈ splitAt (· == ',') item,
    (words part).filter (· ∈ r.names) = [trim part].filter (· ∈ r.names)
  /-- Its new name is no keyword. -/
  fresh : ∀ name ∈ reference? isNameList item, name ∈ r.names →
    isKeyword isNameList (r.renamed name) = false

instance (r : Renaming) (isNameList : Bool) (item : List Char) :
    Decidable (r.IsClear isNameList item) :=
  decidable_of_iff ((∀ w ∈ (partWords item).flatten, '!' ∈ w →
      w.takeWhile (· != '!') = [] ∨ w.takeWhile (· != '!') ∉ r.names) ∧
    (partWords item).flatten.filter (· ∈ r.names) =
      (reference? isNameList item).toList.filter (· ∈ r.names) ∧
    (isNameList = true → ∀ part ∈ splitAt (· == ',') item,
      (words part).filter (· ∈ r.names) = [trim part].filter (· ∈ r.names)) ∧
    ∀ name ∈ reference? isNameList item, name ∈ r.names →
      isKeyword isNameList (r.renamed name) = false)
    ⟨fun ⟨h1, h2, h3, h4⟩ ↦ ⟨h1, h2, h3, h4⟩, fun h ↦ ⟨h.separate, h.once, h.whole, h.fresh⟩⟩

/-- What an item becomes. -/
structure Follows (r : Renaming) (isNameList : Bool) (item item' : List Char) : Prop where
  /-- A reference to declared keyframes follows their new name, and the old one is gone. -/
  renames : ∀ name ∈ reference? isNameList item, name ∈ r.names →
    reference? isNameList item' = some (r.renamed name) ∧ name ∉ (partWords item').flatten
  /-- All other words stay where they are. -/
  words : partWords item' = (partWords item).map (·.map r.replaced)
  /-- An item that refers to no declared keyframes keeps its words. -/
  keeps : (∀ name ∈ reference? isNameList item, name ∉ r.names) → partWords item' = partWords item

end Renaming

/-! ### Identifiers -/

variable {isNameList : Bool} {item w : List Char} {ws : List (List Char)} {depth : ℕ}

theorem isBlank_eq_false_of_isNameChar {c : Char} (hc : isNameChar c = true) :
    isBlank c = false := by
  rw [isNameChar, Bool.and_eq_true, Bool.not_eq_true'] at hc
  exact hc.2

theorem forall_isNameChar (h : isIdentifier w = true) :
    w ≠ [] ∧ ∀ c ∈ w, isNameChar c = true := by
  rw [isIdentifier, Bool.and_eq_true] at h
  refine ⟨?_, List.all_eq_true.1 h.2⟩
  rintro rfl
  cases h.1

theorem not_mem_of_isIdentifier (h : isIdentifier w = true) : '!' ∉ w := fun hmem ↦
  absurd ((forall_isNameChar h).2 _ hmem) (by decide)

theorem beginsIdentifier_append (h : beginsIdentifier w = true) (t : List Char) :
    beginsIdentifier (w ++ t) = true := by
  rcases w with - | ⟨c, w⟩
  · cases h
  · rw [List.cons_append, beginsIdentifier]
    rw [beginsIdentifier] at h
    split
    · rename_i hc
      rw [if_pos hc] at h
      rcases w with - | ⟨d, w⟩
      · cases h
      · exact h
    · rename_i hc
      rwa [if_neg hc] at h

theorem mem_bareIdentifiers (h : w ∈ bareIdentifiers depth ws) :
    w ∈ ws ∧ isIdentifier w = true := by
  induction ws generalizing depth with
  | nil => cases h
  | cons v ws ih =>
    have hrest : ∀ {depth}, w ∈ bareIdentifiers depth ws → w ∈ v :: ws ∧ isIdentifier w = true :=
      fun h ↦ ⟨List.mem_cons_of_mem _ (ih h).1, (ih h).2⟩
    rw [bareIdentifiers] at h
    split at h
    · rename_i hv
      rcases List.mem_cons.1 h with rfl | h
      · exact ⟨List.mem_cons_self, hv.2⟩
      · exact hrest h
    · exact hrest h

theorem isIdentifier_of_reference?_eq (h : reference? isNameList item = some w) :
    isIdentifier w = true :=
  (mem_bareIdentifiers (List.mem_of_find?_eq_some h)).2

/-! ### Brackets -/

variable {s t : List Char}

theorem nest_eq_self {c : Char} (hc : isNameChar c = true ∨ isBlank c = true) :
    nest depth c = depth := by
  have hnone : (['(', '[', ')', ']'].all fun c ↦ !isNameChar c && !isBlank c) = true := by decide
  have hnot : c ∉ ['(', '[', ')', ']'] := by
    intro hmem
    have hc' := List.all_eq_true.1 hnone c hmem
    rcases hc with hc | hc <;> simp [hc] at hc'
  simp only [List.mem_cons, List.not_mem_nil, or_false, not_or] at hnot
  obtain ⟨h1, h2, h3, h4⟩ := hnot
  simp [nest, h1, h2, h3, h4]

theorem foldl_nest_eq_self (ht : ∀ c ∈ t, isNameChar c = true ∨ isBlank c = true) :
    t.foldl nest depth = depth := by
  induction t with
  | nil => rfl
  | cons c t ih =>
    rw [List.foldl_cons, nest_eq_self (ht c List.mem_cons_self)]
    exact ih fun d hd ↦ ht d (List.mem_cons_of_mem _ hd)

/-- White space is no bracket, so the words of a text tell its brackets. -/
theorem foldl_nest_flatten_words (t : List Char) (depth : ℕ) :
    (words t).flatten.foldl nest depth = t.foldl nest depth := by
  rw [flatten_words]
  induction t generalizing depth with
  | nil => rfl
  | cons c t ih =>
    rw [List.filter_cons, List.foldl_cons]
    split
    · exact ih _
    · rename_i hc
      rw [nest_eq_self (.inr (by simpa using hc))]
      exact ih _

theorem foldl_nest_congr (h : words s = words t) (depth : ℕ) :
    s.foldl nest depth = t.foldl nest depth := by
  rw [← foldl_nest_flatten_words, h, foldl_nest_flatten_words]

/-! ### Items and parts -/

/-- Puts the parts between all commas together to items: a part that leaves a bracket open goes with
the next one. -/
def gather : ℕ → List (List Char) → List (List (List Char))
  | _, [] => []
  | _, [p] => [[p]]
  | depth, p :: q :: ps =>
    if p.foldl nest depth = 0 then [p] :: gather 0 (q :: ps)
    else (gather (p.foldl nest depth) (q :: ps)).modifyHead (p :: ·)

theorem gather_cons_ne_nil (depth : ℕ) (p : List Char) (ps : List (List Char)) :
    gather depth (p :: ps) ≠ [] := by
  induction ps generalizing depth p with
  | nil => exact List.cons_ne_nil _ _
  | cons q ps ih =>
    rw [gather]
    split
    · exact List.cons_ne_nil _ _
    · simpa [List.modifyHead_eq_nil_iff] using ih _ q

theorem gather_map {f : List Char → List Char} {ps : List (List Char)}
    (hf : ∀ p ∈ ps, ∀ depth, (f p).foldl nest depth = p.foldl nest depth) (depth : ℕ) :
    gather depth (ps.map f) = (gather depth ps).map (List.map f) := by
  induction ps generalizing depth with
  | nil => rfl
  | cons p ps ih =>
    obtain ⟨hp, hps⟩ := List.forall_mem_cons.1 hf
    cases ps with
    | nil => rfl
    | cons q ps =>
      rw [List.map_cons, List.map_cons, gather, gather, hp depth, ← List.map_cons]
      split
      · rw [ih hps]
        rfl
      · rw [ih hps]
        obtain ⟨g, gs, hgs⟩ := List.exists_cons_of_ne_nil
          (gather_cons_ne_nil (p.foldl nest depth) q ps)
        rw [hgs]
        rfl

/-- The parts of an item are parts of the whole. -/
theorem mem_of_mem_gather {ps : List (List Char)} {group : List (List Char)}
    (h : group ∈ gather depth ps) : group ≠ [] ∧ ∀ p ∈ group, p ∈ ps := by
  induction ps generalizing depth group with
  | nil => cases h
  | cons p ps ih =>
    cases ps with
    | nil =>
      obtain rfl := List.mem_singleton.1 h
      exact ⟨List.cons_ne_nil _ _, fun _ hp ↦ hp⟩
    | cons q ps =>
      rw [gather] at h
      split at h
      · rcases List.mem_cons.1 h with rfl | h
        · exact ⟨List.cons_ne_nil _ _, by simp⟩
        · exact ⟨(ih h).1, fun x hx ↦ List.mem_cons_of_mem _ ((ih h).2 x hx)⟩
      · obtain ⟨g, gs, hgs⟩ := List.exists_cons_of_ne_nil
          (gather_cons_ne_nil (p.foldl nest depth) q ps)
        have hmem : ∀ group ∈ g :: gs, group ≠ [] ∧ ∀ x ∈ group, x ∈ q :: ps :=
          fun group hgroup ↦ ih (hgs ▸ hgroup)
        rw [hgs, List.modifyHead_cons] at h
        obtain ⟨hg, hrest⟩ := List.forall_mem_cons.1 hmem
        rcases List.mem_cons.1 h with rfl | h
        · exact ⟨List.cons_ne_nil _ _, List.forall_mem_cons.2
            ⟨List.mem_cons_self, fun x hx ↦ List.mem_cons_of_mem _ (hg.2 x hx)⟩⟩
        · exact ⟨(hrest _ h).1, fun x hx ↦ List.mem_cons_of_mem _ ((hrest _ h).2 x hx)⟩

/-- No character opens a string, and none is a comma. -/
def IsPart (p : List Char) : Prop :=
  ∀ c ∈ p, c ≠ '"' ∧ c ≠ '\'' ∧ c ≠ ','

theorem IsPart.scan_eq {p : List Char} (hp : IsPart p) (depth : ℕ) :
    scan (.outside, depth) p = (.outside, p.foldl nest depth) := by
  induction p generalizing depth with
  | nil => rfl
  | cons c p ih =>
    obtain ⟨⟨hdouble, hsingle, -⟩, hrest⟩ := List.forall_mem_cons.1 hp
    have hstep : scanStep (.outside, depth) c = (.outside, nest depth c) := by
      simp [scanStep, Quoting.step, hdouble, hsingle]
    rw [scan_cons, hstep, ih hrest]
    rfl

/-- **The items of joined parts are the parts put together.** -/
theorem splitTopLevel_joinWith {ps : List (List Char)} (hps : ∀ p ∈ ps, IsPart p) (hne : ps ≠ [])
    (depth : ℕ) :
    splitTopLevel ',' .outside depth (joinWith [','] ps) =
      (gather depth ps).map (joinWith [',']) := by
  induction ps generalizing depth with
  | nil => exact absurd rfl hne
  | cons p ps ih =>
    obtain ⟨hp, hrest⟩ := List.forall_mem_cons.1 hps
    have hwhole : IsWhole ',' (.outside, depth) p :=
      isWhole_of_not_mem fun hmem ↦ (hp _ hmem).2.2 rfl
    cases ps with
    | nil =>
      obtain ⟨q, qs, hsplit, htext⟩ := splitTopLevel_append hwhole []
      obtain ⟨rfl, rfl⟩ := List.cons.inj hsplit
      simpa [joinWith, gather] using htext
    | cons q ps =>
      obtain ⟨x, xs, hsplit, htext⟩ :=
        splitTopLevel_append hwhole (',' :: joinWith [','] (q :: ps))
      have hjoin : joinWith [','] (p :: q :: ps) = p ++ ',' :: joinWith [','] (q :: ps) := by
        simp [joinWith]
      rw [hp.scan_eq] at hsplit
      rw [hjoin, show splitTopLevel ',' .outside depth _ = _ from htext, gather]
      rw [splitTopLevel_cons] at hsplit
      have hstep : scanStep (.outside, p.foldl nest depth) ',' =
          (.outside, p.foldl nest depth) := rfl
      split
      · rename_i hzero
        rw [if_pos ⟨rfl, by rw [hzero]; rfl⟩, ih hrest (List.cons_ne_nil _ _)] at hsplit
        obtain ⟨rfl, rfl⟩ := List.cons.inj hsplit
        simp [joinWith]
      · rename_i hopen
        rw [if_neg fun h ↦ hopen (congrArg Prod.snd h.2), hstep,
          ih hrest (List.cons_ne_nil _ _)] at hsplit
        obtain ⟨g, gs, hgs⟩ := List.exists_cons_of_ne_nil
          (gather_cons_ne_nil (p.foldl nest depth) q ps)
        rw [hgs] at hsplit ⊢
        obtain ⟨rfl, rfl⟩ := List.cons.inj hsplit
        have hg : g ≠ [] := (mem_of_mem_gather (hgs ▸ List.mem_cons_self)).1
        obtain ⟨y, ys, rfl⟩ := List.exists_cons_of_ne_nil hg
        simp [joinWith]

/-! ### Parts afterwards -/

namespace Renaming

variable {r : Renaming} {part : List Char}

/-- What a part of a value becomes. -/
def ofPart (r : Renaming) (isNameList : Bool) : List Char → List Char :=
  if isNameList then r.ofName else r.ofShorthand

theorem ofValues_eq_self (h : ∀ w ∈ ws, w ∉ r.names) : r.ofValues ws = ws := by
  induction ws with
  | nil => rfl
  | cons w ws ih =>
    obtain ⟨hw, hws⟩ := List.forall_mem_cons.1 h
    rw [ofValues, if_neg hw, ih hws]

theorem map_replaced_eq_self (h : ∀ w ∈ ws, w ∉ r.names) : ws.map r.replaced = ws :=
  (List.map_congr_left fun w hw ↦ if_neg (h w hw)).trans (List.map_id ws)

/-- One declared name among the values of a shorthand is replaced. -/
theorem ofValues_eq_map (h : (ws.filter (· ∈ r.names)).length ≤ 1) :
    r.ofValues ws = ws.map r.replaced := by
  induction ws with
  | nil => rfl
  | cons w ws ih =>
    rw [ofValues, List.map_cons, replaced]
    rw [List.filter_cons] at h
    split
    · rename_i hw
      rw [if_pos (decide_eq_true hw), List.length_cons] at h
      have hnil : ws.filter (· ∈ r.names) = [] := List.length_eq_zero_iff.1 (by omega)
      rw [map_replaced_eq_self fun v hv hmem ↦
        List.filter_eq_nil_iff.1 hnil v hv (decide_eq_true hmem)]
    · rename_i hw
      rw [if_neg (by simpa using hw)] at h
      rw [ih h]

theorem mem_ofValues (h : w ∈ r.ofValues ws) :
    w ∈ ws ∨ ∃ v ∈ ws, w = r.renamed v := by
  induction ws with
  | nil => exact .inl h
  | cons v ws ih =>
    rw [ofValues] at h
    split at h
    · rcases List.mem_cons.1 h with rfl | h
      · exact .inr ⟨v, List.mem_cons_self, rfl⟩
      · exact .inl (List.mem_cons_of_mem _ h)
    · rcases List.mem_cons.1 h with rfl | h
      · exact .inl List.mem_cons_self
      · obtain h | ⟨u, hu, rfl⟩ := ih h
        · exact .inl (List.mem_cons_of_mem _ h)
        · exact .inr ⟨u, List.mem_cons_of_mem _ hu, rfl⟩

variable (hsuffix : ∀ c ∈ r.suffix, isNameChar c = true)

include hsuffix

theorem isBlank_renamed (hw : ∀ c ∈ w, isBlank c = false) :
    ∀ c ∈ r.renamed w, isBlank c = false := by
  intro c hc
  rcases List.mem_append.1 hc with hc | hc
  · exact hw c hc
  · exact isBlank_eq_false_of_isNameChar (hsuffix c hc)

/-- The words of a shorthand afterwards. -/
theorem words_ofShorthand (part : List Char) :
    words (r.ofShorthand part) = r.ofValues (words part) := by
  rw [ofShorthand]
  split
  · refine words_joinWith fun w hw ↦ ?_
    have hword : ∀ v ∈ words part, v ≠ [] ∧ ∀ c ∈ v, isBlank c = false :=
      fun v hv ↦ ⟨(mem_words hv).1, fun c hc ↦ ((mem_words hv).2 c hc).2⟩
    obtain hw | ⟨v, hv, rfl⟩ := mem_ofValues hw
    · exact hword w hw
    · exact ⟨List.append_ne_nil_of_left_ne_nil (hword v hv).1 _,
        isBlank_renamed hsuffix (hword v hv).2⟩
  · rename_i h
    rw [words_trim, ofValues_eq_self]
    exact fun w hw hmem ↦ h (List.any_eq_true.2 ⟨w, hw, decide_eq_true hmem⟩)

theorem foldl_nest_renamed (w : List Char) (depth : ℕ) :
    (r.renamed w).foldl nest depth = w.foldl nest depth := by
  rw [renamed, List.foldl_append]
  exact foldl_nest_eq_self fun c hc ↦ .inl (hsuffix c hc)

/-- **Renaming brings no brackets.** -/
theorem foldl_nest_ofPart (part : List Char) (depth : ℕ) :
    (r.ofPart isNameList part).foldl nest depth = part.foldl nest depth := by
  cases isNameList with
  | true =>
    have htrim : (trim part).foldl nest depth = part.foldl nest depth :=
      foldl_nest_congr (words_trim part) depth
    show (r.ofName part).foldl nest depth = _
    rw [ofName]
    split
    · rw [foldl_nest_renamed hsuffix, htrim]
    · exact htrim
  | false =>
    have hvalues : ∀ ws depth,
        (r.ofValues ws).flatten.foldl nest depth = ws.flatten.foldl nest depth := by
      intro ws
      induction ws with
      | nil => exact fun _ ↦ rfl
      | cons w ws ih =>
        intro depth
        rw [ofValues]
        split
        · rw [List.flatten_cons, List.flatten_cons, List.foldl_append, List.foldl_append,
            foldl_nest_renamed hsuffix]
        · rw [List.flatten_cons, List.flatten_cons, List.foldl_append, List.foldl_append, ih]
    show (r.ofShorthand part).foldl nest depth = _
    rw [← foldl_nest_flatten_words, words_ofShorthand hsuffix, hvalues, foldl_nest_flatten_words]

/-- A part afterwards holds characters of the part, of names, and spaces. -/
theorem mem_ofPart {c : Char} (hc : c ∈ r.ofPart isNameList part) :
    c ∈ part ∨ isNameChar c = true ∨ c = ' ' := by
  have hrenamed : ∀ w, (∀ c ∈ w, c ∈ part) → c ∈ r.renamed w → c ∈ part ∨ isNameChar c = true := by
    intro w hw hcw
    rcases List.mem_append.1 hcw with hcw | hcw
    · exact .inl (hw c hcw)
    · exact .inr (hsuffix c hcw)
  have htrim : ∀ c ∈ trim part, c ∈ part := fun c hc ↦ (trim_isInfix part).subset hc
  have hword : ∀ w ∈ words part, ∀ c ∈ w, c ∈ part := fun w hw c hc ↦ ((mem_words hw).2 c hc).1
  cases isNameList with
  | true =>
    change c ∈ r.ofName part at hc
    rw [ofName] at hc
    split at hc
    · exact (hrenamed _ htrim hc).imp_right .inl
    · exact .inl (htrim c hc)
  | false =>
    change c ∈ r.ofShorthand part at hc
    rw [ofShorthand] at hc
    split at hc
    · obtain rfl | ⟨w, hw, hcw⟩ := mem_joinWith hc
      · exact .inr (.inr rfl)
      · obtain hw | ⟨v, hv, rfl⟩ := mem_ofValues hw
        · exact .inl (hword w hw c hcw)
        · exact (hrenamed v (hword v hv) hcw).imp_right .inl
    · exact .inl (htrim c hc)

theorem isPart_ofPart (hpart : IsPart part) : IsPart (r.ofPart isNameList part) := by
  intro c hc
  obtain hc | hc | rfl := mem_ofPart hsuffix hc
  · exact hpart c hc
  · refine ⟨?_, ?_, ?_⟩ <;> rintro rfl <;> exact absurd hc (by decide)
  · decide

/-- **The items afterwards are made of the same parts.** -/
theorem forall₂_itemsOf {value : List Char} (hvalue : ∀ c ∈ value, c ≠ '"' ∧ c ≠ '\'') :
    List.Forall₂
      (fun item item' ↦ splitAt (· == ',') item' =
        (splitAt (· == ',') item).map (r.ofPart isNameList))
      (itemsOf value)
      (itemsOf (joinWith [','] ((splitAt (· == ',') value).map (r.ofPart isNameList)))) := by
  have hparts : ∀ p ∈ splitAt (· == ',') value, IsPart p := by
    intro p hp c hc
    obtain ⟨hmem, hcomma⟩ := mem_of_mem_splitAt hp c hc
    exact ⟨(hvalue c hmem).1, (hvalue c hmem).2, by simpa using hcomma⟩
  have hne := splitAt_ne_nil (· == ',') value
  generalize hps : splitAt (· == ',') value = ps at hparts hne ⊢
  have hitems : itemsOf value = (gather 0 ps).map (joinWith [',']) := by
    rw [itemsOf, ← joinWith_splitAt ',' value, hps, splitTopLevel_joinWith hparts hne]
  have hafter : itemsOf (joinWith [','] (ps.map (r.ofPart isNameList))) =
      ((gather 0 ps).map (List.map (r.ofPart isNameList))).map (joinWith [',']) := by
    rw [itemsOf, splitTopLevel_joinWith _ (by simpa using hne),
      gather_map fun p _ depth ↦ foldl_nest_ofPart hsuffix p depth]
    exact List.forall_mem_map.2 fun p hp ↦ isPart_ofPart hsuffix (hparts p hp)
  rw [hitems, hafter, List.map_map, List.forall₂_map_left_iff, List.forall₂_map_right_iff,
    List.forall₂_same]
  intro group hgroup
  obtain ⟨hgne, hmem⟩ := mem_of_mem_gather hgroup
  have hcomma : ∀ p, IsPart p → ',' ∉ p := fun p hp hmem ↦ (hp ',' hmem).2.2 rfl
  rw [Function.comp_apply, splitAt_joinWith (fun p hp ↦ hcomma p (hparts p (hmem p hp))) hgne,
    splitAt_joinWith _ (by simpa using hgne)]
  exact List.forall_mem_map.2 fun p hp ↦ hcomma _ (isPart_ofPart hsuffix (hparts p (hmem p hp)))

/-! ### References afterwards -/

omit hsuffix in
/-- A name that occurs in a clear item is its reference. -/
theorem IsClear.reference?_eq (h : r.IsClear isNameList item)
    (hw : w ∈ (partWords item).flatten) (hname : w ∈ r.names) :
    reference? isNameList item = some w := by
  have hmem : w ∈ (partWords item).flatten.filter (· ∈ r.names) :=
    List.mem_filter.2 ⟨hw, decide_eq_true hname⟩
  rw [h.once, List.mem_filter, Option.mem_toList] at hmem
  exact hmem.1

/-- The words of a name afterwards, where declared names have the part to themselves. -/
theorem words_ofName
    (h : (words part).filter (· ∈ r.names) = [trim part].filter (· ∈ r.names)) :
    words (r.ofName part) = (words part).map r.replaced := by
  rw [ofName]
  split
  · rename_i hname
    rw [List.filter_singleton, decide_eq_true hname, cond_true] at h
    have hmem : trim part ∈ words part :=
      List.mem_of_mem_filter (h ▸ List.mem_singleton_self (trim part))
    obtain ⟨hne, hblank⟩ := mem_words hmem
    have hwords : words part = [trim part] := by
      rw [← words_trim, words_of_forall hne fun c hc ↦ (hblank c hc).2]
    rw [hwords, List.map_singleton, replaced, if_pos hname]
    exact words_of_forall (List.append_ne_nil_of_left_ne_nil hne _)
      (isBlank_renamed hsuffix fun c hc ↦ (hblank c hc).2)
  · rename_i hname
    rw [List.filter_singleton, decide_eq_false hname, cond_false] at h
    rw [words_trim, map_replaced_eq_self fun w hw hmem ↦
      List.filter_eq_nil_iff.1 h w hw (decide_eq_true hmem)]

omit hsuffix in
/-- A part of a clear item holds at most one declared name. -/
theorem IsClear.length_filter_words_le_one (h : r.IsClear isNameList item)
    (hpart : part ∈ splitAt (· == ',') item) :
    ((words part).filter (· ∈ r.names)).length ≤ 1 := by
  have hsub : (words part).Sublist (partWords item).flatten :=
    List.sublist_flatten_of_mem (List.mem_map_of_mem hpart)
  refine (hsub.filter _).length_le.trans ?_
  rw [h.once]
  refine (List.length_filter_le _ _).trans ?_
  cases reference? isNameList item <;> simp

/-- **The words of a part afterwards**, each one by one. -/
theorem words_ofPart (h : r.IsClear isNameList item) (hpart : part ∈ splitAt (· == ',') item) :
    words (r.ofPart isNameList part) = (words part).map r.replaced := by
  cases isNameList with
  | true => exact words_ofName hsuffix (h.whole rfl part hpart)
  | false =>
    show words (r.ofShorthand part) = _
    rw [words_ofShorthand hsuffix, ofValues_eq_map (h.length_filter_words_le_one hpart)]

theorem isIdentifier_renamed (h : isIdentifier w = true) :
    isIdentifier (r.renamed w) = true := by
  rw [isIdentifier, Bool.and_eq_true, List.all_eq_true] at h ⊢
  refine ⟨beginsIdentifier_append h.1 _, fun c hc ↦ ?_⟩
  rcases List.mem_append.1 hc with hc | hc
  · exact h.2 c hc
  · exact hsuffix c hc

/-- A word that is no priority keeps what makes it an identifier, or a bracket, or a keyword. -/
theorem replaced_keeps (depth : ℕ) (hmem : '!' ∉ w)
    (hw : w ∈ r.names → isIdentifier w = true ∧ isKeyword isNameList w = false ∧
      isKeyword isNameList (r.renamed w) = false) :
    '!' ∉ r.replaced w ∧ isIdentifier (r.replaced w) = isIdentifier w ∧
      (r.replaced w).foldl nest depth = w.foldl nest depth ∧
      isKeyword isNameList (r.replaced w) = isKeyword isNameList w := by
  rw [replaced]
  split
  · rename_i h
    obtain ⟨hident, hkeyword, hfresh⟩ := hw h
    have hident' := isIdentifier_renamed hsuffix hident
    exact ⟨not_mem_of_isIdentifier hident', hident'.trans hident.symm,
      foldl_nest_renamed hsuffix w depth, hfresh.trans hkeyword.symm⟩
  · exact ⟨hmem, rfl, rfl, rfl⟩

omit hsuffix in
theorem map_replaced_find? (h : ∀ w ∈ ws, w ∉ r.names) (p : List Char → Bool) :
    ((bareIdentifiers depth ws).find? p).map r.replaced = (bareIdentifiers depth ws).find? p := by
  cases hfind : (bareIdentifiers depth ws).find? p with
  | none => rfl
  | some w =>
    exact congrArg some (if_neg (h w (mem_bareIdentifiers (List.mem_of_find?_eq_some hfind)).1))

/-- **The reference among the words afterwards** is the reference of the words before, by its new
name. -/
theorem referenceIn_map
    (hnames : ∀ w ∈ ws, w ∈ r.names → isIdentifier w = true ∧
      isKeyword isNameList w = false ∧ isKeyword isNameList (r.renamed w) = false)
    (hseparate : ∀ w ∈ ws, '!' ∈ w →
      w.takeWhile (· != '!') = [] ∨ w.takeWhile (· != '!') ∉ r.names) :
    referenceIn isNameList (ws.map r.replaced) = (referenceIn isNameList ws).map r.replaced := by
  rw [referenceIn, referenceIn]
  generalize 0 = depth
  induction ws generalizing depth with
  | nil => rfl
  | cons w ws ih =>
    obtain ⟨hw, hws⟩ := List.forall_mem_cons.1 hnames
    obtain ⟨hpriority, hrest⟩ := List.forall_mem_cons.1 hseparate
    rw [List.map_cons, beforePriority, beforePriority]
    by_cases hmem : '!' ∈ w
    · have hself : r.replaced w = w := if_neg fun h ↦ not_mem_of_isIdentifier (hw h).1 hmem
      rw [hself, if_pos hmem, if_pos hmem]
      refine (map_replaced_find? (fun u hu ↦ ?_) _).symm
      rw [List.mem_filter, List.mem_singleton, Bool.not_eq_true', List.isEmpty_eq_false_iff] at hu
      obtain ⟨rfl, hne⟩ := hu
      exact (hpriority hmem).resolve_left hne
    · obtain ⟨hmem', hident, hdepth, hkeyword⟩ := replaced_keeps hsuffix depth hmem hw
      rw [if_neg hmem, if_neg hmem', bareIdentifiers, bareIdentifiers, hident, hdepth]
      split
      · rw [List.find?_cons, List.find?_cons, hkeyword]
        split
        · rfl
        · exact ih hws hrest _
      · exact ih hws hrest _

/-- **A clear item follows its keyframes.** -/
theorem IsClear.follows {item' : List Char} (h : r.IsClear isNameList item)
    (hne : r.suffix ≠ [])
    (hparts : splitAt (· == ',') item' =
      (splitAt (· == ',') item).map (r.ofPart isNameList)) :
    r.Follows isNameList item item' := by
  have hwords : partWords item' = (partWords item).map (·.map r.replaced) := by
    rw [partWords, partWords, hparts, List.map_map, List.map_map]
    exact List.map_congr_left fun part hpart ↦ words_ofPart hsuffix h hpart
  have hflatten : (partWords item').flatten = (partWords item).flatten.map r.replaced := by
    rw [hwords, List.map_flatten]
  have hreference : reference? isNameList item' = (reference? isNameList item).map r.replaced := by
    rw [reference?, hflatten]
    refine referenceIn_map hsuffix (fun w hw hname ↦ ?_) h.separate
    have hw := h.reference?_eq hw hname
    refine ⟨isIdentifier_of_reference?_eq hw, ?_, h.fresh w hw hname⟩
    simpa using List.find?_some hw
  refine ⟨fun name hname hdeclared ↦ ⟨?_, fun hmem ↦ ?_⟩, hwords, fun hnone ↦ ?_⟩
  · rw [hreference, Option.mem_def.1 hname, Option.map_some, replaced, if_pos hdeclared]
  · rw [hflatten] at hmem
    obtain ⟨w, hw, hreplaced⟩ := List.mem_map.1 hmem
    rw [replaced] at hreplaced
    split at hreplaced
    · rename_i hwname
      obtain rfl := Option.some.inj ((h.reference?_eq hw hwname).symm.trans hname)
      exact hne (List.append_right_eq_self.1 hreplaced)
    · rename_i hwname
      exact hwname (hreplaced ▸ hdeclared)
  · rw [hwords]
    refine (List.map_congr_left fun part hpart ↦ ?_).trans (List.map_id _)
    refine map_replaced_eq_self fun w hw hmem ↦ ?_
    exact hnone w (h.reference?_eq (List.mem_flatten.2 ⟨part, hpart, hw⟩) hmem) hmem

end Renaming

end AppletBundle.Style
