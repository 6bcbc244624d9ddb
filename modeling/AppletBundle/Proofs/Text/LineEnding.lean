import AppletBundle.Text.LineEnding
import Mathlib.Data.List.Basic

/-!
# Line endings in one pass

Normalization replaces twice: every pair of carriage return and line feed in the text, then every
carriage return in what that gives (`lineFeeds_eq_replaceAll`). A reader that goes over the text once
decides at every character which line ending begins there (`Unifies`): a carriage return is a line
ending of its own only if no line feed follows it.

* `unifies_lineFeeds` and `Unifies.eq_lineFeeds` say that both come to the same text.
* `Unifies.not_mem` gives the normal form, a text without carriage returns, and `unifies_self` that a
  normal form is read as it is. Idempotence is the two together.
* `Unifies.append` reads two texts one after the other. The one place where that goes wrong is a pair
  that is cut in two, where the parts have one line ending more than the whole.

The main result is `normalizeLineEndings_unifies`.
-/

namespace AppletBundle.Text

variable {c : Char} {t u out out' rest : List Char}

/-! ### Two passes -/

/-- The text with every occurrence of a pattern replaced, from left to right. The pattern is given by
its first character and those after it. -/
def replaceAll (first : Char) (more replacement : List Char) : List Char → List Char
  | [] => []
  | c :: rest =>
    if (first :: more).isPrefixOf (c :: rest) then
      replacement ++ replaceAll first more replacement (rest.drop more.length)
    else c :: replaceAll first more replacement rest
termination_by t => t.length
decreasing_by
  · rw [List.length_drop, List.length_cons]
    omega
  · exact Nat.lt_succ_self _

/-- The characters of a text with line feeds as its only line endings. -/
def lineFeeds (t : List Char) : List Char :=
  (joinLinePairs t).map lineFeedFor

theorem toList_normalizeLineEndings (s : String) :
    (normalizeLineEndings s).toList = lineFeeds s.toList :=
  String.toList_ofList

theorem joinLinePairs_eq_replaceAll (t : List Char) :
    joinLinePairs t = replaceAll '\r' ['\n'] ['\n'] t := by
  fun_induction joinLinePairs t with
  | case1 rest ih =>
    rw [replaceAll, if_pos (by rfl)]
    exact congrArg ('\n' :: ·) ih
  | case2 c rest hpair ih =>
    have hnot : ¬ ['\r', '\n'].isPrefixOf (c :: rest) = true := by
      rw [List.isPrefixOf_iff_prefix]
      rintro ⟨back, hback⟩
      obtain ⟨rfl, rfl⟩ := List.cons.inj hback
      exact hpair back rfl rfl
    rw [replaceAll, if_neg hnot, ← ih]
  | case3 => rw [replaceAll]

theorem map_lineFeedFor_eq_replaceAll (t : List Char) :
    t.map lineFeedFor = replaceAll '\r' [] ['\n'] t := by
  induction t with
  | nil => rw [replaceAll, List.map_nil]
  | cons c t ih =>
    have hpattern : ['\r'].isPrefixOf (c :: t) = true ↔ c = '\r' := by
      rw [List.isPrefixOf_iff_prefix, List.cons_prefix_cons, and_iff_left List.nil_prefix, eq_comm]
    rw [replaceAll, List.map_cons, ih, lineFeedFor]
    by_cases hc : c = '\r'
    · rw [if_pos hc, if_pos (hpattern.2 hc)]
      rfl
    · rw [if_neg hc, if_neg (mt hpattern.1 hc)]

/-- Both passes are replacements. -/
theorem lineFeeds_eq_replaceAll (t : List Char) :
    lineFeeds t = replaceAll '\r' [] ['\n'] (replaceAll '\r' ['\n'] ['\n'] t) := by
  rw [lineFeeds, joinLinePairs_eq_replaceAll, map_lineFeedFor_eq_replaceAll]

/-! ### One pass -/

/-- A text, and what a reader writes who replaces the line endings in it by line feeds. -/
inductive Unifies : List Char → List Char → Prop
  | nil : Unifies [] []
  | pair {rest out : List Char} :
    Unifies rest out → Unifies ('\r' :: '\n' :: rest) ('\n' :: out)
  | carriageReturn {rest out : List Char} :
    rest.head? ≠ some '\n' → Unifies rest out → Unifies ('\r' :: rest) ('\n' :: out)
  | lineFeed {rest out : List Char} : Unifies rest out → Unifies ('\n' :: rest) ('\n' :: out)
  | other {c : Char} {rest out : List Char} :
    c ≠ '\r' → c ≠ '\n' → Unifies rest out → Unifies (c :: rest) (c :: out)

/-- **Two passes write what one pass writes.** -/
theorem unifies_lineFeeds (t : List Char) : Unifies t (lineFeeds t) := by
  unfold lineFeeds
  fun_induction joinLinePairs t with
  | case1 rest ih => exact .pair ih
  | case2 c rest hpair ih =>
    rw [List.map_cons, lineFeedFor]
    split
    · rename_i hreturn
      refine hreturn ▸ .carriageReturn (fun hhead ↦ ?_) ih
      obtain ⟨back, hback⟩ := List.head?_eq_some_iff.1 hhead
      exact hpair back hreturn hback
    · rename_i hreturn
      by_cases hfeed : c = '\n'
      · exact hfeed ▸ .lineFeed ih
      · exact .other hreturn hfeed ih
  | case3 => exact .nil

/-- There is one reading of a text: at every character one rule applies. -/
theorem Unifies.unique (h : Unifies t out) (h' : Unifies t out') : out = out' := by
  induction h generalizing out' with
  | nil =>
    cases h'
    rfl
  | pair _ ih =>
    cases h' with
    | pair h' => rw [ih h']
    | carriageReturn hhead _ => exact absurd rfl hhead
    | other hreturn _ _ => exact absurd rfl hreturn
  | carriageReturn hhead _ ih =>
    cases h' with
    | pair _ => exact absurd rfl hhead
    | carriageReturn _ h' => rw [ih h']
    | other hreturn _ _ => exact absurd rfl hreturn
  | lineFeed _ ih =>
    cases h' with
    | lineFeed h' => rw [ih h']
    | other _ hfeed _ => exact absurd rfl hfeed
  | other hreturn hfeed _ ih =>
    cases h' with
    | pair _ => exact absurd rfl hreturn
    | carriageReturn _ _ => exact absurd rfl hreturn
    | lineFeed _ => exact absurd rfl hfeed
    | other _ _ h' => rw [ih h']

theorem Unifies.eq_lineFeeds (h : Unifies t out) : lineFeeds t = out :=
  (unifies_lineFeeds t).unique h

/-! ### The normal form -/

theorem Unifies.not_mem (h : Unifies t out) : '\r' ∉ out := by
  induction h with
  | nil => exact List.not_mem_nil
  | pair _ ih => exact List.not_mem_cons_of_ne_of_not_mem (by decide) ih
  | carriageReturn _ _ ih => exact List.not_mem_cons_of_ne_of_not_mem (by decide) ih
  | lineFeed _ ih => exact List.not_mem_cons_of_ne_of_not_mem (by decide) ih
  | other hreturn _ _ ih => exact List.not_mem_cons_of_ne_of_not_mem hreturn.symm ih

theorem unifies_self (h : '\r' ∉ t) : Unifies t t := by
  induction t with
  | nil => exact .nil
  | cons c t ih =>
    obtain ⟨hreturn, ht⟩ := not_or.1 (mt List.mem_cons.2 h)
    by_cases hfeed : c = '\n'
    · exact hfeed ▸ .lineFeed (ih ht)
    · exact .other (Ne.symm hreturn) hfeed (ih ht)

/-! ### Texts one after the other -/

/-- A pair of carriage return and line feed is cut in two between the texts. -/
def CutsPair (t u : List Char) : Prop :=
  t.getLast? = some '\r' ∧ u.head? = some '\n'

theorem CutsPair.cons (h : CutsPair t u) (c : Char) : CutsPair (c :: t) u := by
  refine ⟨?_, h.2⟩
  rw [List.getLast?_cons, h.1]
  rfl

/-- **Texts are read one after the other** unless a pair is cut in two. -/
theorem Unifies.append (h : Unifies t out) (h' : Unifies u out') (hcut : ¬ CutsPair t u) :
    Unifies (t ++ u) (out ++ out') := by
  induction h with
  | nil => exact h'
  | pair _ ih => exact .pair (ih fun hpair ↦ hcut ((hpair.cons _).cons _))
  | @carriageReturn rest out hhead _ ih =>
    refine .carriageReturn ?_ (ih fun hpair ↦ hcut (hpair.cons _))
    cases rest with
    | nil => exact fun hfeed ↦ hcut ⟨rfl, hfeed⟩
    | cons c rest => exact hhead
  | lineFeed _ ih => exact .lineFeed (ih fun hpair ↦ hcut (hpair.cons _))
  | other hreturn hfeed _ ih =>
    exact .other hreturn hfeed (ih fun hpair ↦ hcut (hpair.cons _))

theorem lineFeeds_append (hcut : ¬ CutsPair t u) : lineFeeds (t ++ u) = lineFeeds t ++ lineFeeds u :=
  ((unifies_lineFeeds t).append (unifies_lineFeeds u) hcut).eq_lineFeeds

/-- A pair that is cut in two counts twice. -/
theorem length_lineFeeds_of_cutsPair (hcut : CutsPair t u) :
    (lineFeeds t ++ lineFeeds u).length = (lineFeeds (t ++ u)).length + 1 := by
  obtain ⟨front, rfl⟩ := List.getLast?_eq_some_iff.1 hcut.1
  obtain ⟨back, rfl⟩ := List.head?_eq_some_iff.1 hcut.2
  have hreturn : lineFeeds (front ++ ['\r']) = lineFeeds front ++ ['\n'] :=
    lineFeeds_append fun hpair ↦ absurd hpair.2 (by decide)
  have hpair : lineFeeds (front ++ '\r' :: '\n' :: back) =
      lineFeeds front ++ '\n' :: lineFeeds back :=
    lineFeeds_append fun hpair ↦ absurd hpair.2 (by simp)
  have hfeed : lineFeeds ('\n' :: back) = '\n' :: lineFeeds back :=
    (unifies_lineFeeds back).lineFeed.eq_lineFeeds
  rw [List.append_assoc, List.singleton_append, hpair, hreturn, hfeed]
  simp only [List.length_append, List.length_cons, List.length_nil]
  omega

theorem lineFeeds_append_iff :
    lineFeeds (t ++ u) = lineFeeds t ++ lineFeeds u ↔ ¬ CutsPair t u := by
  refine ⟨fun heq hcut ↦ ?_, lineFeeds_append⟩
  have hlength := length_lineFeeds_of_cutsPair hcut
  rw [heq] at hlength
  exact absurd hlength (Nat.ne_of_lt (Nat.lt_succ_self _))

/-! ### The result -/

/-- **Line endings are unified.** The two replacements give what a reader writes who goes over the
text once; the result has no carriage return, and normalizing it changes nothing. Two texts are
normalized one after the other exactly when no pair of carriage return and line feed is cut in two
between them. -/
theorem normalizeLineEndings_unifies (s : String) :
    (normalizeLineEndings s).toList =
        replaceAll '\r' [] ['\n'] (replaceAll '\r' ['\n'] ['\n'] s.toList) ∧
      (∀ out, Unifies s.toList out ↔ (normalizeLineEndings s).toList = out) ∧
      '\r' ∉ (normalizeLineEndings s).toList ∧
      normalizeLineEndings (normalizeLineEndings s) = normalizeLineEndings s ∧
      ∀ more : String, normalizeLineEndings (s ++ more) =
          normalizeLineEndings s ++ normalizeLineEndings more ↔
        ¬ (s.toList.getLast? = some '\r' ∧ more.toList.head? = some '\n') := by
  have hnormal := (unifies_lineFeeds s.toList).not_mem
  refine ⟨?_, fun out ↦ ?_, ?_, ?_, fun more ↦ ?_⟩
  · rw [toList_normalizeLineEndings, lineFeeds_eq_replaceAll]
  · rw [toList_normalizeLineEndings]
    exact ⟨Unifies.eq_lineFeeds, fun heq ↦ heq ▸ unifies_lineFeeds s.toList⟩
  · rwa [toList_normalizeLineEndings]
  · rw [← String.toList_inj, toList_normalizeLineEndings, toList_normalizeLineEndings]
    exact (unifies_self hnormal).eq_lineFeeds
  · rw [← String.toList_inj, toList_normalizeLineEndings, String.toList_append,
      String.toList_append, toList_normalizeLineEndings, toList_normalizeLineEndings]
    exact lineFeeds_append_iff

end AppletBundle.Text
