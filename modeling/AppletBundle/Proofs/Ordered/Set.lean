import AppletBundle.Ordered.Set
import Mathlib.Data.List.Infix

/-!
# Order in sets

A set that is made from a list holds its elements in the order in which they come first in the list.
This is said twice: `toList_ofList` gives the elements as a list, and `pairwise_ofList` tells of two
elements that one comes before the other, by a part of the list that has only reached the first.
-/

namespace AppletBundle.OrderedSet

variable {α : Type}

theorem ext_toList {s t : OrderedSet α} (h : s.toList = t.toList) : s = t := by
  cases s
  cases t
  cases h
  rfl

variable [DecidableEq α]

/-- Inserting a list appends its new elements, each at the place of its first occurrence. -/
theorem toList_insertAll (s : OrderedSet α) (as : List α) :
    (s.insertAll as).toList = s.toList ++ (as.filter fun a ↦ a ∉ s.toList).eraseDups := by
  induction as generalizing s with
  | nil => exact (List.append_nil _).symm
  | cons a as ih =>
    have hstep : s.insertAll (a :: as) = (s.insert a).insertAll as := rfl
    rw [hstep, ih, toList_insert]
    by_cases ha : a ∈ s.toList
    · rw [if_pos ha, List.filter_cons_of_neg (by simpa using ha)]
    · have hrest : (as.filter fun b ↦ b ∉ s.toList ++ [a]) =
          (as.filter fun b ↦ b ∉ s.toList).filter fun b ↦ !b == a := by
        rw [List.filter_filter]
        refine List.filter_congr fun b _ ↦ ?_
        by_cases hb : b = a <;> simp [hb]
      rw [if_neg ha, List.filter_cons_of_pos (by simpa using ha), List.eraseDups_cons, hrest,
        List.append_assoc, List.singleton_append]

/-- The elements of the set of a list are those of the list, each at the place of its first
occurrence. -/
theorem toList_ofList (as : List α) : (ofList as).toList = as.eraseDups := by
  rw [ofList, toList_insertAll]
  simp [empty]

/-- Inserting two lists one after the other inserts the second last. -/
theorem insertAll_append (s : OrderedSet α) (as bs : List α) :
    s.insertAll (as ++ bs) = (s.insertAll as).insertAll bs :=
  List.foldl_append

/-- **What comes first in the list comes first in its set**: of two elements of the set, a part of
the list from the start holds the former and not the latter. -/
theorem pairwise_ofList (as : List α) :
    (ofList as).toList.Pairwise fun a b ↦ ∃ before, before <+: as ∧ a ∈ before ∧ b ∉ before := by
  induction as using List.reverseRecOn with
  | nil => exact .nil
  | append_singleton as c ih =>
    have hold : (ofList as).toList.Pairwise fun a b ↦
        ∃ before, before <+: as ++ [c] ∧ a ∈ before ∧ b ∉ before :=
      ih.imp fun ⟨before, hprefix, h⟩ ↦ ⟨before, hprefix.trans (List.prefix_append as [c]), h⟩
    have hstep : ofList (as ++ [c]) = (ofList as).insert c := insertAll_append .empty as [c]
    rw [hstep, toList_insert]
    by_cases hc : c ∈ (ofList as).toList
    · rwa [if_pos hc]
    · rw [if_neg hc]
      refine List.pairwise_append.2 ⟨hold, List.pairwise_singleton _ _, fun a ha b hb ↦ ?_⟩
      rw [List.mem_singleton.1 hb]
      exact ⟨as, List.prefix_append as [c], mem_ofList.1 ha, fun h ↦ hc (mem_ofList.2 h)⟩

/-- Inserting the elements of a set that a list was inserted into inserts the list last. -/
theorem insertAll_toList_insertAll (s t : OrderedSet α) (as : List α) :
    s.insertAll (t.insertAll as).toList = (s.insertAll t.toList).insertAll as := by
  induction as generalizing t with
  | nil => rfl
  | cons a as ih =>
    have hone : s.insertAll (t.insert a).toList = (s.insertAll t.toList).insert a := by
      rw [toList_insert]
      split
      · rename_i ha
        rw [insert, dif_pos (mem_insertAll.2 (Or.inr ha))]
      · exact s.insertAll_append t.toList [a]
    have hstep := ih (t.insert a)
    rw [hone] at hstep
    exact hstep

theorem eraseDups_eq_self {as : List α} (h : as.Nodup) : as.eraseDups = as := by
  induction as with
  | nil => rfl
  | cons a as ih =>
    obtain ⟨ha, has⟩ := List.nodup_cons.1 h
    have hrest : (as.filter fun b ↦ !b == a) = as :=
      List.filter_eq_self.2 fun b hb ↦ by
        simpa using fun heq : b = a ↦ ha (heq ▸ hb)
    rw [List.eraseDups_cons, hrest, ih has]

/-- A set is that of its own elements. -/
theorem ofList_toList (s : OrderedSet α) : ofList s.toList = s :=
  ext_toList (by rw [toList_ofList, eraseDups_eq_self s.nodup])

/-- Joining a set and that of a list gives the set of the elements followed by the list. -/
theorem insertAll_ofList (s : OrderedSet α) (as : List α) :
    s.insertAll (ofList as).toList = ofList (s.toList ++ as) := by
  have hsplit : ofList (s.toList ++ as) = (ofList s.toList).insertAll as :=
    insertAll_append .empty s.toList as
  rw [hsplit, ofList_toList, ofList, insertAll_toList_insertAll]
  rfl

end AppletBundle.OrderedSet
