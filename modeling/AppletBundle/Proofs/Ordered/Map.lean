import AppletBundle.Ordered.Map
import Mathlib.Data.List.Basic
import Mathlib.Data.List.Induction
import Mathlib.Data.List.Nodup

/-!
# Filling maps

Keys of a map are given their values one after the other. Of a key that is given several values the
last one counts (`get?_fill`), and the key stays where it came first; a map that holds what it is
filled with stays as it is (`fill_fill`), and a map comes of its own pairs (`fill_entries`).
-/

namespace AppletBundle.OrderedMap

variable {κ ν : Type}

theorem ext_entries {m n : OrderedMap κ ν} (h : m.entries = n.entries) : m = n := by
  cases m
  cases n
  cases h
  rfl

variable [DecidableEq κ]

/-- Gives keys their values one after the other. -/
def fill (m : OrderedMap κ ν) (es : List (κ × ν)) : OrderedMap κ ν :=
  es.foldl (fun m e ↦ m.insert e.1 e.2) m

theorem fill_concat (m : OrderedMap κ ν) (es : List (κ × ν)) (e : κ × ν) :
    m.fill (es ++ [e]) = (m.fill es).insert e.1 e.2 :=
  List.foldl_concat _ m e es

theorem keys_insert (m : OrderedMap κ ν) (k : κ) (v : ν) :
    (m.insert k v).keys = if k ∈ m.keys then m.keys else m.keys ++ [k] :=
  map_fst_insertEntry k v m.entries

theorem mem_keys_insert {m : OrderedMap κ ν} {k k' : κ} {v : ν} :
    k' ∈ (m.insert k v).keys ↔ k' ∈ m.keys ∨ k' = k := by
  rw [keys_insert]
  split
  · exact ⟨Or.inl, fun h ↦ h.elim id fun heq ↦ heq ▸ ‹k ∈ m.keys›⟩
  · rw [List.mem_append, List.mem_singleton]

theorem mem_keys_fill {m : OrderedMap κ ν} {es : List (κ × ν)} {k : κ} :
    k ∈ (m.fill es).keys ↔ k ∈ m.keys ∨ k ∈ es.map Prod.fst := by
  induction es generalizing m with
  | nil => rw [fill, List.foldl_nil, List.map_nil, List.mem_nil_iff, or_false]
  | cons e es ih =>
    rw [fill, List.foldl_cons]
    refine ih.trans ?_
    rw [mem_keys_insert, List.map_cons, List.mem_cons, or_assoc]

/-- Keys that are there stay in their places. -/
theorem keys_fill_of_subset {m : OrderedMap κ ν} {es : List (κ × ν)}
    (h : ∀ e ∈ es, e.1 ∈ m.keys) : (m.fill es).keys = m.keys := by
  induction es generalizing m with
  | nil => rfl
  | cons e es ih =>
    have hkeys : (m.insert e.1 e.2).keys = m.keys := by
      rw [keys_insert, if_pos (h e List.mem_cons_self)]
    refine (ih fun x hx ↦ hkeys ▸ h x (List.mem_cons_of_mem _ hx)).trans hkeys

/-- The last value that a key is given counts. -/
theorem get?_fill (m : OrderedMap κ ν) (es : List (κ × ν)) (k : κ) :
    (m.fill es).get? k = (es.reverse.lookup k).or (m.get? k) := by
  induction es using List.reverseRecOn with
  | nil => rfl
  | append_singleton es e ih =>
    rw [fill_concat, get?_insert, List.reverse_append, List.reverse_singleton,
      List.singleton_append, lookup_cons_eq_ite]
    split
    · rfl
    · exact ih

theorem lookup_eq_some_of_mem {es : List (κ × ν)} (h : (es.map Prod.fst).Nodup) {e : κ × ν}
    (he : e ∈ es) : es.lookup e.1 = some e.2 := by
  induction es with
  | nil => exact absurd he List.not_mem_nil
  | cons x es ih =>
    rw [List.map_cons, List.nodup_cons] at h
    rw [lookup_cons_eq_ite]
    rcases List.mem_cons.1 he with rfl | he
    · rw [if_pos rfl]
    · have hne : e.1 ≠ x.1 := fun heq ↦ h.1 (heq ▸ List.mem_map_of_mem he)
      rw [if_neg hne, ih h.2 he]

theorem entries_eq_map_keys (m : OrderedMap κ ν) :
    m.entries.map (fun e ↦ (e.1, some e.2)) = m.keys.map fun k ↦ (k, m.get? k) := by
  rw [keys, List.map_map]
  refine List.map_congr_left fun e he ↦ ?_
  rw [Function.comp_apply, get?, lookup_eq_some_of_mem m.nodup he]

/-- **A map is known by its keys and their values.** -/
theorem ext_get? {m n : OrderedMap κ ν} (hkeys : m.keys = n.keys) (h : ∀ k, m.get? k = n.get? k) :
    m = n := by
  have hentries : m.entries.map (fun e ↦ (e.1, some e.2)) =
      n.entries.map fun e ↦ (e.1, some e.2) := by
    rw [entries_eq_map_keys, entries_eq_map_keys, hkeys]
    exact List.map_congr_left fun k _ ↦ by rw [h]
  have hinjective : Function.Injective fun e : κ × ν ↦ (e.1, some e.2) := by
    rintro ⟨k, v⟩ ⟨k', v'⟩ heq
    cases heq
    rfl
  exact ext_entries (List.map_injective_iff.2 hinjective hentries)

/-- **Filling a map again changes nothing.** -/
theorem fill_fill (m : OrderedMap κ ν) (es : List (κ × ν)) : (m.fill es).fill es = m.fill es := by
  refine ext_get? (keys_fill_of_subset fun e he ↦ ?_) fun k ↦ ?_
  · exact mem_keys_fill.2 (.inr (List.mem_map_of_mem he))
  · rw [get?_fill, get?_fill]
    rcases es.reverse.lookup k with - | v <;> rfl

/-- A map that is filled with pairs of different keys holds them in their order. -/
theorem entries_fill_empty {es : List (κ × ν)} (h : (es.map Prod.fst).Nodup) :
    (empty.fill es).entries = es := by
  induction es using List.reverseRecOn with
  | nil => rfl
  | append_singleton es e ih =>
    rw [List.map_append, List.map_singleton, ← List.concat_eq_append, List.nodup_concat] at h
    rw [fill_concat]
    change insertEntry e.1 e.2 (empty.fill es).entries = es ++ [e]
    rw [ih h.2, insertEntry_of_not_mem e.2 h.1]

/-- A map comes of its own pairs. -/
theorem fill_entries (m : OrderedMap κ ν) : empty.fill m.entries = m :=
  ext_entries (entries_fill_empty m.nodup)

end AppletBundle.OrderedMap
