/-!
# Maps in insertion order

A map keeps its keys in the order in which they were first inserted; inserting a key again replaces
its value and keeps its place.
-/

namespace AppletBundle

/-- Replaces the value of a key, or appends the pair when the key is new. -/
def insertEntry {κ ν : Type} [DecidableEq κ] (k : κ) (v : ν) : List (κ × ν) → List (κ × ν)
  | [] => [(k, v)]
  | e :: es => if e.1 = k then (k, v) :: es else e :: insertEntry k v es

/-- The keys after inserting a pair: those before, and the new one at the end. -/
theorem map_fst_insertEntry {κ ν : Type} [DecidableEq κ] (k : κ) (v : ν) (es : List (κ × ν)) :
    (insertEntry k v es).map Prod.fst =
      if k ∈ es.map Prod.fst then es.map Prod.fst else es.map Prod.fst ++ [k] := by
  induction es with
  | nil => simp [insertEntry]
  | cons e es ih =>
    by_cases h : e.1 = k
    · simp [insertEntry, h]
    · have h' : k ≠ e.1 := fun hk ↦ h hk.symm
      by_cases hm : k ∈ es.map Prod.fst <;> simp_all [insertEntry]

/-- A pair with a new key is appended. -/
theorem insertEntry_of_not_mem {κ ν : Type} [DecidableEq κ] {k : κ} (v : ν) {es : List (κ × ν)}
    (h : k ∉ es.map Prod.fst) : insertEntry k v es = es ++ [(k, v)] := by
  induction es with
  | nil => rfl
  | cons e es ih =>
    rw [List.map_cons, List.mem_cons, not_or] at h
    rw [insertEntry, if_neg fun he ↦ h.1 he.symm, ih h.2, List.cons_append]

theorem lookup_cons_eq_ite {κ ν : Type} [DecidableEq κ] [BEq κ] [LawfulBEq κ] (k : κ) (e : κ × ν)
    (es : List (κ × ν)) :
    (e :: es).lookup k = if k = e.1 then some e.2 else es.lookup k := by
  obtain ⟨k₁, v⟩ := e
  rw [List.lookup_cons]
  by_cases hk : k = k₁
  · rw [if_pos hk, hk, beq_self_eq_true]
  · rw [if_neg hk, beq_false_of_ne hk]

/-- Nothing is found for a key exactly if it is not among the keys. -/
theorem lookup_eq_none_iff_not_mem {κ ν : Type} [DecidableEq κ] {k : κ} {es : List (κ × ν)} :
    es.lookup k = none ↔ k ∉ es.map Prod.fst := by
  rw [List.lookup_eq_none_iff, List.mem_map]
  constructor
  · rintro h ⟨e, he, rfl⟩
    simpa using h e he
  · intro h e he
    rw [bne_iff_ne]
    rintro rfl
    exact h ⟨e, he, rfl⟩

/-- The value of a key after inserting a pair. -/
theorem lookup_insertEntry {κ ν : Type} [DecidableEq κ] [BEq κ] [LawfulBEq κ] (k : κ) (v : ν)
    (es : List (κ × ν)) (k' : κ) :
    (insertEntry k v es).lookup k' = if k' = k then some v else es.lookup k' := by
  induction es with
  | nil => rw [insertEntry, lookup_cons_eq_ite]
  | cons e es ih =>
    rw [insertEntry]
    by_cases he : e.1 = k
    · rw [if_pos he, lookup_cons_eq_ite, lookup_cons_eq_ite, he]
      split <;> rfl
    · rw [if_neg he, lookup_cons_eq_ite, lookup_cons_eq_ite, ih]
      by_cases hk : k' = e.1
      · have hne : k' ≠ k := fun h ↦ he (hk.symm.trans h)
        rw [if_pos hk, if_neg hne, if_pos hk]
      · rw [if_neg hk, if_neg hk]

/-- Pairs with pairwise different keys, in insertion order. -/
structure OrderedMap (κ ν : Type) where
  entries : List (κ × ν)
  nodup : (entries.map Prod.fst).Nodup

namespace OrderedMap

variable {κ ν : Type} [DecidableEq κ]

/-- The map without keys. -/
def empty : OrderedMap κ ν :=
  ⟨[], List.nodup_nil⟩

instance : Inhabited (OrderedMap κ ν) :=
  ⟨empty⟩

/-- Gives a key a value. -/
def insert (m : OrderedMap κ ν) (k : κ) (v : ν) : OrderedMap κ ν :=
  ⟨insertEntry k v m.entries, by
    rw [map_fst_insertEntry]
    split
    · exact m.nodup
    · rename_i h
      rw [List.nodup_append]
      exact ⟨m.nodup, by simp, fun a ha b hb hab ↦ h (by simp_all)⟩⟩

/-- The value of a key. -/
def get? (m : OrderedMap κ ν) (k : κ) : Option ν :=
  m.entries.lookup k

/-- Whether a key has a value. -/
def contains (m : OrderedMap κ ν) (k : κ) : Bool :=
  (m.get? k).isSome

/-- The keys in order. -/
def keys (m : OrderedMap κ ν) : List κ :=
  m.entries.map Prod.fst

/-- The values in the order of their keys. -/
def values (m : OrderedMap κ ν) : List ν :=
  m.entries.map Prod.snd

/-- The number of keys. -/
def size (m : OrderedMap κ ν) : Nat :=
  m.entries.length

/-- A key has no value exactly if it is not among the keys. -/
theorem get?_eq_none_iff {m : OrderedMap κ ν} {k : κ} :
    m.get? k = none ↔ k ∉ m.entries.map Prod.fst := by
  rw [get?, lookup_eq_none_iff_not_mem]

/-- What a key has after a key is given a value. -/
theorem get?_insert (m : OrderedMap κ ν) (k : κ) (v : ν) (k' : κ) :
    (m.insert k v).get? k' = if k' = k then some v else m.get? k' :=
  lookup_insertEntry k v m.entries k'

/-- The value of a new key comes last. -/
theorem values_insert_of_get?_eq_none {m : OrderedMap κ ν} {k : κ} (h : m.get? k = none) (v : ν) :
    (m.insert k v).values = m.values ++ [v] := by
  have hentries : (m.insert k v).entries = m.entries ++ [(k, v)] :=
    insertEntry_of_not_mem v (get?_eq_none_iff.1 h)
  rw [values, hentries, List.map_append, values, List.map_singleton]

end OrderedMap

end AppletBundle
