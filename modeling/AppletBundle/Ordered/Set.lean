/-!
# Sets in insertion order

A set keeps its elements in the order in which they were first inserted; inserting one again changes
nothing.
-/

namespace AppletBundle

/-- Pairwise different elements in insertion order. -/
structure OrderedSet (α : Type) where
  toList : List α
  nodup : toList.Nodup

namespace OrderedSet

variable {α : Type} [DecidableEq α]

/-- The set without elements. -/
def empty : OrderedSet α :=
  ⟨[], List.nodup_nil⟩

instance : Inhabited (OrderedSet α) :=
  ⟨empty⟩

/-- Inserts an element at the end, unless it is there already. -/
def insert (s : OrderedSet α) (a : α) : OrderedSet α :=
  if h : a ∈ s.toList then s
  else ⟨s.toList ++ [a], by
    rw [List.nodup_append]
    exact ⟨s.nodup, by simp, fun b hb c hc hbc ↦ h (by simp_all)⟩⟩

/-- Inserts the elements of a list in order. -/
def insertAll (s : OrderedSet α) (as : List α) : OrderedSet α :=
  as.foldl insert s

/-- The elements of a list, each at the place of its first occurrence. -/
def ofList (as : List α) : OrderedSet α :=
  empty.insertAll as

/-- Whether an element is in the set. -/
def contains (s : OrderedSet α) (a : α) : Bool :=
  s.toList.contains a

/-- Whether there are no elements. -/
def isEmpty (s : OrderedSet α) : Bool :=
  s.toList.isEmpty

instance : DecidableEq (OrderedSet α) := fun s t ↦
  decidable_of_iff (s.toList = t.toList) ⟨fun h ↦ by cases s; cases t; simp_all, fun h ↦ h ▸ rfl⟩

/-- Inserting appends the element exactly if it is new. -/
theorem toList_insert (s : OrderedSet α) (a : α) :
    (s.insert a).toList = if a ∈ s.toList then s.toList else s.toList ++ [a] := by
  unfold insert
  split <;> rfl

/-- The elements after inserting one are the elements before and that one. -/
@[simp] theorem mem_insert {s : OrderedSet α} {a b : α} :
    b ∈ (s.insert a).toList ↔ b ∈ s.toList ∨ b = a := by
  rw [toList_insert]
  split
  · exact ⟨Or.inl, fun h ↦ h.elim id fun h ↦ h ▸ ‹_›⟩
  · simp

/-- The elements after inserting a list are the elements before and those of the list. -/
theorem mem_insertAll {s : OrderedSet α} {as : List α} {a : α} :
    a ∈ (s.insertAll as).toList ↔ a ∈ s.toList ∨ a ∈ as := by
  induction as generalizing s with
  | nil => simp [insertAll]
  | cons b as ih =>
    rw [insertAll, List.foldl_cons]
    change a ∈ ((s.insert b).insertAll as).toList ↔ _
    rw [ih, mem_insert, List.mem_cons, or_assoc]

/-- The elements of the set of a list are those of the list. -/
@[simp] theorem mem_ofList {as : List α} {a : α} : a ∈ (ofList as).toList ↔ a ∈ as := by
  rw [ofList, mem_insertAll]
  simp [empty]

end OrderedSet

end AppletBundle
