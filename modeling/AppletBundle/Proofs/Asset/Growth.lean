import AppletBundle.Proofs.Asset.Tree
import Mathlib.Data.List.Range

/-!
# Trees that are appended

A graph grows below one of its assets when trees are appended to it: the asset gets their tops as
further children, nothing else that was there changes, and what is new is numbered in pre-order
(`Grows`). Trees that are appended one after the other are appended together (`Grows.trans`), and an
asset that is attached and then grows is such a tree (`Grows.child`).
-/

namespace AppletBundle

namespace AssetTree

mutual

/-- The assets of a tree, each before all below it. -/
def preOrder : AssetTree → List Asset
  | node a ts => a :: preOrderAll ts

/-- The assets of trees next to each other, each before all below it. -/
def preOrderAll : List AssetTree → List Asset
  | [] => []
  | t :: ts => t.preOrder ++ preOrderAll ts

end

theorem preOrderAll_append (ts us : List AssetTree) :
    preOrderAll (ts ++ us) = preOrderAll ts ++ preOrderAll us := by
  induction ts with
  | nil => rfl
  | cons t ts ih => rw [List.cons_append, preOrderAll, preOrderAll, ih, List.append_assoc]

/-- The entry of the top among the children of the asset above. -/
def entry (t : AssetTree) : String × AssetId :=
  (t.asset.identity, t.asset.id)

theorem values_of_entries_eq {children : OrderedMap String AssetId} {ts : List AssetTree}
    (h : children.entries = ts.map entry) : children.values = ts.map fun t ↦ t.asset.id := by
  rw [OrderedMap.values, h]
  exact List.map_map

end AssetTree

open AssetTree

namespace AssetGraph

namespace Unfolds

variable {g h : AssetGraph} {ids ids' : List AssetId} {ts us : List AssetTree}

theorem append (hts : g.Unfolds ids ts) (hus : g.Unfolds ids' us) :
    g.Unfolds (ids ++ ids') (ts ++ us) := by
  induction hts with
  | nil => exact hus
  | cons ha hbelow _ _ ih => exact .cons ha hbelow ih

/-- The assets of the trees are those of the graph. -/
theorem get?_of_mem_preOrder (hg : g.Linked) (hts : g.Unfolds ids ts) {a : Asset}
    (ha : a ∈ preOrderAll ts) : g.get? a.id = some a := by
  induction hts with
  | nil => exact absurd ha List.not_mem_nil
  | cons hb _ _ ih ihs =>
    rw [preOrderAll, preOrder, List.cons_append, List.mem_cons, List.mem_append] at ha
    rcases ha with rfl | ha | ha
    · rw [hg.id_eq hb, hb]
    · exact ih ha
    · exact ihs ha

/-- Trees stay while their assets stay. -/
theorem of_kept (hg : g.Linked) (hts : g.Unfolds ids ts)
    (hkept : ∀ a ∈ preOrderAll ts, h.get? a.id = some a) : h.Unfolds ids ts := by
  induction hts with
  | nil => exact .nil
  | @cons id ids a ts rest ha hbelow _ ih ihs =>
    rw [preOrderAll, preOrder] at hkept
    refine .cons ?_ (ih fun b hb ↦ hkept b ?_) (ihs fun b hb ↦ hkept b ?_)
    · rw [← hg.id_eq ha]
      exact hkept a List.mem_cons_self
    · exact List.mem_append_left _ (List.mem_cons_of_mem _ hb)
    · exact List.mem_append_right _ hb

end Unfolds

/-- `h` is `g` with the trees `ts` appended below the asset with a number. -/
structure Grows (g : AssetGraph) (id : AssetId) (h : AssetGraph) (ts : List AssetTree) : Prop where
  linked : h.Linked
  root_eq : h.root = g.root
  size_le : g.size ≤ h.size
  kept : ∀ {i a}, i ≠ id → g.get? i = some a → h.get? i = some a
  top : ∀ {a}, g.get? id = some a → ∃ children : OrderedMap String AssetId,
    h.get? id = some { a with children := children } ∧
      children.entries = a.children.entries ++ ts.map entry
  unfolds : h.Unfolds (ts.map fun t ↦ t.asset.id) ts
  /-- New numbers are given in pre-order. -/
  numbers : (preOrderAll ts).map Asset.id = List.range' g.size (h.size - g.size)

namespace Grows

variable {g h k : AssetGraph} {id : AssetId} {ts us : List AssetTree}

protected theorem refl (hg : g.Linked) (id : AssetId) : Grows g id g [] where
  linked := hg
  root_eq := rfl
  size_le := Nat.le_refl _
  kept _ ha := ha
  top {a} ha := ⟨a.children, ha, (List.append_nil _).symm⟩
  unfolds := .nil
  numbers := by
    rw [Nat.sub_self]
    rfl

/-- What is appended is new. -/
theorem size_le_of_mem (hgrows : Grows g id h ts) {a : Asset} (ha : a ∈ preOrderAll ts) :
    g.size ≤ a.id := by
  have hmem : a.id ∈ List.range' g.size (h.size - g.size) :=
    hgrows.numbers ▸ List.mem_map_of_mem ha
  exact (List.mem_range'_1.1 hmem).1

/-- **Trees are appended one after the other.** -/
protected theorem trans (hid : id < g.size) (hgh : Grows g id h ts) (hhk : Grows h id k us) :
    Grows g id k (ts ++ us) where
  linked := hhk.linked
  root_eq := hhk.root_eq.trans hgh.root_eq
  size_le := Nat.le_trans hgh.size_le hhk.size_le
  kept hi ha := hhk.kept hi (hgh.kept hi ha)
  top {a} ha := by
    obtain ⟨children, hb, hentries⟩ := hgh.top ha
    obtain ⟨children', hc, hentries'⟩ := hhk.top hb
    refine ⟨children', hc, ?_⟩
    rw [hentries', hentries, List.map_append, List.append_assoc]
  unfolds := by
    rw [List.map_append]
    refine Unfolds.append (hgh.unfolds.of_kept hgh.linked fun a ha ↦ ?_) hhk.unfolds
    exact hhk.kept (Nat.ne_of_gt (Nat.lt_of_lt_of_le hid (hgh.size_le_of_mem ha)))
      (hgh.unfolds.get?_of_mem_preOrder hgh.linked ha)
  numbers := by
    have hsize : k.size - g.size = (h.size - g.size) + (k.size - h.size) := by
      have hle := hgh.size_le
      have hle' := hhk.size_le
      omega
    have hstart : g.size + (h.size - g.size) = h.size := Nat.add_sub_cancel' hgh.size_le
    rw [preOrderAll_append, List.map_append, hgh.numbers, hhk.numbers, hsize,
      ← List.range'_append_1, hstart]

/-- **An asset that is attached and grows** is a tree that is appended. -/
theorem child {parent : AssetId} {above : Asset} {kind : AssetKind} {identity : String}
    {path : Path} {siblings : SiblingModules} (habove : g.get? parent = some above)
    (hkey : above.children.get? identity = none)
    (hgrows : Grows (g.attach parent kind identity path siblings) g.size h ts) :
    ∃ b, Grows g parent h [.node b ts] ∧ b.kind = kind ∧ b.identity = identity ∧ b.path = path ∧
      b.siblings = siblings := by
  have hlt := lt_size_of_get? habove
  have hcases := @get?_attach_eq_some_iff g parent above kind identity path siblings habove
  obtain ⟨children, hb, hentries⟩ := hgrows.top (hcases.2 (.inr (.inr ⟨rfl, rfl⟩)))
  have hsizes : g.size + 1 ≤ h.size := by
    rw [← size_attach]
    exact hgrows.size_le
  have hvalues := values_of_entries_eq hentries
  refine ⟨{ g.fresh kind identity path siblings (some parent) with children := children },
    ⟨hgrows.linked, hgrows.root_eq, ?_, ?_, ?_, ?_, ?_⟩, rfl, rfl, rfl, rfl⟩
  · exact Nat.le_trans (Nat.le_succ g.size) hsizes
  · intro i a hi ha
    exact hgrows.kept (Nat.ne_of_lt (lt_size_of_get? ha)) (hcases.2 (.inl ⟨ha, hi⟩))
  · intro a ha
    obtain rfl := Option.some.inj (habove.symm.trans ha)
    refine ⟨_, hgrows.kept (Nat.ne_of_lt hlt) (hcases.2 (.inr (.inl ⟨rfl, rfl⟩))), ?_⟩
    exact insertEntry_of_not_mem _ (OrderedMap.get?_eq_none_iff.1 hkey)
  · exact .cons hb (hvalues ▸ hgrows.unfolds) .nil
  · have hsize : h.size - g.size = (h.size - (g.size + 1)) + 1 := by omega
    rw [preOrderAll, preOrder, preOrderAll, List.append_nil, List.map_cons, hgrows.numbers,
      size_attach, hsize, List.range'_succ]

end Grows

end AssetGraph

end AppletBundle
