import AppletBundle.Proofs.Asset.Structure

/-!
# The tree below an asset

`Unfolds` says, without a bound for the depth, which trees the assets with given numbers unfold to.
The trees that `tree?` cuts off at a depth are these (`Linked.exists_tree?_eq`), since numbers grow
on the way down and so no way is longer than the graph is large.

`postOrderAll` lists everything in some trees, an asset after all that is below it. In such a list
the asset above any member is either a member or above the trees (`Unfolds.parent_of_mem`), which is
why two pages have nothing below them in common (`Unfolds.disjoint`).
-/

namespace AppletBundle

namespace AssetTree

mutual

/-- The assets of a tree, each after all below it. -/
def postOrder : AssetTree → List Asset
  | node a ts => postOrderAll ts ++ [a]

/-- The assets of trees next to each other, each after all below it. -/
def postOrderAll : List AssetTree → List Asset
  | [] => []
  | t :: ts => t.postOrder ++ postOrderAll ts

end

theorem mem_postOrderAll {ts : List AssetTree} {a : Asset} :
    a ∈ postOrderAll ts ↔ ∃ t ∈ ts, a ∈ t.postOrder := by
  induction ts with
  | nil => exact ⟨fun h ↦ absurd h List.not_mem_nil, fun ⟨_, h, _⟩ ↦ absurd h List.not_mem_nil⟩
  | cons t ts ih => rw [postOrderAll, List.mem_append, ih, List.exists_mem_cons_iff]

theorem mem_postOrder {a page : Asset} {ts : List AssetTree} :
    a ∈ (node page ts).postOrder ↔ a ∈ postOrderAll ts ∨ a = page := by
  rw [postOrder, List.mem_append, List.mem_singleton]

end AssetTree

open AssetTree

/-- An asset that is a component. -/
def Asset.IsComponent (a : Asset) : Prop :=
  ∃ tag, a.kind = .component tag

namespace AssetGraph

/-- `g.Unfolds ids ts`: the trees below the assets with the numbers `ids` are `ts`. -/
inductive Unfolds (g : AssetGraph) : List AssetId → List AssetTree → Prop
  | nil : Unfolds g [] []
  | cons {id : AssetId} {ids : List AssetId} {a : Asset} {ts rest : List AssetTree}
      (ha : g.get? id = some a) (hts : Unfolds g a.children.values ts)
      (hrest : Unfolds g ids rest) : Unfolds g (id :: ids) (.node a ts :: rest)

/-! ### Trees are found -/

/-- **A depth as large as the rest of the graph cuts nothing off.** -/
theorem Linked.unfolds_treeWithin {g : AssetGraph} (hg : g.Linked) {depth : ℕ}
    {ids : List ℕ} (h : ∀ id ∈ ids, id < g.size ∧ g.size ≤ id + depth) :
    g.Unfolds ids (ids.filterMap (g.treeWithin depth)) := by
  induction depth generalizing ids with
  | zero =>
    cases ids with
    | nil => exact .nil
    | cons id ids =>
      have hid := h id List.mem_cons_self
      exact absurd hid.1 (Nat.not_lt_of_le hid.2)
  | succ depth ih =>
    induction ids with
    | nil => exact .nil
    | cons id ids ihs =>
      obtain ⟨hlt, hle⟩ := h id List.mem_cons_self
      obtain ⟨a, ha⟩ : ∃ a, g.get? id = some a := ⟨_, List.getElem?_eq_getElem hlt⟩
      have htree : g.treeWithin (depth + 1) id =
          some (.node a (a.children.values.filterMap (g.treeWithin depth))) := by
        rw [treeWithin, ha, Option.map_some]
      rw [List.filterMap_cons_some htree]
      refine .cons ha (ih fun c hc ↦ ?_) (ihs fun i hi ↦ h i (List.mem_cons_of_mem _ hi))
      obtain ⟨hic, b, hb, -⟩ := hg.child ha hc
      exact ⟨lt_size_of_get? hb, by omega⟩

theorem Linked.exists_tree?_eq {g : AssetGraph} (hg : g.Linked) {id : AssetId} {a : Asset}
    (ha : g.get? id = some a) :
    ∃ ts, g.tree? id = some (.node a ts) ∧ g.Unfolds a.children.values ts := by
  have hun : g.Unfolds [id] ([id].filterMap (g.treeWithin g.size)) := by
    refine hg.unfolds_treeWithin fun i hi ↦ ?_
    rw [List.mem_singleton] at hi
    exact hi ▸ ⟨lt_size_of_get? ha, Nat.le_add_left _ _⟩
  rw [tree?]
  cases ht : g.treeWithin g.size id with
  | none =>
    rw [List.filterMap_cons_none ht] at hun
    cases hun
  | some t =>
    rw [List.filterMap_cons_some ht] at hun
    cases hun with
    | cons ha' hts _ =>
      rw [ha] at ha'
      cases ha'
      exact ⟨_, rfl, hts⟩

namespace Unfolds

variable {g : AssetGraph} {ids : List AssetId} {ts : List AssetTree}

/-- Assets unfold in one way only. -/
theorem unique (h : g.Unfolds ids ts) {us : List AssetTree} (hu : g.Unfolds ids us) : ts = us := by
  induction h generalizing us with
  | nil =>
    cases hu
    rfl
  | cons ha _ _ ih ihs =>
    cases hu with
    | cons ha' hts' hrest' =>
      rw [ha] at ha'
      cases ha'
      rw [ih hts', ihs hrest']

/-- The tree of an asset whose number is among the unfolded ones is among the trees. -/
theorem exists_node_mem (h : g.Unfolds ids ts) {id : AssetId} (hid : id ∈ ids) {a : Asset}
    (ha : g.get? id = some a) :
    ∃ below, .node a below ∈ ts ∧ g.Unfolds a.children.values below := by
  induction h with
  | nil => exact absurd hid List.not_mem_nil
  | @cons _ _ b us _ hb hus _ _ ih =>
    rcases List.mem_cons.1 hid with rfl | hid
    · rw [ha] at hb
      cases hb
      exact ⟨us, List.mem_cons_self, hus⟩
    · obtain ⟨below, hmem, hun⟩ := ih hid
      exact ⟨below, List.mem_cons_of_mem _ hmem, hun⟩

/-- And every tree is that of such an asset. -/
theorem get?_of_node_mem (h : g.Unfolds ids ts) {a : Asset} {below : List AssetTree}
    (hmem : .node a below ∈ ts) :
    ∃ id ∈ ids, g.get? id = some a ∧ g.Unfolds a.children.values below := by
  induction h with
  | nil => exact absurd hmem List.not_mem_nil
  | cons hb hus _ _ ih =>
    rcases List.mem_cons.1 hmem with heq | hmem
    · cases heq
      exact ⟨_, List.mem_cons_self, hb, hus⟩
    · obtain ⟨id, hid, ha, hun⟩ := ih hmem
      exact ⟨id, List.mem_cons_of_mem _ hid, ha, hun⟩

/-! ### What is below an asset -/

theorem get?_id_of_mem (hg : g.Linked) (h : g.Unfolds ids ts) {b : Asset}
    (hb : b ∈ postOrderAll ts) : g.get? b.id = some b := by
  induction h with
  | nil => exact absurd hb List.not_mem_nil
  | cons ha _ _ ih ihs =>
    rw [postOrderAll, postOrder, List.append_assoc, List.mem_append, List.mem_append,
      List.mem_singleton] at hb
    rcases hb with hb | rfl | hb
    · exact ih hb
    · rw [hg.id_eq ha, ha]
    · exact ihs hb

/-- What is below a member of the list is a member too. -/
theorem mem_of_child (h : g.Unfolds ids ts) {a b : Asset} {c : AssetId} (ha : a ∈ postOrderAll ts)
    (hc : c ∈ a.children.values) (hb : g.get? c = some b) : b ∈ postOrderAll ts := by
  induction h with
  | nil => exact absurd ha List.not_mem_nil
  | cons _ hus _ ih ihs =>
    rw [postOrderAll, List.mem_append, mem_postOrder] at ha ⊢
    rcases ha with (ha | rfl) | ha
    · exact .inl (.inl (ih ha))
    · obtain ⟨below, hmem, -⟩ := hus.exists_node_mem hc hb
      exact .inl (.inl (mem_postOrderAll.2 ⟨_, hmem, mem_postOrder.2 (.inr rfl)⟩))
    · exact .inr (ihs ha)

/-- **The asset above a member of the list is a member too**, unless the member's own number is
among those that were unfolded. -/
theorem parent_of_mem (hg : g.Linked) (h : g.Unfolds ids ts) {b : Asset}
    (hb : b ∈ postOrderAll ts) :
    b.id ∈ ids ∨ ∃ a ∈ postOrderAll ts, b.parent = some a.id := by
  induction h with
  | nil => exact absurd hb List.not_mem_nil
  | @cons id ids a us rest ha hus hrest ih ihs =>
    simp only [postOrderAll, postOrder, List.append_assoc, List.mem_append, List.mem_cons,
      List.singleton_append] at hb ⊢
    rcases hb with hb | rfl | hb
    · refine Or.inr ?_
      rcases ih hb with hid | ⟨c, hc, hp⟩
      · obtain ⟨-, b', hb', hp⟩ := hg.child ha hid
        rw [hus.get?_id_of_mem hg hb] at hb'
        cases hb'
        exact ⟨a, Or.inr (Or.inl rfl), hg.id_eq ha ▸ hp⟩
      · exact ⟨c, Or.inl hc, hp⟩
    · exact Or.inl (Or.inl (hg.id_eq ha))
    · rcases ihs hb with hid | ⟨c, hc, hp⟩
      · exact Or.inl (Or.inr hid)
      · exact Or.inr ⟨c, Or.inr (Or.inr hc), hp⟩

/-- Below an asset every member hangs on that asset or on another member. -/
theorem parent_of_mem_below (hg : g.Linked) {id : AssetId} {a : Asset} (ha : g.get? id = some a)
    (h : g.Unfolds a.children.values ts) {b : Asset} (hb : b ∈ postOrderAll ts) :
    b.parent = some id ∨ ∃ c ∈ postOrderAll ts, b.parent = some c.id := by
  rcases h.parent_of_mem hg hb with hid | hmem
  · obtain ⟨-, b', hb', hp⟩ := hg.child ha hid
    rw [h.get?_id_of_mem hg hb] at hb'
    cases hb'
    exact Or.inl hp
  · exact Or.inr hmem

/-- **Different assets that are no components have nothing below them in common**, if all below them
are components: the way up from a common member would meet both. -/
theorem disjoint (hg : g.Linked) {i j : AssetId} {a b : Asset} {us : List AssetTree}
    (ha : g.get? i = some a) (hb : g.get? j = some b) (hij : i ≠ j)
    (hac : ¬ a.IsComponent) (hbc : ¬ b.IsComponent)
    (hts : g.Unfolds a.children.values ts) (hus : g.Unfolds b.children.values us)
    (htc : ∀ c ∈ postOrderAll ts, c.IsComponent) (huc : ∀ c ∈ postOrderAll us, c.IsComponent) :
    ∀ c ∈ postOrderAll ts, c ∉ postOrderAll us := by
  suffices ∀ n, ∀ c : Asset, c.id = n → c ∈ postOrderAll ts → c ∉ postOrderAll us from
    fun c hc ↦ this c.id c rfl hc
  intro n
  -- the numbers of assets shrink on the way up
  induction n using Nat.strongRecOn with
  | _ n ih =>
    rintro c rfl hct hcu
    rcases hts.parent_of_mem_below hg ha hct with hp | ⟨d, hd, hp⟩
    · rcases hus.parent_of_mem_below hg hb hcu with hq | ⟨e, he, hq⟩
      · rw [hp] at hq
        exact hij (Option.some.inj hq)
      · rw [hp] at hq
        have hae := hus.get?_id_of_mem hg he
        rw [← Option.some.inj hq, ha] at hae
        cases hae
        exact hac (huc _ he)
    · rcases hus.parent_of_mem_below hg hb hcu with hq | ⟨e, he, hq⟩
      · rw [hp] at hq
        have hbd := hts.get?_id_of_mem hg hd
        rw [Option.some.inj hq, hb] at hbd
        cases hbd
        exact hbc (htc _ hd)
      · rw [hp] at hq
        have hde := hts.get?_id_of_mem hg hd
        rw [Option.some.inj hq, hus.get?_id_of_mem hg he] at hde
        cases hde
        obtain ⟨d', hd', hcd⟩ := hg.parent (hts.get?_id_of_mem hg hct) hp
        exact ih d.id (hg.child hd' hcd).1 d rfl hd he

end Unfolds

end AssetGraph

end AppletBundle
