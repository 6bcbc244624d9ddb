import AppletBundle.Proofs.Asset.Validity
import Mathlib.Data.List.Nodup

/-!
# Where assets are

In a valid graph that was built step by step the walk of packaging meets assets where they belong:
the root is the app (`Built.kind_root`), its children are pages, and all below a page are components
(`Linked.isComponent_of_mem`). And it meets each of them once (`Built.nodup_postOrderAll`): siblings
differ, and trees below different siblings have nothing in common, since the way up from a common
member would end at an asset above both.
-/

namespace AppletBundle

open AssetTree

namespace AssetGraph

/-! ### Roots and children -/

/-- The root of a graph is an asset above which there is nothing. -/
theorem Built.exists_root {g : AssetGraph} (hg : g.Built) {root : AssetId}
    (hroot : g.root = some root) : ∃ a, g.get? root = some a ∧ a.parent = none := by
  induction hg with
  | empty => cases hroot
  | addApp _ h _ =>
    rw [AssetGraph.addApp] at h
    split at h
    · cases h
    · cases h
      obtain rfl := Option.some.inj hroot
      exact ⟨_, get?_push_eq_some_iff.2 (Or.inr ⟨rfl, rfl⟩), rfl⟩
  | addChild _ h ih =>
    rcases addChild_eq_ok h with rfl | ⟨above, habove, hkey, rfl⟩
    · exact ih hroot
    · obtain ⟨a, ha, hparent⟩ := ih hroot
      obtain ⟨a', ha', hparent', -⟩ := exists_get?_attach habove hkey ha
      exact ⟨a', ha', hparent'.trans hparent⟩
  | modify _ id hf ih =>
    obtain ⟨a, ha, hparent⟩ := ih hroot
    refine ⟨_, by rw [get?_modify, ha, Option.map_some], ?_⟩
    split
    · exact (hf a).2.2.trans hparent
    · exact hparent

/-- No asset is among the children of another twice. -/
theorem Built.nodup_children {g : AssetGraph} (hg : g.Built) {id : AssetId} {a : Asset}
    (ha : g.get? id = some a) : a.children.values.Nodup := by
  induction hg generalizing id a with
  | empty => cases ha
  | addApp _ h ih =>
    rw [AssetGraph.addApp] at h
    split at h
    · cases h
    · cases h
      rcases get?_push_eq_some_iff.1 ha with ha | ⟨-, rfl⟩
      · exact ih ha
      · exact List.nodup_nil
  | @addChild g _ _ _ _ _ _ _ hg h ih =>
    rcases addChild_eq_ok h with rfl | ⟨above, habove, hkey, rfl⟩
    · exact ih ha
    · rcases (get?_attach_eq_some_iff habove).1 ha with ⟨ha, -⟩ | ⟨-, rfl⟩ | ⟨-, rfl⟩
      · exact ih ha
      · have hfresh : g.size ∉ above.children.values := by
          intro hmem
          obtain ⟨-, b, hb, -⟩ := hg.linked.child habove hmem
          exact absurd (lt_size_of_get? hb) (Nat.lt_irrefl _)
        rw [OrderedMap.values_insert_of_get?_eq_none hkey, ← List.concat_eq_append]
        exact List.Nodup.concat hfresh (ih habove)
      · exact List.nodup_nil
  | modify _ id hf ih =>
    rw [get?_modify, Option.map_eq_some_iff] at ha
    obtain ⟨b, hb, rfl⟩ := ha
    split
    · rw [(hf b).2.1]
      exact ih hb
    · exact ih hb

/-! ### Kinds -/

/-- Every asset of a graph is in its place. -/
def Placed (g : AssetGraph) (root : AssetId) : Prop :=
  ∀ i a, g.get? i = some a → g.checkPlace root a = .ok ()

theorem placed_of_validate {g : AssetGraph} {root : AssetId} (hroot : g.root = some root)
    (hv : g.validate = .ok ()) : g.Placed root := by
  intro i a ha
  rw [validate, hroot] at hv
  exact checkPlace_of_checkAll hv (List.mem_of_getElem? ha)

section placed

variable {g : AssetGraph} {root : AssetId} {a : Asset}

theorem kind_eq_app_of_checkPlace (h : g.checkPlace root a = .ok ()) (hparent : a.parent = none) :
    a.kind = .app := by
  have hkind : g.parentKind? a = none := by rw [parentKind?, hparent, Option.bind_none]
  rw [checkPlace, hkind] at h
  rcases hk : a.kind with - | route | tag
  · rfl
  · rw [hk] at h
    cases h
  · rw [hk] at h
    cases h

/-- Below the app there are pages, and below all others components. -/
theorem kind_of_checkPlace (h : g.checkPlace root a = .ok ()) {i : AssetId} {above : Asset}
    (hparent : a.parent = some i) (habove : g.get? i = some above) :
    (above.kind = .app → a.IsPage) ∧ (above.kind ≠ .app → a.IsComponent) := by
  have hkind : g.parentKind? a = some above.kind := by
    rw [parentKind?, hparent, Option.bind_some, habove, Option.map_some]
  rw [checkPlace, hkind] at h
  rcases hk : a.kind with - | route | tag
  · rw [hk] at h
    cases h
  · rcases hka : above.kind with - | route' | tag'
    · exact ⟨fun _ ↦ ⟨route, hk⟩, fun hne ↦ absurd rfl hne⟩
    · rw [hk, hka] at h
      cases h
    · rw [hk, hka] at h
      cases h
  · rcases hka : above.kind with - | route' | tag'
    · rw [hk, hka] at h
      cases h
    · exact ⟨fun happ ↦ AssetKind.noConfusion happ, fun _ ↦ ⟨tag, hk⟩⟩
    · exact ⟨fun happ ↦ AssetKind.noConfusion happ, fun _ ↦ ⟨tag, hk⟩⟩

end placed

/-- **The root of a valid graph is its app.** -/
theorem Built.kind_root {g : AssetGraph} (hg : g.Built) {root : AssetId}
    (hroot : g.root = some root) (hplaced : g.Placed root) :
    ∃ app, g.get? root = some app ∧ app.kind = .app := by
  obtain ⟨app, happ, hparent⟩ := hg.exists_root hroot
  exact ⟨app, happ, kind_eq_app_of_checkPlace (hplaced root app happ) hparent⟩

namespace Linked

variable {g : AssetGraph} {root : AssetId}

/-- Below components there are components only. -/
theorem isComponent_of_mem (hg : g.Linked) (hplaced : g.Placed root) {ids : List AssetId}
    {ts : List AssetTree} (h : g.Unfolds ids ts)
    (hids : ∀ id ∈ ids, ∀ a, g.get? id = some a → a.IsComponent) :
    ∀ c ∈ postOrderAll ts, c.IsComponent := by
  induction h with
  | nil => exact fun c hc ↦ absurd hc List.not_mem_nil
  | @cons id ids a us rest ha hus hrest ih ihs =>
    have hcomponent := hids id List.mem_cons_self a ha
    have hbelow : ∀ c ∈ a.children.values, ∀ b, g.get? c = some b → b.IsComponent := by
      intro c hc b hb
      obtain ⟨-, b', hb', hparent⟩ := hg.child ha hc
      obtain rfl := Option.some.inj (hb.symm.trans hb')
      refine (kind_of_checkPlace (hplaced c b hb) hparent ha).2 fun hk ↦ ?_
      obtain ⟨tag, htag⟩ := hcomponent
      exact absurd (htag.symm.trans hk) (by nofun)
    rw [postOrderAll, postOrder, List.forall_mem_append, List.forall_mem_append]
    refine ⟨⟨ih hbelow, fun c hc ↦ ?_⟩, ihs fun i hi ↦ hids i (List.mem_cons_of_mem _ hi)⟩
    exact List.mem_singleton.1 hc ▸ hcomponent

/-! ### Each asset once -/

/-- What is below some assets has greater numbers. -/
theorem exists_le_of_mem (hg : g.Linked) {ids : List AssetId} {ts : List AssetTree}
    (h : g.Unfolds ids ts) {b : Asset} (hb : b ∈ postOrderAll ts) :
    ∃ i ∈ ids, ∃ a, g.get? i = some a ∧ i ≤ b.id := by
  induction h with
  | nil => exact absurd hb List.not_mem_nil
  | @cons id ids a us rest ha _ _ ih ihs =>
    rw [postOrderAll, postOrder, List.append_assoc, List.mem_append, List.mem_append,
      List.mem_singleton] at hb
    rcases hb with hb | rfl | hb
    · obtain ⟨c, hc, -, -, hle⟩ := ih hb
      have hlt := (hg.child ha hc).1
      exact ⟨id, List.mem_cons_self, a, ha, Nat.le_trans (Nat.le_of_lt hlt) hle⟩
    · exact ⟨id, List.mem_cons_self, b, ha, Nat.le_of_eq (hg.id_eq ha).symm⟩
    · obtain ⟨i, hi, hfound⟩ := ihs hb
      exact ⟨i, List.mem_cons_of_mem _ hi, hfound⟩

/-- The assets with the given numbers are all under the same one, or under none. -/
def Siblings (g : AssetGraph) (parent : Option AssetId) (ids : List AssetId) : Prop :=
  ∀ id ∈ ids, ∀ a, g.get? id = some a → a.parent = parent

/-- **Trees below different siblings have nothing in common.** -/
theorem separate (hg : g.Linked) {parent : Option AssetId} {ids ids' : List AssetId}
    {ts us : List AssetTree} (h : g.Unfolds ids ts) (h' : g.Unfolds ids' us)
    (hids : Siblings g parent ids) (hids' : Siblings g parent ids') (hne : ∀ i ∈ ids, i ∉ ids') :
    ∀ c ∈ postOrderAll ts, c ∉ postOrderAll us := by
  -- an asset in one place cannot hang on an asset in the other
  have habove : ∀ {is js : List AssetId} {vs : List AssetTree} {c e : Asset},
      Siblings g parent is → Siblings g parent js → g.Unfolds js vs → g.get? c.id = some c →
      c.id ∈ is → e ∈ postOrderAll vs → c.parent ≠ some e.id := by
    intro is js vs c e his hjs hvs hc hmem he hparent
    obtain ⟨j, hj, b, hb, hle⟩ := hg.exists_le_of_mem hvs he
    have hb' : b.parent = some e.id :=
      (hjs j hj b hb).trans ((his c.id hmem c hc).symm.trans hparent)
    obtain ⟨e', he', hchild⟩ := hg.parent hb hb'
    exact absurd hle (Nat.not_le_of_lt (hg.child he' hchild).1)
  suffices ∀ n, ∀ c : Asset, c.id = n → c ∈ postOrderAll ts → c ∉ postOrderAll us from
    fun c hc ↦ this c.id c rfl hc
  intro n
  -- the numbers of assets shrink on the way up
  induction n using Nat.strongRecOn with
  | _ n ih =>
    rintro c rfl hct hcu
    have hc := h.get?_id_of_mem hg hct
    rcases h.parent_of_mem hg hct with hi | ⟨d, hd, hp⟩
    · rcases h'.parent_of_mem hg hcu with hj | ⟨e, he, hq⟩
      · exact hne c.id hi hj
      · exact habove hids hids' h' hc hi he hq
    · rcases h'.parent_of_mem hg hcu with hj | ⟨e, he, hq⟩
      · exact habove hids' hids h hc hj hd hp
      · have hde : d = e := by
          have hid : d.id = e.id := Option.some.inj (hp.symm.trans hq)
          have hd' := h.get?_id_of_mem hg hd
          rw [hid, h'.get?_id_of_mem hg he] at hd'
          exact (Option.some.inj hd').symm
        obtain ⟨d', hd', hchild⟩ := hg.parent hc hp
        exact ih d.id (hg.child hd' hchild).1 d rfl hd (hde ▸ he)

end Linked

open Linked in
/-- **A walk down from siblings meets each asset once.** -/
theorem Built.nodup_postOrderAll {g : AssetGraph} (hg : g.Built) {parent : Option AssetId}
    {ids : List AssetId} {ts : List AssetTree} (h : g.Unfolds ids ts) (hnodup : ids.Nodup)
    (hids : Siblings g parent ids) : ((postOrderAll ts).map Asset.id).Nodup := by
  have hlinked := hg.linked
  induction h generalizing parent with
  | nil => exact List.nodup_nil
  | @cons id ids a us rest ha hus hrest ih ihs =>
    obtain ⟨hid, hnodup'⟩ := List.nodup_cons.1 hnodup
    have hchildren : Siblings g (some id) a.children.values := by
      intro c hc b hb
      obtain ⟨-, b', hb', hparent⟩ := hlinked.child ha hc
      obtain rfl := Option.some.inj (hb.symm.trans hb')
      exact hparent
    have hrestSiblings : Siblings g parent ids := fun i hi ↦ hids i (List.mem_cons_of_mem _ hi)
    have hsingle : Siblings g parent [id] := fun i hi ↦
      List.mem_singleton.1 hi ▸ hids id List.mem_cons_self
    have hfirst : g.Unfolds [id] [.node a us] := .cons ha hus .nil
    have hapart := hlinked.separate hfirst hrest hsingle hrestSiblings
      fun i hi ↦ List.mem_singleton.1 hi ▸ hid
    have hbelow := ih (hg.nodup_children ha) hchildren
    have hafter := ihs hnodup' hrestSiblings
    have htop : a.id ∉ (postOrderAll us).map Asset.id := by
      intro hmem
      obtain ⟨b, hb, hba⟩ := List.mem_map.1 hmem
      obtain ⟨c, hc, -, -, hle⟩ := hlinked.exists_le_of_mem hus hb
      have hlt := Nat.lt_of_lt_of_le (hlinked.child ha hc).1 hle
      rw [hba, hlinked.id_eq ha] at hlt
      exact Nat.lt_irrefl _ hlt
    have hall : postOrderAll (.node a us :: rest) =
        postOrderAll us ++ [a] ++ postOrderAll rest := by
      rw [postOrderAll, postOrder]
    rw [hall, List.map_append, List.nodup_append]
    refine ⟨?_, hafter, ?_⟩
    · rw [List.map_append, List.map_singleton, ← List.concat_eq_append]
      exact List.Nodup.concat htop hbelow
    · rintro i hi j hj rfl
      obtain ⟨b, hb, rfl⟩ := List.mem_map.1 hi
      obtain ⟨c, hc, hcb⟩ := List.mem_map.1 hj
      have hb' : b ∈ postOrderAll [.node a us] := by
        rwa [postOrderAll, postOrder, postOrderAll, List.append_nil]
      have hbc : b = c := by
        have hgetb := hfirst.get?_id_of_mem hlinked hb'
        rw [← hcb, hrest.get?_id_of_mem hlinked hc] at hgetb
        exact (Option.some.inj hgetb).symm
      exact hapart b hb' (hbc ▸ hc)

end AssetGraph

end AppletBundle
