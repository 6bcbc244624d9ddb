import AppletBundle.Asset.Tree
import AppletBundle.Asset.Validity
import Mathlib.Data.List.Basic

/-!
# The structure of asset graphs

Assets are only ever added at the end, each under an asset that is there already. So in every graph
that is built step by step (`Built`) the numbers, the children and the parents of assets agree
(`Linked`), and numbers grow on the way down.

`addChild_eq_ok` says all that adding an asset below another can do, and `get?_attach_eq_some_iff`
which assets a graph has after it. Each step then keeps the links (`Linked.addApp`, `Linked.attach`,
`Linked.modify`), and `Built.linked` puts the steps together.
-/

namespace AppletBundle

open AppletBundle.Script

namespace AssetGraph

/-! ### Graphs that can be built -/

/-- The graphs that come from the empty one by adding assets and by changing what an asset holds:
anything but its number, its children and its parent. -/
inductive Built : AssetGraph → Prop
  | empty : Built .empty
  | addApp {g g' : AssetGraph} {identity : String} {path : Path} {siblings : SiblingModules}
      {id : AssetId} (hg : Built g) (h : g.addApp identity path siblings = .ok (id, g')) : Built g'
  | addChild {g g' : AssetGraph} {parent : AssetId} {kind : AssetKind} {identity : String}
      {path : Path} {siblings : SiblingModules} {id : AssetId} (hg : Built g)
      (h : g.addChild parent kind identity path siblings = .ok (id, g')) : Built g'
  | modify {g : AssetGraph} {f : Asset → Asset} (hg : Built g) (id : AssetId)
      (hf : ∀ a, (f a).id = a.id ∧ (f a).children = a.children ∧ (f a).parent = a.parent) :
      Built (g.modify id f)

/-- Numbers, children and parents of the assets agree: an asset has the number of its place, and one
asset is a child of another exactly if that is its parent, which comes before it. -/
structure Linked (g : AssetGraph) : Prop where
  id_eq : ∀ {i a}, g.get? i = some a → a.id = i
  child : ∀ {i c : ℕ} {a}, g.get? i = some a → c ∈ a.children.values →
    i < c ∧ ∃ b, g.get? c = some b ∧ b.parent = some i
  parent : ∀ {c b i}, g.get? c = some b → b.parent = some i →
    ∃ a, g.get? i = some a ∧ c ∈ a.children.values

theorem get?_modify (g : AssetGraph) (id : AssetId) (f : Asset → Asset) (i : AssetId) :
    (g.modify id f).get? i = (g.get? i).map fun a ↦ if id = i then f a else a := by
  rw [get?, modify, List.getElem?_modify, get?]
  split <;> rfl

theorem lt_size_of_get? {g : AssetGraph} {i : ℕ} {a : Asset} (h : g.get? i = some a) :
    i < g.size :=
  (List.getElem?_eq_some_iff.1 h).1

section push

variable {g : AssetGraph} {kind : AssetKind} {identity : String} {path : Path}
  {siblings : SiblingModules} {parent : Option AssetId}

/-- The asset that is appended to a graph. -/
abbrev fresh (g : AssetGraph) (kind : AssetKind) (identity : String) (path : Path)
    (siblings : SiblingModules) (parent : Option AssetId) : Asset :=
  ⟨g.size, kind, identity, path, siblings, .empty, parent, .empty, .empty⟩

theorem get?_push_eq_some_iff {i : ℕ} {a : Asset} :
    (g.push kind identity path siblings parent).get? i = some a ↔
      g.get? i = some a ∨ i = g.size ∧ g.fresh kind identity path siblings parent = a := by
  rw [get?, push, List.getElem?_append, get?]
  constructor
  · intro h
    split at h
    · exact Or.inl h
    · rename_i hi
      have hlt : i - g.nodes.length < 1 := (List.getElem?_eq_some_iff.1 h).1
      have hsize : i = g.nodes.length := by omega
      subst hsize
      rw [Nat.sub_self] at h
      exact Or.inr ⟨rfl, Option.some.inj h⟩
  · rintro (h | ⟨rfl, rfl⟩)
    · rwa [if_pos (List.getElem?_eq_some_iff.1 h).1]
    · simp [size]

end push

/-! ### Attaching an asset under another -/

section attach

variable {g : AssetGraph} {parent : AssetId} {above : Asset} {kind : AssetKind} {identity : String}
  {path : Path} {siblings : SiblingModules}

/-- The graph with an asset appended and entered among the children of its parent. -/
def attach (g : AssetGraph) (parent : AssetId) (kind : AssetKind) (identity : String) (path : Path)
    (siblings : SiblingModules) : AssetGraph :=
  (g.push kind identity path siblings (some parent)).modify parent fun a ↦
    { a with children := a.children.insert identity g.size }

theorem size_attach : (g.attach parent kind identity path siblings).size = g.size + 1 := by
  rw [attach, modify, size, List.length_modify, push, List.length_append]
  rfl

/-- Adding a page or component either finds it among the children of its parent, and then nothing
changes, or attaches it there. -/
theorem addChild_eq_ok {g' : AssetGraph} {id : AssetId}
    (h : g.addChild parent kind identity path siblings = .ok (id, g')) :
    g' = g ∨ ∃ above, g.get? parent = some above ∧ above.children.get? identity = none ∧
      g' = g.attach parent kind identity path siblings := by
  rw [AssetGraph.addChild] at h
  split at h
  · cases h
  split at h
  · cases h
  rename_i above habove
  split at h
  · split at h
    · cases h
    · cases h
      exact Or.inl rfl
  · rename_i hkey
    cases h
    exact Or.inr ⟨above, habove, hkey, rfl⟩

/-- What is not among the children of an asset is attached there. -/
theorem addChild_eq_attach (hkind : kind ≠ .app) (habove : g.get? parent = some above)
    (hkey : above.children.get? identity = none) :
    g.addChild parent kind identity path siblings =
      .ok (g.size, g.attach parent kind identity path siblings) := by
  rw [AssetGraph.addChild, if_neg hkind]
  simp only [habove, hkey]
  rfl

/-- A page that is added has not been there. -/
theorem get?_eq_none_of_addChild {g' : AssetGraph} {id : AssetId} (hkind : kind.isBundle)
    (habove : g.get? parent = some above)
    (h : g.addChild parent kind identity path siblings = .ok (id, g')) :
    above.children.get? identity = none := by
  rw [AssetGraph.addChild] at h
  split at h
  · cases h
  simp only [habove] at h
  split at h
  · cases h
  · assumption

theorem get?_attach_eq_some_iff (habove : g.get? parent = some above) {i : AssetId} {a : Asset} :
    (g.attach parent kind identity path siblings).get? i = some a ↔
      (g.get? i = some a ∧ i ≠ parent) ∨
      (i = parent ∧ { above with children := above.children.insert identity g.size } = a) ∨
      (i = g.size ∧ g.fresh kind identity path siblings (some parent) = a) := by
  have hlt := lt_size_of_get? habove
  rw [attach, get?_modify, Option.map_eq_some_iff]
  simp only [get?_push_eq_some_iff]
  constructor
  · rintro ⟨b, hb | ⟨rfl, rfl⟩, rfl⟩
    · split
      · subst i
        rw [habove] at hb
        cases hb
        exact Or.inr (Or.inl ⟨rfl, rfl⟩)
      · rename_i hne
        exact Or.inl ⟨hb, fun hi ↦ hne hi.symm⟩
    · rw [if_neg (Nat.ne_of_lt hlt)]
      exact Or.inr (Or.inr ⟨rfl, rfl⟩)
  · rintro (⟨hb, hne⟩ | ⟨rfl, rfl⟩ | ⟨rfl, rfl⟩)
    · exact ⟨a, Or.inl hb, if_neg fun hi ↦ hne hi.symm⟩
    · exact ⟨above, Or.inl habove, if_pos rfl⟩
    · exact ⟨_, Or.inr ⟨rfl, rfl⟩, if_neg (Nat.ne_of_lt hlt)⟩

/-- The assets that were there stay, with their parents and at least their children. -/
theorem exists_get?_attach (habove : g.get? parent = some above)
    (hkey : above.children.get? identity = none) {i : AssetId} {b : Asset}
    (hb : g.get? i = some b) :
    ∃ a, (g.attach parent kind identity path siblings).get? i = some a ∧ a.parent = b.parent ∧
      b.children.values ⊆ a.children.values := by
  by_cases hi : i = parent
  · subst hi
    rw [habove] at hb
    cases hb
    refine ⟨_, (get?_attach_eq_some_iff habove).2 (Or.inr (Or.inl ⟨rfl, rfl⟩)), rfl, ?_⟩
    rw [OrderedMap.values_insert_of_get?_eq_none hkey]
    exact List.subset_append_left _ _
  · exact ⟨b, (get?_attach_eq_some_iff habove).2 (Or.inl ⟨hb, hi⟩), rfl, List.Subset.refl _⟩

end attach

namespace Linked

variable {g : AssetGraph}

/-! ### Every step keeps the links -/

protected theorem empty : Linked .empty where
  id_eq h := by simp [get?, AssetGraph.empty] at h
  child h := by simp [get?, AssetGraph.empty] at h
  parent h := by simp [get?, AssetGraph.empty] at h

/-- What an asset holds besides its links may change. -/
protected theorem modify (hg : g.Linked) (id : AssetId) {f : Asset → Asset}
    (hf : ∀ a, (f a).id = a.id ∧ (f a).children = a.children ∧ (f a).parent = a.parent) :
    (g.modify id f).Linked := by
  have hold : ∀ {i a}, (g.modify id f).get? i = some a → ∃ b, g.get? i = some b ∧
      a.id = b.id ∧ a.children = b.children ∧ a.parent = b.parent := by
    intro i a h
    rw [get?_modify, Option.map_eq_some_iff] at h
    obtain ⟨b, hb, rfl⟩ := h
    refine ⟨b, hb, ?_⟩
    split
    · exact hf b
    · exact ⟨rfl, rfl, rfl⟩
  have hnew : ∀ {i b}, g.get? i = some b → ∃ a, (g.modify id f).get? i = some a ∧
      a.children = b.children ∧ a.parent = b.parent := by
    intro i b h
    refine ⟨_, by rw [get?_modify, h, Option.map_some], ?_⟩
    split
    · exact (hf b).2
    · exact ⟨rfl, rfl⟩
  refine ⟨fun h ↦ ?_, fun h hc ↦ ?_, fun h hp ↦ ?_⟩
  · obtain ⟨b, hb, hid, -⟩ := hold h
    rw [hid, hg.id_eq hb]
  · obtain ⟨b, hb, -, hch, -⟩ := hold h
    obtain ⟨hlt, b', hb', hp⟩ := hg.child hb (hch ▸ hc)
    obtain ⟨a', ha', -, hpar⟩ := hnew hb'
    exact ⟨hlt, a', ha', hpar.trans hp⟩
  · obtain ⟨b, hb, -, -, hpar⟩ := hold h
    obtain ⟨a, ha, hc⟩ := hg.parent hb (hpar ▸ hp)
    obtain ⟨a', ha', hch, -⟩ := hnew ha
    exact ⟨a', ha', hch ▸ hc⟩

/-- An app is added without links. -/
theorem addApp (hg : g.Linked) {g' : AssetGraph} {identity : String} {path : Path}
    {siblings : SiblingModules} {id : AssetId}
    (h : g.addApp identity path siblings = .ok (id, g')) : g'.Linked := by
  have hget : ∀ {i a}, g'.get? i = some a ↔
      g.get? i = some a ∨ i = g.size ∧ g.fresh .app identity path siblings none = a := by
    rw [AssetGraph.addApp] at h
    split at h
    · cases h
    · cases h
      exact get?_push_eq_some_iff
  refine ⟨fun h ↦ ?_, fun h hc ↦ ?_, fun h hp ↦ ?_⟩
  · rcases hget.1 h with h | ⟨rfl, rfl⟩
    · exact hg.id_eq h
    · rfl
  · rcases hget.1 h with h | ⟨rfl, rfl⟩
    · obtain ⟨hlt, b, hb, hp⟩ := hg.child h hc
      exact ⟨hlt, b, hget.2 (Or.inl hb), hp⟩
    · exact absurd hc List.not_mem_nil
  · rcases hget.1 h with h | ⟨rfl, rfl⟩
    · obtain ⟨a, ha, hc⟩ := hg.parent h hp
      exact ⟨a, hget.2 (Or.inl ha), hc⟩
    · cases hp

/-- A page or component is linked to the asset under which it is added, and to nothing else. -/
theorem attach (hg : g.Linked) {parent : AssetId} {above : Asset} {kind : AssetKind}
    {identity : String} {path : Path} {siblings : SiblingModules}
    (habove : g.get? parent = some above) (hkey : above.children.get? identity = none) :
    (g.attach parent kind identity path siblings).Linked := by
  have hvalues := OrderedMap.values_insert_of_get?_eq_none hkey g.size
  have hlt := lt_size_of_get? habove
  have hchild : ∀ {i a c}, g.get? i = some a → c ∈ a.children.values → i < c ∧ ∃ b,
      (g.attach parent kind identity path siblings).get? c = some b ∧ b.parent = some i := by
    intro i a c ha hc
    obtain ⟨hlt, b, hb, hp⟩ := hg.child ha hc
    obtain ⟨b', hb', hp', -⟩ := exists_get?_attach habove hkey hb
    exact ⟨hlt, b', hb', hp'.trans hp⟩
  have hparent : ∀ {i b c}, g.get? c = some b → b.parent = some i → ∃ a,
      (g.attach parent kind identity path siblings).get? i = some a ∧ c ∈ a.children.values := by
    intro i b c hb hp
    obtain ⟨a, ha, hc⟩ := hg.parent hb hp
    obtain ⟨a', ha', -, hsub⟩ := exists_get?_attach habove hkey ha
    exact ⟨a', ha', hsub hc⟩
  refine ⟨fun h ↦ ?_, fun h hc ↦ ?_, fun h hp ↦ ?_⟩
  · rcases (get?_attach_eq_some_iff habove).1 h with ⟨h, -⟩ | ⟨rfl, rfl⟩ | ⟨rfl, rfl⟩
    · exact hg.id_eq h
    · exact hg.id_eq (a := above) habove
    · rfl
  · rcases (get?_attach_eq_some_iff habove).1 h with ⟨h, -⟩ | ⟨rfl, rfl⟩ | ⟨rfl, rfl⟩
    · exact hchild h hc
    · rw [hvalues] at hc
      rcases List.mem_append.1 hc with hc | hc
      · exact hchild habove hc
      · rw [List.mem_singleton] at hc
        subst hc
        exact ⟨hlt, _, (get?_attach_eq_some_iff habove).2 (Or.inr (Or.inr ⟨rfl, rfl⟩)), rfl⟩
    · exact absurd hc List.not_mem_nil
  · rcases (get?_attach_eq_some_iff habove).1 h with ⟨h, -⟩ | ⟨rfl, rfl⟩ | ⟨rfl, rfl⟩
    · exact hparent h hp
    · exact hparent habove hp
    · cases hp
      refine ⟨_, (get?_attach_eq_some_iff habove).2 (Or.inr (Or.inl ⟨rfl, rfl⟩)), ?_⟩
      rw [hvalues]
      exact List.mem_append_right _ (List.mem_singleton.2 rfl)

theorem addChild (hg : g.Linked) {g' : AssetGraph} {parent : AssetId} {kind : AssetKind}
    {identity : String} {path : Path} {siblings : SiblingModules} {id : AssetId}
    (h : g.addChild parent kind identity path siblings = .ok (id, g')) : g'.Linked := by
  rcases addChild_eq_ok h with rfl | ⟨above, habove, hkey, rfl⟩
  · exact hg
  · exact hg.attach habove hkey

end Linked

/-- **Numbers, children and parents agree in every graph that can be built.** -/
theorem Built.linked {g : AssetGraph} (hg : g.Built) : g.Linked := by
  induction hg with
  | empty => exact .empty
  | addApp _ h ih => exact ih.addApp h
  | addChild _ h ih => exact ih.addChild h
  | modify _ id hf ih => exact ih.modify id hf

end AssetGraph

end AppletBundle
