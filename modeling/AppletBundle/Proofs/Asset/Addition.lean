import AppletBundle.Proofs.Asset.Placement
import Mathlib.Data.List.Range
import Mathlib.Logic.Relation

/-!
# Graphs made by additions

A graph is made by adding an app and then assets under assets that are there. Numbers, children,
parents and the root are kept side by side, and every addition has to keep them in step; `IsTree`
says what that means. An addition either leaves the graph alone (`add_cases`: it fails, or finds
the asset among the children of its parent) or appends one asset, and then the tree goes on
(`IsTree.withApp`, `IsTree.attach`). `additions_form_tree` puts the steps together.

The children of an asset are pinned down by one equation, `IsTree.children`: they are the assets
whose parent it is, in the order of their numbers, under their identities.
-/

namespace AppletBundle.AssetGraph

/-! ### Additions -/

/-- A request to add an asset to a graph. -/
inductive Addition where
  | app (identity : String) (path : Path) (siblings : SiblingModules)
  | child (parent : AssetId) (kind : AssetKind) (identity : String) (path : Path)
      (siblings : SiblingModules)

/-- The graph after a request, and what comes of it. -/
def Addition.outcome (g : AssetGraph) : Addition → Outcome (AssetId × AssetGraph)
  | app identity path siblings => g.addApp identity path siblings
  | child parent kind identity path siblings => g.addChild parent kind identity path siblings

/-- Carries out a request. One that fails leaves the graph as it is. -/
def add (g : AssetGraph) (x : Addition) : Outcome AssetId × AssetGraph :=
  match x.outcome g with
  | .ok (id, g') => (.ok id, g')
  | .error f => (.error f, g)

/-- The graph after some requests, whatever comes of each. -/
def ofAdditions (xs : List Addition) : AssetGraph :=
  xs.foldl (fun g x ↦ (g.add x).2) .empty

/-- The graph with an app appended as its root. -/
def withApp (g : AssetGraph) (identity : String) (path : Path) (siblings : SiblingModules) :
    AssetGraph :=
  { g.push .app identity path siblings none with root := some g.size }

theorem addApp_eq_withApp {g : AssetGraph} {identity : String} {path : Path}
    {siblings : SiblingModules} (hroot : g.root = none) :
    g.addApp identity path siblings = .ok (g.size, g.withApp identity path siblings) := by
  rw [addApp, hroot]
  rfl

/-- The requests that are refused: a second app, an app below something, anything below an asset
that is not there, and a page that is there already. -/
def Refuses (g : AssetGraph) : Addition → Prop
  | .app _ _ _ => g.root ≠ none
  | .child parent kind identity _ _ =>
    kind = .app ∨ g.get? parent = none ∨
      kind.isBundle ∧ ∃ above, g.get? parent = some above ∧ above.children.get? identity ≠ none

/-- **What a request can come to.** -/
theorem add_cases (g : AssetGraph) (x : Addition) :
    (g.Refuses x ∧ ∃ f, g.add x = (.error f, g)) ∨
    ¬ g.Refuses x ∧
      ((∃ id, g.add x = (.ok id, g)) ∨
      (∃ identity path siblings, g.root = none ∧
        g.add x = (.ok g.size, g.withApp identity path siblings)) ∨
      ∃ parent kind identity path siblings above, kind ≠ .app ∧ g.get? parent = some above ∧
        above.children.get? identity = none ∧
        g.add x = (.ok g.size, g.attach parent kind identity path siblings)) := by
  cases x with
  | app identity path siblings =>
    simp only [add, Addition.outcome, addApp, Refuses]
    rcases hroot : g.root with - | root
    · exact .inr ⟨fun h ↦ h rfl, .inr (.inl ⟨identity, path, siblings, rfl, rfl⟩)⟩
    · exact .inl ⟨Option.some_ne_none root, _, rfl⟩
  | child parent kind identity path siblings =>
    simp only [add, Addition.outcome, addChild, Refuses]
    by_cases hkind : kind = .app
    · rw [if_pos hkind]
      exact .inl ⟨.inl hkind, _, rfl⟩
    rw [if_neg hkind]
    rcases habove : g.get? parent with - | above
    · exact .inl ⟨.inr (.inl rfl), _, rfl⟩
    rcases hkey : above.children.get? identity with - | id
    · refine .inr ⟨?_, .inr (.inr ⟨parent, kind, identity, path, siblings, above, hkind, habove,
        hkey, by simp only [hkey]; rfl⟩)⟩
      rintro (h | h | ⟨-, above', h, hne⟩)
      · exact hkind h
      · cases h
      · cases h
        exact hne hkey
    · by_cases hbundle : kind.isBundle
      · simp only [hkey, if_pos hbundle]
        exact .inl ⟨.inr (.inr ⟨hbundle, above, rfl, hkey ▸ Option.some_ne_none id⟩), _, rfl⟩
      · simp only [hkey, if_neg hbundle]
        refine .inr ⟨?_, .inl ⟨id, rfl⟩⟩
        rintro (h | h | ⟨h, -⟩)
        · exact hkind h
        · cases h
        · exact hbundle h

theorem exists_error_iff {g : AssetGraph} {x : Addition} :
    (∃ f, (g.add x).1 = .error f) ↔ g.Refuses x := by
  rcases g.add_cases x with ⟨hrefuses, f, hadd⟩ | ⟨hrefuses, hcases⟩
  · exact ⟨fun _ ↦ hrefuses, fun _ ↦ ⟨f, by rw [hadd]⟩⟩
  · refine ⟨fun ⟨f, hf⟩ ↦ ?_, fun h ↦ absurd h hrefuses⟩
    rcases hcases with ⟨id, hadd⟩ | ⟨_, _, _, -, hadd⟩ | ⟨_, _, _, _, _, _, -, -, -, hadd⟩ <;>
      rw [hadd] at hf <;> cases hf

theorem state_of_refuses {g : AssetGraph} {x : Addition} (h : g.Refuses x) : (g.add x).2 = g := by
  rcases g.add_cases x with ⟨-, f, hadd⟩ | ⟨hrefuses, -⟩
  · rw [hadd]
  · exact absurd h hrefuses

/-- A component that is there already is found. -/
theorem add_of_child {g : AssetGraph} {parent : AssetId} {above : Asset} {tag identity : String}
    {path : Path} {siblings : SiblingModules} {id : AssetId} (habove : g.get? parent = some above)
    (hkey : above.children.get? identity = some id) :
    g.add (.child parent (.component tag) identity path siblings) = (.ok id, g) := by
  simp only [add, Addition.outcome, addChild, habove, hkey]
  rfl

/-- What the empty graph has, and both ways of appending an asset keep, every graph has that is made
by additions. -/
theorem ofAdditions_induction {P : AssetGraph → Prop} (hempty : P .empty)
    (happ : ∀ g identity path siblings, P g → g.root = none → P (g.withApp identity path siblings))
    (hattach : ∀ g parent kind identity path siblings above, P g → kind ≠ .app →
      g.get? parent = some above → above.children.get? identity = none →
      P (g.attach parent kind identity path siblings)) (xs : List Addition) :
    P (ofAdditions xs) := by
  suffices ∀ g, P g → P (xs.foldl (fun g x ↦ (g.add x).2) g) from this _ hempty
  induction xs with
  | nil => exact fun _ hg ↦ hg
  | cons x xs ih =>
    intro g hg
    rw [List.foldl_cons]
    refine ih _ ?_
    rcases g.add_cases x with ⟨-, f, hadd⟩ |
        ⟨-, ⟨id, hadd⟩ | ⟨identity, path, siblings, hroot, hadd⟩ | ⟨parent, kind,
          identity, path, siblings, above, hkind, habove, hkey, hadd⟩⟩
    · rwa [hadd]
    · rwa [hadd]
    · rw [hadd]
      exact happ g identity path siblings hg hroot
    · rw [hadd]
      exact hattach g parent kind identity path siblings above hg hkind habove hkey

/-- Additions are among the ways in which graphs are built. -/
theorem built_ofAdditions (xs : List Addition) : (ofAdditions xs).Built := by
  refine ofAdditions_induction .empty ?_ ?_ xs
  · intro g identity path siblings hg hroot
    exact hg.addApp (addApp_eq_withApp hroot)
  · intro g parent kind identity path siblings above hg hkind habove hkey
    exact hg.addChild (addChild_eq_attach hkind habove hkey)

/-! ### Trees -/

/-- The assets whose parent has a number: their identities and numbers, in the order in which they
were added. -/
def entriesUnder (g : AssetGraph) (id : AssetId) : List (String × AssetId) :=
  (List.range g.size).filterMap fun c ↦
    ((g.get? c).filter fun b ↦ b.parent = some id).map fun b ↦ (b.identity, c)

/-- Numbers, root, parents and children of the assets say the same, and say that the graph is empty
or a tree below its app. -/
structure IsTree (g : AssetGraph) : Prop where
  id_eq : ∀ {i a}, g.get? i = some a → a.id = i
  root_eq : g.root = if g.size = 0 then none else some 0
  app_iff : ∀ {i a}, g.get? i = some a → (a.kind = .app ↔ i = 0)
  parent_none_iff : ∀ {i a}, g.get? i = some a → (a.parent = none ↔ i = 0)
  parent_lt : ∀ {i p a}, g.get? i = some a → a.parent = some p → p < i
  /-- Children are the assets under this one, each once, by their identities, oldest first. -/
  children : ∀ {i a}, g.get? i = some a → a.children.entries = g.entriesUnder i

theorem exists_get?_of_lt {g : AssetGraph} {i : AssetId} (h : i < g.size) :
    ∃ a, g.get? i = some a :=
  ⟨_, List.getElem?_eq_getElem h⟩

/-- One asset is listed among the children of another. -/
def IsChild (g : AssetGraph) (p c : AssetId) : Prop :=
  ∃ a, g.get? p = some a ∧ c ∈ a.children.values

theorem mem_entriesUnder_iff {g : AssetGraph} {p c : AssetId} {identity : String} :
    (identity, c) ∈ g.entriesUnder p ↔
      ∃ b, g.get? c = some b ∧ b.parent = some p ∧ b.identity = identity := by
  rw [entriesUnder, List.mem_filterMap]
  constructor
  · rintro ⟨c', -, hentry⟩
    obtain ⟨b, hb, hpair⟩ := Option.map_eq_some_iff.1 hentry
    obtain ⟨hget, hp⟩ := Option.filter_eq_some_iff.1 hb
    cases hpair
    exact ⟨b, hget, of_decide_eq_true hp, rfl⟩
  · rintro ⟨b, hb, hp, rfl⟩
    refine ⟨c, List.mem_range.2 (lt_size_of_get? hb), ?_⟩
    rw [hb, Option.filter_some, if_pos (decide_eq_true hp), Option.map_some]

namespace IsTree

variable {g : AssetGraph}

protected theorem empty : IsTree .empty where
  id_eq h := by simp [get?, AssetGraph.empty] at h
  root_eq := rfl
  app_iff h := by simp [get?, AssetGraph.empty] at h
  parent_none_iff h := by simp [get?, AssetGraph.empty] at h
  parent_lt h := by simp [get?, AssetGraph.empty] at h
  children h := by simp [get?, AssetGraph.empty] at h

/-- An app is only ever added to the empty graph. -/
theorem withApp (hg : g.IsTree) (hroot : g.root = none) (identity : String) (path : Path)
    (siblings : SiblingModules) : (g.withApp identity path siblings).IsTree := by
  have hsize : g.size = 0 := by
    by_contra hne
    rw [hg.root_eq, if_neg hne] at hroot
    cases hroot
  have hget : ∀ {i a}, (g.withApp identity path siblings).get? i = some a →
      i = 0 ∧ g.fresh .app identity path siblings none = a := by
    intro i a ha
    rcases get?_push_eq_some_iff.1 ha with ha | ⟨rfl, rfl⟩
    · exact absurd (lt_size_of_get? ha) (by omega)
    · exact ⟨hsize, rfl⟩
  have hnodes : (g.withApp identity path siblings).size = 1 := by
    show (g.nodes ++ [_]).length = 1
    rw [List.length_append, List.length_singleton]
    exact congrArg (· + 1) hsize
  refine ⟨fun ha ↦ ?_, ?_, fun ha ↦ ?_, fun ha ↦ ?_, fun ha hp ↦ ?_, fun ha ↦ ?_⟩
  · obtain ⟨rfl, rfl⟩ := hget ha
    exact hsize
  · rw [hnodes, if_neg Nat.one_ne_zero, AssetGraph.withApp, hsize]
  · obtain ⟨rfl, rfl⟩ := hget ha
    exact ⟨fun _ ↦ rfl, fun _ ↦ rfl⟩
  · obtain ⟨rfl, rfl⟩ := hget ha
    exact ⟨fun _ ↦ rfl, fun _ ↦ rfl⟩
  · obtain ⟨rfl, rfl⟩ := hget ha
    cases hp
  · obtain ⟨rfl, rfl⟩ := hget ha
    rw [entriesUnder, hnodes, List.range_one, List.filterMap_cons_none, List.filterMap_nil]
    · rfl
    · rw [ha]
      rfl

section attach

variable {parent : AssetId} {above : Asset} {kind : AssetKind} {identity : String} {path : Path}
  {siblings : SiblingModules}

/-- Only the parent gets one more entry. -/
theorem entriesUnder_attach (habove : g.get? parent = some above) (i : AssetId) :
    (g.attach parent kind identity path siblings).entriesUnder i =
      g.entriesUnder i ++ if parent = i then [(identity, g.size)] else [] := by
  have hlast : (g.attach parent kind identity path siblings).get? g.size =
      some (g.fresh kind identity path siblings (some parent)) :=
    (get?_attach_eq_some_iff habove).2 (Or.inr (Or.inr ⟨rfl, rfl⟩))
  rw [entriesUnder, size_attach, List.range_succ, List.filterMap_append, entriesUnder]
  congr 1
  · refine List.filterMap_congr fun c hc ↦ ?_
    obtain ⟨b, hb⟩ := exists_get?_of_lt (List.mem_range.1 hc)
    by_cases hcp : c = parent
    · subst hcp
      rw [habove, (get?_attach_eq_some_iff habove).2 (Or.inr (Or.inl ⟨rfl, rfl⟩))]
      simp only [Option.filter_some]
      split <;> rfl
    · rw [hb, (get?_attach_eq_some_iff habove).2 (Or.inl ⟨hb, hcp⟩)]
  · rw [List.filterMap_cons, hlast, Option.filter_some]
    by_cases hp : parent = i
    · rw [if_pos hp, if_pos (by simp [hp])]
      rfl
    · rw [if_neg hp, if_neg (by simp [hp])]
      rfl

/-- What is attached comes last among the children of its parent, and has none itself. -/
theorem attach (hg : g.IsTree) (hkind : kind ≠ .app) (habove : g.get? parent = some above)
    (hkey : above.children.get? identity = none) :
    (g.attach parent kind identity path siblings).IsTree := by
  have hlt := lt_size_of_get? habove
  have hne : g.size ≠ 0 := Nat.ne_of_gt (Nat.zero_lt_of_lt hlt)
  have hcases := @get?_attach_eq_some_iff g parent above kind identity path siblings habove
  refine ⟨fun ha ↦ ?_, ?_, fun ha ↦ ?_, fun ha ↦ ?_, fun ha hp ↦ ?_, fun ha ↦ ?_⟩
  · rcases hcases.1 ha with ⟨ha, -⟩ | ⟨rfl, rfl⟩ | ⟨rfl, rfl⟩
    · exact hg.id_eq ha
    · exact hg.id_eq (a := above) habove
    · rfl
  · rw [size_attach, if_neg (Nat.succ_ne_zero g.size)]
    exact hg.root_eq.trans (if_neg hne)
  · rcases hcases.1 ha with ⟨ha, -⟩ | ⟨rfl, rfl⟩ | ⟨rfl, rfl⟩
    · exact hg.app_iff ha
    · exact hg.app_iff (a := above) habove
    · exact ⟨fun h ↦ absurd h hkind, fun h ↦ absurd h hne⟩
  · rcases hcases.1 ha with ⟨ha, -⟩ | ⟨rfl, rfl⟩ | ⟨rfl, rfl⟩
    · exact hg.parent_none_iff ha
    · exact hg.parent_none_iff (a := above) habove
    · exact ⟨fun h ↦ (by cases h), fun h ↦ absurd h hne⟩
  · rcases hcases.1 ha with ⟨ha, -⟩ | ⟨rfl, rfl⟩ | ⟨rfl, rfl⟩
    · exact hg.parent_lt ha hp
    · exact hg.parent_lt (a := above) habove hp
    · cases hp
      exact hlt
  · rw [entriesUnder_attach habove]
    rcases hcases.1 ha with ⟨ha, hne⟩ | ⟨rfl, rfl⟩ | ⟨rfl, rfl⟩
    · rw [if_neg fun h ↦ hne h.symm, List.append_nil]
      exact hg.children ha
    · rw [if_pos rfl, ← hg.children habove]
      exact insertEntry_of_not_mem _ (OrderedMap.get?_eq_none_iff.1 hkey)
    · -- nobody can have named the new number as a parent
      rw [if_neg (Nat.ne_of_lt hlt), List.append_nil]
      refine (List.filterMap_eq_nil_iff.2 fun c hc ↦ ?_).symm
      obtain ⟨b, hb⟩ := exists_get?_of_lt (List.mem_range.1 hc)
      rw [hb, Option.filter_some, if_neg, Option.map_none]
      rw [decide_eq_true_iff]
      intro hp
      exact Nat.lt_asymm (hg.parent_lt hb hp) (lt_size_of_get? hb)

end attach

/-! ### Up and down the tree -/

/-- **One asset is a child of another exactly if that is its parent.** -/
theorem isChild_iff (hg : g.IsTree) {p c : AssetId} :
    g.IsChild p c ↔ ∃ b, g.get? c = some b ∧ b.parent = some p := by
  constructor
  · rintro ⟨a, ha, hc⟩
    rw [OrderedMap.values, hg.children ha, List.mem_map] at hc
    obtain ⟨⟨identity, c⟩, hentry, rfl⟩ := hc
    obtain ⟨b, hb, hp, -⟩ := mem_entriesUnder_iff.1 hentry
    exact ⟨b, hb, hp⟩
  · rintro ⟨b, hb, hp⟩
    obtain ⟨a, ha⟩ := exists_get?_of_lt (Nat.lt_trans (hg.parent_lt hb hp) (lt_size_of_get? hb))
    refine ⟨a, ha, ?_⟩
    rw [OrderedMap.values, hg.children ha]
    exact List.mem_map.2 ⟨(b.identity, c), mem_entriesUnder_iff.2 ⟨b, hb, hp, rfl⟩, rfl⟩

/-- **Every asset can be reached from the app.** -/
theorem reflTransGen_isChild (hg : g.IsTree) {c : AssetId} (hc : c < g.size) :
    Relation.ReflTransGen g.IsChild 0 c := by
  -- numbers shrink on the way up
  induction c using Nat.strongRecOn with
  | _ c ih =>
    obtain ⟨b, hb⟩ := exists_get?_of_lt hc
    rcases hparent : b.parent with - | p
    · rw [(hg.parent_none_iff hb).1 hparent]
    · have hlt := hg.parent_lt hb hparent
      exact (ih p hlt (Nat.lt_trans hlt hc)).tail (hg.isChild_iff.2 ⟨b, hb, hparent⟩)

end IsTree

theorem isTree_ofAdditions (xs : List Addition) : (ofAdditions xs).IsTree :=
  ofAdditions_induction .empty
    (fun _ identity path siblings hg hroot ↦ hg.withApp hroot identity path siblings)
    (fun _ _ _ _ _ _ _ hg hkind habove hkey ↦ hg.attach hkind habove hkey) xs

/-- **Additions make trees.** At every point numbers, root, parents and children agree, children are
the assets under an asset, all assets are reached from the app, and a request that is refused or
finds its component there leaves the graph as it is. -/
theorem additions_form_tree (xs : List Addition) :
    (ofAdditions xs).IsTree ∧
    (∀ p c, (ofAdditions xs).IsChild p c ↔
      ∃ b, (ofAdditions xs).get? c = some b ∧ b.parent = some p) ∧
    (∀ c, c < (ofAdditions xs).size → Relation.ReflTransGen (ofAdditions xs).IsChild 0 c) ∧
    (∀ x, ((∃ f, ((ofAdditions xs).add x).1 = .error f) ↔ (ofAdditions xs).Refuses x) ∧
      ((ofAdditions xs).Refuses x → ((ofAdditions xs).add x).2 = ofAdditions xs)) ∧
    ∀ parent above tag identity path siblings id, (ofAdditions xs).get? parent = some above →
      above.children.get? identity = some id →
        (ofAdditions xs).add (.child parent (.component tag) identity path siblings) =
          (.ok id, ofAdditions xs) := by
  have htree := isTree_ofAdditions xs
  refine ⟨htree, fun p c ↦ htree.isChild_iff, fun c hc ↦ htree.reflTransGen_isChild hc,
    fun x ↦ ⟨exists_error_iff, state_of_refuses⟩, ?_⟩
  intro parent above tag identity path siblings id habove hkey
  exact add_of_child habove hkey

/-- A shelf that holds a card, which it asks for again under another tag, and a button after it; the
second app is refused. -/
def shelfRequests : List Addition :=
  [.app "shop" ⟨"shop"⟩ .empty, .child 0 (.page "/") "shelf" ⟨"shelf"⟩ .empty,
   .child 1 (.component "card") "card" ⟨"card"⟩ .empty,
   .child 2 (.component "button") "button" ⟨"button"⟩ .empty,
   .child 1 (.component "tile") "card" ⟨"card"⟩ .empty, .app "shop" ⟨"shop"⟩ .empty,
   .child 1 (.component "button") "button" ⟨"button"⟩ .empty]

theorem additions_form_tree_shelf :
    (∃ shelf, (ofAdditions shelfRequests).get? 1 = some shelf ∧
      shelf.children.entries = [("card", 2), ("button", 4)] ∧
      (ofAdditions shelfRequests).add (.child 1 (.component "tile") "card" ⟨"card"⟩ .empty) =
        (.ok 2, ofAdditions shelfRequests)) ∧
      Relation.ReflTransGen (ofAdditions shelfRequests).IsChild 0 3 ∧
      ((ofAdditions shelfRequests).add (.app "shop" ⟨"shop"⟩ .empty)).2 =
        ofAdditions shelfRequests := by
  obtain ⟨htree, -, hreaches, hrefused, hfound⟩ := additions_form_tree shelfRequests
  obtain ⟨shelf, hshelf⟩ : ∃ shelf, (ofAdditions shelfRequests).get? 1 = some shelf :=
    exists_get?_of_lt (by decide)
  have hentries : shelf.children.entries = [("card", 2), ("button", 4)] :=
    (htree.children hshelf).trans (by decide)
  refine ⟨⟨shelf, hshelf, hentries, hfound 1 shelf "tile" "card" ⟨"card"⟩ .empty 2 hshelf ?_⟩,
    hreaches 3 (by decide), (hrefused _).2 (Option.some_ne_none 0)⟩
  rw [OrderedMap.get?, hentries]
  rfl

end AppletBundle.AssetGraph
