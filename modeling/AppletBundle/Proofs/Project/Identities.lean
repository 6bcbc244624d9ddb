import AppletBundle.Proofs.Project.Replicas
import Mathlib.Data.Set.Function

/-!
# Names that are derived from paths

A path has a key, and from that come the name that holds a script's default export and the identity
of a page or component. Keys tell paths apart, up to spellings of the same components, and what is
derived from them does if the digest tells the keys apart that occur: then names are equal exactly
where paths are (`derived_names_eq_iff`). For identities this holds of all that a project declares,
whether it can be loaded or not, and of any two pages or components of a loaded graph, below one
parent or not.
-/

namespace AppletBundle

open AppletBundle.Script

theorem Path.same_iff {p q : Path} : p.same q ↔ p.components = q.components :=
  decide_eq_true_iff

theorem contentIdentity_projectKey_eq_iff {p q : Path} {keys : Set String}
    (hinj : Set.InjOn contentIdentity keys) (hp : Path.projectKey ⟨""⟩ p ∈ keys)
    (hq : Path.projectKey ⟨""⟩ q ∈ keys) :
    contentIdentity (Path.projectKey ⟨""⟩ p) = contentIdentity (Path.projectKey ⟨""⟩ q) ↔
      p.same q := by
  rw [hinj.eq_iff hp hq, Path.projectKey_eq_iff, Path.same_iff]

/-- **Default exports of different scripts are held by different names.** -/
theorem Script.ScriptModule.defaultBinding_eq_iff {m n : ScriptModule}
    (hinj : Set.InjOn contentIdentity {Path.projectKey ⟨""⟩ m.path, Path.projectKey ⟨""⟩ n.path}) :
    m.defaultBinding = n.defaultBinding ↔ m.path.same n.path := by
  rw [defaultBinding, defaultBinding, String.append_right_inj]
  exact contentIdentity_projectKey_eq_iff hinj (.inl rfl) (.inr rfl)

namespace Project

open AssetGraph

variable {p : Project}

theorem Reaches.identity_eq_iff (hinj : Set.InjOn contentIdentity p.keys) {base base' : Path}
    (h : p.Reaches base) (h' : p.Reaches base') :
    contentIdentity (keyOf base) = contentIdentity (keyOf base') ↔ base.same base' :=
  contentIdentity_projectKey_eq_iff hinj ⟨base, h, rfl⟩ ⟨base', h', rfl⟩

/-- **Pages and components share an identity exactly if they share their base.** -/
theorem identity_eq_iff_of_load (hinj : Set.InjOn contentIdentity p.keys) {g : AssetGraph}
    (h : p.load = .ok g) {i j : AssetId} {a b : Asset} (ha : g.get? i = some a)
    (hb : g.get? j = some b) (hka : a.kind ≠ .app) (hkb : b.kind ≠ .app) :
    a.identity = b.identity ↔ a.path.same b.path := by
  have hne : ∀ {id : AssetId} {c : Asset}, g.get? id = some c → c.kind ≠ .app → id ≠ 0 := by
    rintro _ c hc hkc rfl
    obtain ⟨-, app, -, happ, hmakes, -⟩ := (loaded_of_load hinj h).app
    obtain rfl := Option.some.inj (happ.symm.trans hc)
    exact hkc hmakes.kind
  obtain ⟨d, hd, hreach⟩ := exists_makes_of_load hinj h (hne ha hka) ha
  obtain ⟨e, he, hreach'⟩ := exists_makes_of_load hinj h (hne hb hkb) hb
  rw [hd.identity, he.identity, hd.path, he.path]
  exact hreach.identity_eq_iff hinj hreach'

/-- **Derived names are equal exactly where paths are.** -/
theorem derived_names_eq_iff :
    (∀ p q : Path, Path.projectKey ⟨""⟩ p = Path.projectKey ⟨""⟩ q ↔ p.same q) ∧
    (∀ m n : ScriptModule,
      Set.InjOn contentIdentity {Path.projectKey ⟨""⟩ m.path, Path.projectKey ⟨""⟩ n.path} →
      (m.defaultBinding = n.defaultBinding ↔ m.path.same n.path)) ∧
    ∀ p : Project, Set.InjOn contentIdentity p.keys →
      (∀ base base', p.Reaches base → p.Reaches base' →
        (contentIdentity (keyOf base) = contentIdentity (keyOf base') ↔ base.same base')) ∧
      ∀ g, p.load = .ok g → ∀ i j a b, g.get? i = some a → g.get? j = some b →
        a.kind ≠ .app → b.kind ≠ .app → (a.identity = b.identity ↔ a.path.same b.path) := by
  refine ⟨fun p q ↦ ?_, fun m n hinj ↦ ScriptModule.defaultBinding_eq_iff hinj,
    fun p hinj ↦ ⟨fun base base' h h' ↦ h.identity_eq_iff hinj h',
      fun g h i j a b ha hb hka hkb ↦ identity_eq_iff_of_load hinj h ha hb hka hkb⟩⟩
  rw [Path.projectKey_eq_iff, Path.same_iff]

theorem reaches_boxedCard : boxedCard.Reaches (pageBase "shelf") ∧ boxedCard.Reaches ⟨"card"⟩ := by
  have hpages : boxedCard.appManifest.map AppManifest.pages = .ok ["shelf"] := by decide +kernel
  have hentries : (boxedCard.unitManifest (pageBase "shelf")).map
      (fun m ↦ m.usingComponents.entries) = .ok [("box", "box"), ("card", "card")] := by
    decide +kernel
  obtain ⟨m, hm, hpages⟩ := Outcome.map_eq_ok.1 hpages
  obtain ⟨u, hu, hentries⟩ := Outcome.map_eq_ok.1 hentries
  have hshelf : boxedCard.Reaches (pageBase "shelf") :=
    .page hm (by rw [hpages]; exact List.mem_cons_self)
  have hcard : ("card", "card") ∈ u.usingComponents.entries := by
    rw [hentries]
    decide
  exact ⟨hshelf, .component hshelf hu hcard (by decide +kernel)⟩

/-- The card in the box is the card of the shelf, and the box is not. -/
theorem derived_names_eq_iff_boxedCard :
    let script := fun path ↦ ScriptModule.empty ⟨path⟩ "export default 1;"
    (script "card/index.js").defaultBinding = (script "card/.//index.js").defaultBinding ∧
    (script "card/index.js").defaultBinding ≠ (script "./card/index.js").defaultBinding ∧
    Set.InjOn contentIdentity boxedCard.keys ∧
    contentIdentity (keyOf (pageBase "shelf")) ≠ contentIdentity (keyOf ⟨"card"⟩) ∧
    ∃ g box lid card, boxedCard.load = .ok g ∧ g.get? 2 = some box ∧ g.get? 3 = some lid ∧
      g.get? 4 = some card ∧ lid.identity = card.identity ∧ box.identity ≠ card.identity := by
  intro script
  obtain ⟨-, hscripts, hprojects⟩ := derived_names_eq_iff
  obtain ⟨hbases, hgraphs⟩ := hprojects boxedCard injOn_boxedCard
  have hassets : (boxedCard.load.map fun g ↦ [2, 3, 4].map fun id ↦
      (g.get? id).map fun a ↦ (a.kind, a.path)) =
      .ok [some (.component "box", ⟨"box"⟩), some (.component "lid", ⟨"card"⟩),
        some (.component "card", ⟨"card"⟩)] := by decide +kernel
  obtain ⟨g, hload, hassets⟩ := Outcome.map_eq_ok.1 hassets
  simp only [List.map_cons, List.map_nil, List.cons.injEq, Option.map_eq_some_iff, Prod.mk.injEq,
    and_true] at hassets
  obtain ⟨⟨box, hbox, hkbox, hpbox⟩, ⟨lid, hlid, hklid, hplid⟩, card, hcard, hkcard, hpcard⟩ :=
    hassets
  have hgraph := hgraphs g hload
  refine ⟨?_, ?_, injOn_boxedCard, ?_, g, box, lid, card, hload, hbox, hlid, hcard, ?_, ?_⟩
  · refine (hscripts _ _ ?_).2 (by decide +kernel)
    have hkey : Path.projectKey ⟨""⟩ (script "card/.//index.js").path =
        Path.projectKey ⟨""⟩ (script "card/index.js").path := by decide +kernel
    rw [hkey, Set.pair_eq_singleton]
    exact Set.injOn_singleton _ _
  · rw [Ne, hscripts _ _ (Set.injOn_pair.2 fun h ↦ absurd h (by decide +kernel))]
    decide +kernel
  · rw [Ne, hbases _ _ reaches_boxedCard.1 reaches_boxedCard.2]
    decide +kernel
  · rw [hgraph 3 4 lid card hlid hcard (by simp [hklid]) (by simp [hkcard]), hplid, hpcard]
    decide +kernel
  · rw [Ne, hgraph 2 4 box card hbox hcard (by simp [hkbox]) (by simp [hkcard]), hpbox, hpcard]
    decide +kernel

end Project

end AppletBundle
