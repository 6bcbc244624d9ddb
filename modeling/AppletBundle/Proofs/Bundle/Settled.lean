import AppletBundle.Proofs.Bundle.Lockstep
import Mathlib.Data.List.Nodup

/-!
# Settled assets

The first selection that succeeds is recorded on a script module, so an asset that has been packaged
with one configuration is packaged the same with every other (`Packagers.repeats_ofConfig`). A walk
that succeeds leaves every asset of its tree settled in this way, the replicas included from which a
page takes nothing: the modules it leaves are those that packaging the assets one by one leaves
(`settles_packageTree`).
-/

namespace AppletBundle

open AssetTree Script

/-! ### Scripts -/

/-- What was selected first is selected from then on. -/
theorem Script.ScriptModule.selectRecorded_again {m m' : ScriptModule} {s : Selection}
    {options : SelectOptions} (h : m.selectRecorded options = .ok (s, m'))
    (options' : SelectOptions) : m'.selectRecorded options' = .ok (s, m') := by
  rw [selectRecorded] at h
  rcases hselected : m.selected with - | s'
  · simp only [hselected] at h
    obtain ⟨s', -, heq⟩ := Outcome.map_eq_ok.1 h
    obtain ⟨rfl, rfl⟩ := Prod.mk.inj heq
    rw [selectRecorded, recordSelection, hselected, Option.getD_none]
  · simp only [hselected] at h
    obtain ⟨rfl, rfl⟩ := Prod.mk.inj (Except.ok.inj h)
    rw [selectRecorded, hselected]

/-! ### Work that is done -/

namespace Work

variable {α β : Type}

theorem modules_andThen {w : Work α} {a : α} (h : w.result = .ok a) (next : α → Work β) :
    (w.andThen next).modules = w.modules ++ (next a).modules := by
  simp only [andThen, h]

theorem modules_all (ws : List (Work α)) : (all ws).modules = ws.flatMap Work.modules := by
  induction ws with
  | nil => rfl
  | cons w ws ih =>
    show w.modules ++ (all ws).modules = _
    rw [ih, List.flatMap_cons]

end Work

namespace Packagers

/-- A script that has been packaged is packaged the same from then on. -/
theorem packageScript_again {options : SelectOptions} {a : Asset} {m m' : ScriptModule}
    {s : PackagedScript} (h : packageScript options a m = (.ok s, m')) (options' : SelectOptions)
    (b : Asset) : packageScript options' b m' = (.ok s, m') := by
  rw [packageScript] at h
  rcases hselect : m.selectRecorded options with f | ⟨selection, n⟩
  · rw [hselect] at h
    cases h
  · simp only [hselect] at h
    rcases hcode : n.assemble? selection.statements with - | code
    · simp only [hcode] at h
      cases h
    · simp only [hcode] at h
      obtain ⟨hs, rfl⟩ := Prod.mk.inj h
      obtain rfl := Except.ok.inj hs
      rw [packageScript, ScriptModule.selectRecorded_again hselect]
      simp only [hcode]

/-- The asset with what packaging leaves of its script module. -/
def settled (p : Packagers) (a : Asset) : Asset :=
  { a with siblings :=
      { a.siblings with script := a.siblings.script.map fun m ↦ (p.script a m).2 } }

/-- **An asset whose script was packaged is packaged the same from then on**, whatever the
configuration says. -/
theorem repeats_ofConfig {c : Config} {a b : Asset} {s : PackagedScript}
    (h : ((ofConfig c).scriptPart a).result = .ok s) (c' : Config) (hid : b.id = a.id)
    (hkind : b.kind = a.kind) (hidentity : b.identity = a.identity) (hpath : b.path = a.path)
    (hsiblings : b.siblings = ((ofConfig c).settled a).siblings) :
    (ofConfig c).Repeats (ofConfig c') a b := by
  have hdescribe : b.describe = a.describe := by
    rw [Asset.describe, Asset.describe, hkind, hidentity, hpath]
  have hstyle : b.siblings.style = a.siblings.style := hsiblings ▸ rfl
  have hmarkup : b.siblings.markup = a.siblings.markup := hsiblings ▸ rfl
  have hscript : b.siblings.script =
      a.siblings.script.map fun m ↦ ((ofConfig c).script a m).2 := hsiblings ▸ rfl
  refine ⟨hid, hkind, hidentity, hstyle, ?_, ?_, ?_⟩
  · rw [scriptPart] at h
    rw [scriptPart, scriptPart, hscript, hdescribe, hid]
    rcases hm : a.siblings.script with - | m
    · rfl
    · rw [hm] at h
      change Outcome.inStep _ ((ofConfig c).script a m).1 = .ok s at h
      rcases hfirst : (ofConfig c).script a m with ⟨f | s', m'⟩
      · rw [hfirst] at h
        cases h
      · have hagain : (ofConfig c').script b m' = (.ok s', m') := packageScript_again hfirst _ b
        simp only [Option.map_some, hfirst, hagain]
  · have hregistration : registration b = registration a := by
      funext compiled
      rw [registration, registration, hkind, hidentity]
    rw [markupPart, markupPart, hmarkup, hdescribe, hregistration]
    rfl
  · rw [stylePart, stylePart, hstyle, hdescribe]
    rcases a.siblings.style with - | m
    · rfl
    · have hcss : (ofConfig c').style b m = (ofConfig c).style a m := by
        show packageStyle b m = packageStyle a m
        rw [packageStyle, packageStyle, hidentity]
      simp only [hcss]

/-! ### Modules that work leaves -/

variable {p : Packagers}

/-- The scripts of the assets are packaged, and `modules` lists what is left of their modules. -/
structure Settles (p : Packagers) (as : List Asset) (modules : List (AssetId × ScriptModule)) :
    Prop where
  scripts : ∀ a ∈ as, ∃ s, (p.scriptPart a).result = .ok s
  modules : modules.Perm (as.flatMap fun a ↦ (p.scriptPart a).modules)

theorem mem_modules_scriptPart {a : Asset} {x : AssetId × ScriptModule} :
    x ∈ (p.scriptPart a).modules ↔
      ∃ m, a.siblings.script = some m ∧ x = (a.id, (p.script a m).2) := by
  rw [scriptPart]
  rcases a.siblings.script with - | m
  · exact ⟨fun h ↦ absurd h List.not_mem_nil, fun ⟨m, hm, _⟩ ↦ absurd hm (by nofun)⟩
  · show x ∈ [(a.id, (p.script a m).2)] ↔ _
    rw [List.mem_singleton]
    exact ⟨fun h ↦ ⟨m, rfl, h⟩, fun ⟨n, hn, h⟩ ↦ Option.some.inj hn ▸ h⟩

namespace Settles

variable {as bs : List Asset} {xs ys : List (AssetId × ScriptModule)}

theorem append (h : p.Settles as xs) (h' : p.Settles bs ys) : p.Settles (as ++ bs) (xs ++ ys) where
  scripts a ha := (List.mem_append.1 ha).elim (h.scripts a) (h'.scripts a)
  modules := by
    rw [List.flatMap_append]
    exact h.modules.append h'.modules

theorem swap (h : p.Settles as (xs ++ ys)) : p.Settles as (ys ++ xs) :=
  ⟨h.scripts, List.perm_append_comm.trans h.modules⟩

theorem of_scriptPart {a : Asset} {s : PackagedScript} (h : (p.scriptPart a).result = .ok s) :
    p.Settles [a] (p.scriptPart a).modules where
  scripts b hb := ⟨s, List.mem_singleton.1 hb ▸ h⟩
  modules := by rw [List.flatMap_singleton]

theorem of_packageOwn {a : Asset} {own : PackagedAsset} (h : (p.packageOwn a).result = .ok own) :
    p.Settles [a] (p.packageOwn a).modules := by
  obtain ⟨markup, script, style, hmarkup, hscript, -⟩ := packageOwn_eq_ok h
  have hmodules : (p.packageOwn a).modules = (p.scriptPart a).modules := by
    rw [packageOwn, Work.modules_andThen hmarkup, Work.modules_andThen hscript, List.nil_append,
      List.append_nil]
  exact hmodules ▸ of_scriptPart hscript

/-- What is listed for an asset is what is left of its module. -/
theorem mem_iff (h : p.Settles as xs) (hids : (as.map Asset.id).Nodup) {a : Asset} (ha : a ∈ as)
    {m' : ScriptModule} :
    (a.id, m') ∈ xs ↔ ∃ m, a.siblings.script = some m ∧ m' = (p.script a m).2 := by
  rw [h.modules.mem_iff, List.mem_flatMap]
  constructor
  · rintro ⟨b, hb, hmem⟩
    obtain ⟨m, hm, heq⟩ := mem_modules_scriptPart.1 hmem
    obtain ⟨hid, rfl⟩ := Prod.mk.inj heq
    obtain rfl := List.inj_on_of_nodup_map hids ha hb hid
    exact ⟨m, hm, rfl⟩
  · rintro ⟨m, hm, rfl⟩
    exact ⟨a, ha, mem_modules_scriptPart.2 ⟨m, hm, rfl⟩⟩

theorem nodup (h : p.Settles as xs) (hids : (as.map Asset.id).Nodup) :
    (xs.map Prod.fst).Nodup := by
  have hsub : ∀ bs : List Asset,
      ((bs.flatMap fun a ↦ (p.scriptPart a).modules).map Prod.fst).Sublist
      (bs.map Asset.id) := by
    intro bs
    induction bs with
    | nil => exact .slnil
    | cons b bs ih =>
      rw [List.flatMap_cons, List.map_append, List.map_cons, scriptPart]
      rcases b.siblings.script with - | m
      · exact ih.cons _
      · exact ih.cons_cons _
  exact ((h.modules.map Prod.fst).nodup_iff).2 ((hsub as).nodup hids)

end Settles

mutual

/-- **Packaging a component settles it and all below it.** -/
theorem settles_packageComponent {t : AssetTree} {sub : Subtree}
    (h : (p.packageComponent t).result = .ok sub) :
    p.Settles t.postOrder (p.packageComponent t).modules := by
  obtain ⟨a, ts⟩ := t
  rw [packageComponent] at h ⊢
  cases hk : a.kind with
  | component tag =>
    simp only [hk] at h ⊢
    rw [Work.result_andThen, Outcome.bind_eq_ok] at h
    obtain ⟨own, hown, h⟩ := h
    rw [Work.result_andThen, Outcome.bind_eq_ok] at h
    obtain ⟨below, hbelow, -⟩ := h
    have hts := settles_packageComponents (Work.result_all_eq_ok.1 hbelow)
    rw [Work.modules_andThen hown, Work.andThen_done, postOrder]
    show p.Settles _ (_ ++ (Work.all (p.packageComponents ts)).modules)
    rw [Work.modules_all]
    exact (hts.append (.of_packageOwn hown)).swap
  | app =>
    simp only [hk] at h
    cases h
  | page route =>
    simp only [hk] at h
    cases h

/-- The same for components next to each other. -/
theorem settles_packageComponents {ts : List AssetTree} {subs : List Subtree}
    (h : List.Forall₂ (fun w x ↦ w.result = .ok x) (p.packageComponents ts) subs) :
    p.Settles (postOrderAll ts) ((p.packageComponents ts).flatMap Work.modules) := by
  match ts with
  | [] => exact ⟨fun _ ha ↦ absurd ha List.not_mem_nil, .refl _⟩
  | t :: ts =>
    rw [packageComponents] at h ⊢
    cases h with
    | cons ht hts =>
      rw [List.flatMap_cons, postOrderAll]
      exact (settles_packageComponent ht).append (settles_packageComponents hts)

end

theorem settles_packagePage {t : AssetTree} {bundle : PageBundle}
    (h : (p.packagePage t).result = .ok bundle) :
    p.Settles t.postOrder (p.packagePage t).modules := by
  obtain ⟨a, ts⟩ := t
  rw [packagePage] at h ⊢
  cases hk : a.kind with
  | page route =>
    simp only [hk] at h ⊢
    rw [Work.result_andThen, Outcome.bind_eq_ok] at h
    obtain ⟨below, hbelow, h⟩ := h
    rw [Work.result_andThen, Outcome.bind_eq_ok] at h
    obtain ⟨own, hown, -⟩ := h
    have hts := settles_packageComponents (Work.result_all_eq_ok.1 hbelow)
    rw [Work.modules_andThen hbelow, Work.andThen_done, postOrder, Work.modules_all]
    exact hts.append (.of_packageOwn hown)
  | app =>
    simp only [hk] at h
    cases h
  | component tag =>
    simp only [hk] at h
    cases h

theorem settles_packageApp {app : Asset} {own : PackagedAsset}
    (h : (p.packageApp app).result = .ok own) : p.Settles [app] (p.packageApp app).modules := by
  rw [packageApp, Work.result_andThen, Outcome.bind_eq_ok] at h
  obtain ⟨script, hscript, -⟩ := h
  rw [packageApp, Work.andThen_done]
  exact .of_scriptPart hscript

end Packagers

open Packagers

section walk

variable {σ : Type} {p : Packagers} {w : Writer σ} {outDir : Path}

theorem settles_packagePages {pages : List AssetTree} {s : σ}
    {bundles : List (PageBundle × ManifestEntry)}
    (h : (packagePages p w outDir pages s).result = .ok bundles) :
    p.Settles (postOrderAll pages) (packagePages p w outDir pages s).modules := by
  induction pages generalizing s bundles with
  | nil => exact ⟨fun _ ha ↦ absurd ha List.not_mem_nil, .refl _⟩
  | cons t pages ih =>
    rw [packagePages_cons] at h ⊢
    obtain ⟨x, hx, h⟩ := Outcome.bind_eq_ok.1 h
    obtain ⟨xs, hxs, -⟩ := Outcome.bind_eq_ok.1 h
    obtain ⟨bundle, hbundle⟩ : ∃ bundle, (p.packagePage t).result = .ok bundle := by
      rw [finishPage] at hx
      rcases hpage : (p.packagePage t).result with f | bundle
      · rw [hpage] at hx
        cases hx
      · exact ⟨bundle, rfl⟩
    exact (settles_packagePage hbundle).append (ih hxs)

/-- **A walk that succeeds settles every asset of the tree.** -/
theorem settles_packageTree {app : Asset} {pages : List AssetTree} {s : σ}
    {x : List PackagedAsset × List BundleRecord}
    (h : (packageTree p w outDir app pages s).result = .ok x) :
    p.Settles (postOrderAll pages ++ [app]) (packageTree p w outDir app pages s).modules := by
  rw [packageTree] at h ⊢
  rcases hwalk : (packagePages p w outDir pages s).result with f | bundles
  · simp only [hwalk] at h
    cases h
  rcases hown : (p.packageApp app).result with f | own
  · simp only [hwalk, hown] at h
    cases h
  simp only [hown]
  exact (settles_packagePages hwalk).append (settles_packageApp hown)

end walk

end AppletBundle
