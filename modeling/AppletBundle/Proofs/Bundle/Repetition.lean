import AppletBundle.Proofs.Bundle.Context
import AppletBundle.Proofs.Bundle.Settled
import AppletBundle.Proofs.Bundle.Success

/-!
# Packaging twice

A graph that has been packaged can be packaged again with another configuration and another writer.
`AssetGraph.package_repeats` says that nothing comes of it: the files are the same, and the outputs,
the imports and the record of the build stay as they are.

The first run leaves a graph whose assets are packaged the same from then on (`repeats_of_settles`),
so the second run is a walk in lockstep with the first (`packageTree_follow`). What it puts into the
graph and into the record is there already: the changes to a graph are made at different assets
(`packaged_again`), and bundles that are taken down again change nothing
(`BuildContext.recordAll_recordAll`).
-/

namespace AppletBundle

open AssetTree Script Packagers

/-! ### Graphs that have been packaged -/

namespace AssetGraph

section changes

variable {α : Type} {key : α → AssetId} {f : α → Asset → Asset} {g : AssetGraph} {xs : List α}

/-- Changes keep what each of them keeps. -/
theorem map_get?_foldl_modify {β : Type} {part : Asset → β} (hpart : ∀ x a, part (f x a) = part a)
    (id : AssetId) :
    ((xs.foldl (fun g x ↦ g.modify (key x) (f x)) g).get? id).map part = (g.get? id).map part := by
  induction xs generalizing g with
  | nil => rfl
  | cons x xs ih =>
    rw [List.foldl_cons, ih, get?_modify, Option.map_map]
    refine congrArg (fun f ↦ (g.get? id).map f) (funext fun a ↦ ?_)
    rw [Function.comp_apply]
    split
    · exact hpart x a
    · rfl

theorem get?_foldl_modify_of_not_mem {id : AssetId} (h : id ∉ xs.map key) :
    (xs.foldl (fun g x ↦ g.modify (key x) (f x)) g).get? id = g.get? id := by
  induction xs generalizing g with
  | nil => rfl
  | cons x xs ih =>
    rw [List.map_cons, List.mem_cons, not_or] at h
    have hne : key x ≠ id := fun heq ↦ h.1 heq.symm
    rw [List.foldl_cons, ih h.2, get?_modify]
    simp only [if_neg hne, Option.map_id']

/-- A change that is the only one of its asset is what becomes of it. -/
theorem get?_foldl_modify_of_mem (hnodup : (xs.map key).Nodup) {x : α} (hx : x ∈ xs) :
    (xs.foldl (fun g x ↦ g.modify (key x) (f x)) g).get? (key x) = (g.get? (key x)).map (f x) := by
  induction xs generalizing g with
  | nil => exact absurd hx List.not_mem_nil
  | cons y xs ih =>
    rw [List.map_cons, List.nodup_cons] at hnodup
    rw [List.foldl_cons]
    rcases List.mem_cons.1 hx with rfl | hx
    · rw [get?_foldl_modify_of_not_mem hnodup.1, get?_modify]
      simp only [if_pos]
    · have hne : key y ≠ key x := fun heq ↦ hnodup.1 (heq ▸ List.mem_map_of_mem hx)
      rw [ih hnodup.2 hx, get?_modify]
      simp only [if_neg hne, Option.map_id']

/-- A graph is known by its root and its assets. -/
theorem ext_get? {g g' : AssetGraph} (hroot : g.root = g'.root) (h : ∀ id, g.get? id = g'.get? id) :
    g = g' := by
  obtain ⟨nodes, root⟩ := g
  obtain ⟨nodes', root'⟩ := g'
  obtain rfl : root = root' := hroot
  obtain rfl : nodes = nodes' := List.ext_getElem? h
  rfl

theorem modify_eq_self {id : AssetId} {f : Asset → Asset}
    (h : ∀ a, g.get? id = some a → f a = a) : g.modify id f = g := by
  refine ext_get? rfl fun i ↦ ?_
  rw [get?_modify]
  rcases ha : g.get? i with - | a
  · rfl
  · by_cases hi : id = i
    · rw [Option.map_some, if_pos hi, h a (hi ▸ ha)]
    · rw [Option.map_some, if_neg hi]

theorem foldl_modify_eq_self (h : ∀ x ∈ xs, ∀ a, g.get? (key x) = some a → f x a = a) :
    xs.foldl (fun g x ↦ g.modify (key x) (f x)) g = g := by
  induction xs with
  | nil => rfl
  | cons x xs ih =>
    rw [List.foldl_cons, modify_eq_self (h x List.mem_cons_self)]
    exact ih fun y hy ↦ h y (List.mem_cons_of_mem _ hy)

/-- **Changes that have been made are not made again.** -/
theorem foldl_modify_again (hnodup : (xs.map key).Nodup) (hf : ∀ x a, f x (f x a) = f x a) :
    xs.foldl (fun g x ↦ g.modify (key x) (f x)) (xs.foldl (fun g x ↦ g.modify (key x) (f x)) g) =
      xs.foldl (fun g x ↦ g.modify (key x) (f x)) g := by
  refine foldl_modify_eq_self fun x hx a ha ↦ ?_
  rw [get?_foldl_modify_of_mem hnodup hx] at ha
  obtain ⟨b, -, rfl⟩ := Option.map_eq_some_iff.1 ha
  exact hf x b

theorem root_foldl_modify (key : α → AssetId) (f : α → Asset → Asset) (g : AssetGraph)
    (xs : List α) : (xs.foldl (fun g x ↦ g.modify (key x) (f x)) g).root = g.root := by
  induction xs generalizing g with
  | nil => rfl
  | cons x xs ih => exact ih _

theorem Built.foldl_modify (hg : g.Built)
    (hf : ∀ x a, (f x a).id = a.id ∧ (f x a).children = a.children ∧ (f x a).parent = a.parent) :
    (xs.foldl (fun g x ↦ g.modify (key x) (f x)) g).Built := by
  induction xs generalizing g with
  | nil => exact hg
  | cons x xs ih => exact ih (hg.modify (key x) (hf x))

end changes

variable {g g' : AssetGraph} {modules : List (AssetId × ScriptModule)}
  {assets : List PackagedAsset}

/-- An asset without what packaging changes. -/
def outline (a : Asset) : Asset :=
  { a with
    siblings := { a.siblings with script := none }
    output := .empty
    dependencies := .empty }

theorem map_outline_packaged (g : AssetGraph) (modules : List (AssetId × ScriptModule))
    (assets : List PackagedAsset) (id : AssetId) :
    (((g.setModules modules).setPackaged assets).get? id).map outline =
      (g.get? id).map outline := by
  refine (map_get?_foldl_modify ?_ id).trans (map_get?_foldl_modify ?_ id)
  · intro x a
    rfl
  · intro x a
    rfl

theorem Built.packaged (hg : g.Built) : ((g.setModules modules).setPackaged assets).Built := by
  refine Built.foldl_modify (Built.foldl_modify hg ?_) ?_
  · exact fun _ _ ↦ ⟨rfl, rfl, rfl⟩
  · exact fun _ _ ↦ ⟨rfl, rfl, rfl⟩

/-- The script modules of a packaged graph are those that were put into it. -/
theorem map_siblings_setPackaged (g : AssetGraph) (assets : List PackagedAsset) (id : AssetId) :
    ((g.setPackaged assets).get? id).map Asset.siblings = (g.get? id).map Asset.siblings := by
  refine map_get?_foldl_modify ?_ id
  intro x a
  rfl

/-- A graph that has been packaged is not changed by what was put into it. -/
theorem packaged_again (hmodules : (modules.map Prod.fst).Nodup)
    (hassets : (assets.map PackagedAsset.id).Nodup) :
    (((g.setModules modules).setPackaged assets).setModules modules).setPackaged assets =
      (g.setModules modules).setPackaged assets := by
  have hagain : ((g.setModules modules).setPackaged assets).setModules modules =
      (g.setModules modules).setPackaged assets := by
    refine foldl_modify_eq_self fun x hx b hb ↦ ?_
    have hset : (g.setModules modules).get? x.1 = (g.get? x.1).map _ :=
      get?_foldl_modify_of_mem hmodules hx
    have hsiblings := map_siblings_setPackaged (g.setModules modules) assets x.1
    rw [hb, hset, Option.map_some, Option.map_map] at hsiblings
    obtain ⟨a, -, ha⟩ := Option.map_eq_some_iff.1 hsiblings.symm
    have hscript : b.siblings.script = some x.2 := ha ▸ rfl
    obtain ⟨_, _, _, _, ⟨script, markup, style⟩, _, _, _, _⟩ := b
    obtain rfl : script = some x.2 := hscript
    rfl
  rw [hagain]
  exact foldl_modify_again hassets fun _ _ ↦ rfl

/-- Validation does not look at what packaging changes. -/
theorem validate_of_outline (hroot : g'.root = g.root)
    (h : ∀ id, (g'.get? id).map outline = (g.get? id).map outline) (hv : g.validate = .ok ()) :
    g'.validate = .ok () := by
  have hnodes : g'.nodes.map outline = g.nodes.map outline := by
    refine List.ext_getElem? fun i ↦ ?_
    rw [List.getElem?_map, List.getElem?_map]
    exact h i
  have hparent : ∀ a, g'.parentKind? a = g.parentKind? a := by
    intro a
    rw [parentKind?, parentKind?]
    refine congrArg a.parent.bind (funext fun i ↦ ?_)
    have hkind := congrArg (Option.map Asset.kind) (h i)
    rwa [Option.map_map, Option.map_map] at hkind
  have hplace : ∀ root a, g'.checkPlace root (outline a) = g.checkPlace root a := by
    intro root a
    rw [checkPlace, hparent]
    rfl
  have hidentities : bundleIdentities g'.nodes = bundleIdentities g.nodes := by
    have hmap : ∀ as : List Asset, bundleIdentities (as.map outline) = bundleIdentities as := by
      intro as
      rw [bundleIdentities, List.filter_map, List.map_map]
      rfl
    rw [← hmap, hnodes, hmap]
  have hnone : (bundleIdentities []).Nodup := List.nodup_nil
  rw [validate] at hv ⊢
  rw [hroot]
  rcases htop : g.root with - | root
  · rw [htop] at hv
    cases hv
  · rw [htop] at hv
    obtain ⟨hplaces, hnodup⟩ := (checkAll_eq_ok_iff hnone).1 hv
    refine (checkAll_eq_ok_iff hnone).2 ⟨fun b hb ↦ ?_, ?_⟩
    · obtain ⟨a, ha, hab⟩ := List.mem_map.1 (hnodes ▸ List.mem_map_of_mem hb)
      have hsame : g'.checkPlace root b = g.checkPlace root a := by
        rw [← hplace root a, hab]
        rfl
      rw [hsame, hplaces a ha]
    · rw [List.nil_append] at hnodup ⊢
      rw [hidentities]
      exact hnodup

/-- Assets that are packaged the same unfold to trees that are. -/
theorem Unfolds.repeatsAll {p q : Packagers} {ids : List AssetId} {ts us : List AssetTree}
    (hsame : ∀ {id a b}, g.get? id = some a → g'.get? id = some b →
      p.Repeats q a b ∧ b.children = a.children)
    (h : g.Unfolds ids ts) (h' : g'.Unfolds ids us) : p.RepeatsAll q ts us := by
  induction h generalizing us with
  | nil =>
    cases h'
    exact .nil
  | cons ha _ _ ih ihs =>
    cases h' with
    | cons hb hts hrest =>
      obtain ⟨hrepeats, hchildren⟩ := hsame ha hb
      exact .cons hrepeats (ih (hchildren ▸ hts)) (ihs hrest)

section package

variable {σ τ : Type} {w : Writer σ} {v : Writer τ} {outDir : Path} {context : BuildContext}
  {s : σ} {t : τ}

/-- What is left of script modules is put into their assets. -/
theorem get?_setModules_of_settles {p : Packagers} {as : List Asset} (h : p.Settles as modules)
    (hids : (as.map Asset.id).Nodup) {a : Asset} (ha : a ∈ as) (hget : g.get? a.id = some a) :
    (g.setModules modules).get? a.id = some (p.settled a) := by
  rcases hscript : a.siblings.script with - | m
  · have hnone : a.id ∉ modules.map Prod.fst := by
      intro hmem
      obtain ⟨⟨_, m'⟩, hx, rfl⟩ := List.mem_map.1 hmem
      obtain ⟨m, hm, -⟩ := (h.mem_iff hids ha).1 hx
      rw [hscript] at hm
      cases hm
    refine (get?_foldl_modify_of_not_mem hnone).trans ?_
    obtain ⟨_, _, _, _, ⟨script, markup, style⟩, _, _, _, _⟩ := a
    obtain rfl : script = none := hscript
    exact hget
  · have hmem : (a.id, (p.script a m).2) ∈ modules := (h.mem_iff hids ha).2 ⟨m, hscript, rfl⟩
    refine (get?_foldl_modify_of_mem (h.nodup hids) hmem).trans ?_
    rw [hget, settled, hscript]
    rfl

/-- What a walk that succeeds makes of a run. -/
theorem Built.package_of_walk {p : Packagers} {app : Asset} {pages : List AssetTree} (hg : g.Built)
    (context : BuildContext) (hvalid : g.validate = .ok ()) (h : g.Spread app pages)
    {records : List BundleRecord}
    (hwalk : (packageTree p w.recording outDir app pages (s, [])).result = .ok (assets, records)) :
    (g.package p w outDir context s).result = .ok () ∧
      (g.package p w outDir context s).graph =
        (g.setModules (packageTree p w.recording outDir app pages (s, [])).modules).setPackaged
          assets ∧
      (g.package p w outDir context s).context = context.recordAll records ∧
      g.filesOfRun p w outDir context s =
        (packageTree p w.recording outDir app pages (s, [])).state.2 := by
  obtain ⟨app', pages', hspread, -, hrun⟩ := hg.package_eq (p := p) hvalid outDir context
  obtain ⟨rfl, rfl⟩ := hg.linked.spread_unique h hspread
  obtain ⟨hresult, hmodules, -⟩ :=
    w.simulates_recording.packageTree p outDir app pages (s := s) (t := (s, [])) rfl
  rw [filesOfRun, hrun, hrun, state_conclude, hresult, hmodules, hwalk]
  exact ⟨rfl, rfl, rfl, rfl⟩

/-- A run that succeeds is a walk that succeeds. -/
theorem Built.exists_walk_of_ok {p : Packagers} (hg : g.Built)
    (h : (g.package p w outDir context s).result = .ok ()) :
    ∃ app pages assets records, g.Spread app pages ∧
      (packageTree p w.recording outDir app pages (s, [])).result = .ok (assets, records) := by
  obtain ⟨app, pages, assets, records, -, hspread, -, hwalk, -⟩ := hg.exists_walk h
  exact ⟨app, pages, assets, records, hspread, hwalk⟩

theorem nodup_assets_of_walk {p : Packagers} {app : Asset} {pages : List AssetTree}
    {records : List BundleRecord} (hids : ((postOrderAll pages ++ [app]).map Asset.id).Nodup)
    (hwalk : (packageTree p w outDir app pages s).result = .ok (assets, records)) :
    (assets.map PackagedAsset.id).Nodup := by
  obtain ⟨-, o, hassets⟩ := packageTree_spec hwalk
  have hkeys := congrArg (List.map Prod.fst) hassets
  rw [List.map_append, map_fst_outputsOfPage, List.map_map] at hkeys
  rw [List.map_append] at hids
  exact hkeys ▸ hids

/-- An asset that was packaged with one configuration is packaged the same with all others. -/
theorem repeats_of_settles {c : Config} {as : List Asset} (h : (ofConfig c).Settles as modules)
    (hids : (as.map Asset.id).Nodup) (c' : Config) {a b : Asset} (ha : a ∈ as)
    (hget : g.get? a.id = some a)
    (hb : ((g.setModules modules).setPackaged assets).get? a.id = some b) :
    (ofConfig c).Repeats (ofConfig c') a b ∧ b.children = a.children := by
  have houtline := map_outline_packaged g modules assets a.id
  rw [hb, hget] at houtline
  obtain ⟨hid, hkind, hidentity, hpath, -, hchildren, -⟩ := Asset.mk.inj (Option.some.inj houtline)
  have hsiblings := map_siblings_setPackaged (g.setModules modules) assets a.id
  rw [hb, get?_setModules_of_settles h hids ha hget] at hsiblings
  obtain ⟨s, hs⟩ := h.scripts a ha
  exact ⟨repeats_ofConfig hs c' hid hkind hidentity hpath (Option.some.inj hsiblings), hchildren⟩

/-- **Packaging again is stable.** After a success, packaging the graph again succeeds with any
configuration and any writer that accepts everything: it writes the same files, and leaves the graph
and the record of the build as they are. -/
theorem package_repeats {c : Config} (hg : g.Built)
    (h : (g.package (.ofConfig c) w outDir context s).result = .ok ()) (c' : Config)
    (hv : v.Decides fun _ ↦ .ok ()) (t : τ) :
    let first := g.package (.ofConfig c) w outDir context s
    let second := first.graph.package (.ofConfig c') v outDir first.context t
    second.result = .ok () ∧
      first.graph.filesOfRun (.ofConfig c') v outDir first.context t =
        g.filesOfRun (.ofConfig c) w outDir context s ∧
      second.graph = first.graph ∧ second.context = first.context := by
  intro first second
  have hvalid := (package_eq_ok h).1
  obtain ⟨app, pages, assets, records, hspread, hwalk⟩ := hg.exists_walk_of_ok h
  obtain ⟨-, hgraph, hcontext, hfiles⟩ := hg.package_of_walk context hvalid hspread hwalk
  have hids := hg.nodup_of_spread hspread
  have hsettles := settles_packageTree hwalk
  have hbuilt : first.graph.Built := by
    rw [hgraph]
    exact hg.packaged
  have hroot : first.graph.root = g.root := by
    rw [hgraph]
    exact (root_foldl_modify _ _ _ _).trans (root_foldl_modify _ _ _ _)
  have hvalid' : first.graph.validate = .ok () :=
    validate_of_outline hroot (fun id ↦ hgraph ▸ map_outline_packaged _ _ _ id) hvalid
  obtain ⟨app', pages', hspread', -⟩ := hbuilt.exists_spread hvalid'
  have hsame : ∀ {id a b}, g.get? id = some a → first.graph.get? id = some b →
      (ofConfig c).Repeats (ofConfig c') a b ∧ b.children = a.children := by
    intro id a b ha hb
    have hid := hg.linked.id_eq ha
    rw [hgraph, ← hid] at hb
    exact repeats_of_settles hsettles hids c' (hg.mem_of_spread hvalid hspread ha) (hid ▸ ha) hb
  obtain ⟨root, htop, -, hun⟩ := hspread.unfolds
  obtain ⟨root', htop', -, hun'⟩ := hspread'.unfolds
  obtain rfl : root = root' := by
    rw [hroot, htop] at htop'
    exact Option.some.inj htop'
  rcases hun.repeatsAll hsame hun' with - | ⟨happ, hpages, -⟩
  obtain ⟨hwalk', hmodules, hstate⟩ :=
    packageTree_follow (s := (s, [])) (t := (t, [])) hv happ hpages rfl hwalk
  obtain ⟨hresult', hgraph', hcontext', hfiles'⟩ :=
    hbuilt.package_of_walk first.context hvalid' hspread' hwalk'
  refine ⟨hresult', ?_, ?_, ?_⟩
  · rw [hfiles', hstate, hfiles]
  · rw [hgraph', hmodules, hgraph]
    exact packaged_again (hsettles.nodup hids) (nodup_assets_of_walk hids hwalk)
  · rw [hcontext', hcontext]
    exact context.recordAll_recordAll records

end package

/-! ### A graph that is packaged twice -/

/-- The module `export const n = 1;` with another statement that nothing needs. -/
def tallyScript : ScriptModule where
  path := ⟨"count.js"⟩
  source := "export const n = 1;\nlet m = 2;\n"
  statements :=
    [⟨.exportWrapper 7, ⟨0, 19⟩, .ofList ["n"], .empty⟩,
     ⟨.plain, ⟨20, 30⟩, .ofList ["m"], .empty⟩]
  imports := .empty
  exports := OrderedMap.empty.insert "n" 0
  selected := none

def tallyCount (id parent : AssetId) : Asset :=
  ⟨id, .component "count", "count", ⟨"count"⟩, ⟨some tallyScript, none, none⟩, .empty, some parent,
    .empty, .empty⟩

def tallyPage : Asset :=
  ⟨1, .page "/", "tally", ⟨"tally"⟩, ⟨none, some ⟨⟨"tally.html"⟩, "t"⟩, none⟩,
    (OrderedMap.empty.insert "row" 2).insert "count" 4, some 0, .empty, .empty⟩

def tallyRow : Asset :=
  ⟨2, .component "row", "row", ⟨"row"⟩, .empty, OrderedMap.empty.insert "count" 3, some 1, .empty,
    .empty⟩

/-- A page that holds a count, and a row that holds the same count again, before it. -/
def tallyGraph : AssetGraph where
  nodes :=
    [⟨0, .app, "shop", ⟨"shop"⟩, .empty, OrderedMap.empty.insert "tally" 1, none, .empty, .empty⟩,
     tallyPage, tallyRow, tallyCount 3 2, tallyCount 4 1]
  root := some 0

theorem built_tallyGraph : tallyGraph.Built := by
  have hshop := Built.addApp .empty
    (rfl : AssetGraph.empty.addApp "shop" ⟨"shop"⟩ .empty = .ok (0, _))
  have htally := hshop.addChild
    (rfl : addChild _ 0 tallyPage.kind "tally" ⟨"tally"⟩ tallyPage.siblings = .ok (1, _))
  have hrow := htally.addChild
    (rfl : addChild _ 1 tallyRow.kind "row" ⟨"row"⟩ .empty = .ok (2, _))
  have hinner := hrow.addChild
    (rfl : addChild _ 2 (.component "count") "count" ⟨"count"⟩ (tallyCount 3 2).siblings =
      .ok (3, _))
  exact hinner.addChild
    (rfl : addChild _ 1 (.component "count") "count" ⟨"count"⟩ (tallyCount 4 1).siblings =
      .ok (4, tallyGraph))

/-- The second time everything is kept, and `q` is known; the first time that gives other files. -/
def untouched : Config :=
  { Config.standard with treeShaking := false, knownGlobals := .ofList ["q"] }

theorem package_repeats_tally :
    let first := tallyGraph.package (.ofConfig .standard) memoryWriter ⟨"out"⟩ .empty []
    let second := first.graph.package (.ofConfig untouched) memoryWriter ⟨"out"⟩ first.context []
    let files : List BundleFile :=
      [⟨⟨"out/tally.js"⟩, .script, "const n = 1;\n"⟩,
       ⟨⟨"out/tally.jsx"⟩, .markup, "const $tally = () => \"t\"\n\n"⟩]
    first.result = .ok () ∧ second.result = .ok () ∧
      first.graph.filesOfRun (.ofConfig untouched) memoryWriter ⟨"out"⟩ first.context [] = files ∧
      tallyGraph.filesOfRun (.ofConfig untouched) memoryWriter ⟨"out"⟩ .empty [] ≠ files ∧
      second.graph = first.graph ∧ second.context = first.context := by
  intro first second files
  have hfirst : first.result = .ok () := by decide +kernel
  have hwriter : memoryWriter.Decides fun _ ↦ .ok () := fun _ _ ↦ rfl
  obtain ⟨hsecond, hfiles, hgraph, hcontext⟩ :=
    package_repeats built_tallyGraph hfirst untouched hwriter []
  have hrun :
      tallyGraph.filesOfRun (.ofConfig .standard) memoryWriter ⟨"out"⟩ .empty [] = files := by
    decide +kernel
  exact ⟨hfirst, hsecond, hfiles.trans hrun, by decide +kernel, hgraph, hcontext⟩

end AssetGraph

end AppletBundle
