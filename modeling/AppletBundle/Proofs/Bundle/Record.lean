import AppletBundle.Proofs.Bundle.Context
import AppletBundle.Proofs.Bundle.Traversal
import AppletBundle.Proofs.Path.FileName
import Mathlib.Data.List.Forall2

/-!
# Bundles and their record

A bundle that is written has a file for each kind with text, and the paths that come back are the
names of these files (`Writer.writeBundle_recording`). A walk that succeeds puts the bundles one
after the other and describes each page in an entry (`packageTree_recording`), and the record of the
build takes down the files of the app and the entries (`BuildContext.recordAll_bundles`).

What is written is followed with a writer that records it. Identities are part of file names, so
that of a bundle must not have a separator; then different bundles have different files
(`Writer.pairwise_components_slotFiles`).
-/

namespace AppletBundle

open AssetTree

/-! ### Names of bundle files -/

/-- The name of the file of a kind of the bundle with an identity. -/
def BundleFile.nameOf (identity : String) (kind : ModuleKind) : String :=
  identity ++ "." ++ kind.extension

namespace ModuleKind

theorem separator_not_mem_extension (kind : ModuleKind) : '/' ∉ kind.extension.toList := by
  cases kind <;> decide

theorem dot_not_mem_extension (kind : ModuleKind) : '.' ∉ kind.extension.toList := by
  cases kind <;> decide

theorem two_le_length_extension (kind : ModuleKind) : 2 ≤ kind.extension.toList.length := by
  cases kind <;> decide

theorem extension_injective : Function.Injective extension := by
  intro kind kind' h
  cases kind <;> cases kind' <;> first | rfl | exact absurd h (by decide)

end ModuleKind

namespace BundleFile

theorem isFileName_nameOf {identity : String} (h : '/' ∉ identity.toList) (kind : ModuleKind) :
    Path.IsFileName (nameOf identity kind) :=
  Path.isFileName_append h kind.separator_not_mem_extension kind.two_le_length_extension

/-- What is after the last dot of a file name is its extension. -/
theorem takeWhile_reverse_nameOf (identity : String) (kind : ModuleKind) :
    (nameOf identity kind).toList.reverse.takeWhile (· ≠ '.') = kind.extension.toList.reverse := by
  have hname : (nameOf identity kind).toList.reverse =
      kind.extension.toList.reverse ++ '.' :: identity.toList.reverse := by
    rw [nameOf, String.toList_append, String.toList_append]
    simp
  rw [hname, List.takeWhile_append_of_pos, List.takeWhile_cons_of_neg (by simp), List.append_nil]
  intro c hc
  rw [List.mem_reverse] at hc
  exact decide_eq_true fun h ↦ kind.dot_not_mem_extension (h ▸ hc)

/-- **A file name tells the bundle and the kind.** -/
theorem nameOf_inj {identity identity' : String} {kind kind' : ModuleKind}
    (h : nameOf identity kind = nameOf identity' kind') : identity = identity' ∧ kind = kind' := by
  have hextension : kind.extension.toList.reverse = kind'.extension.toList.reverse := by
    rw [← takeWhile_reverse_nameOf identity, h, takeWhile_reverse_nameOf]
  obtain rfl : kind = kind' :=
    ModuleKind.extension_injective (String.toList_inj.1 (List.reverse_inj.1 hextension))
  refine ⟨?_, rfl⟩
  rw [nameOf, nameOf, ← String.toList_inj] at h
  simp only [String.toList_append, List.append_cancel_right_eq] at h
  exact String.toList_inj.1 h

end BundleFile

open BundleFile

namespace WrittenPaths

/-- The path of the file of a kind. -/
def get (written : WrittenPaths) : ModuleKind → Option Path
  | .script => written.script
  | .style => written.style
  | .markup => written.markup

theorem get_set (written : WrittenPaths) (kind other : ModuleKind) (path : Path) :
    (written.set kind path).get other = if other = kind then some path else written.get other := by
  cases kind <;> cases other <;> rfl

end WrittenPaths

namespace Writer

variable {σ : Type} {w : Writer σ} {outDir : Path} {a : Asset} {output : Output}

/-! ### Bundles that are written -/

theorem components_slotFile (h : '/' ∉ a.identity.toList) (kind : ModuleKind) :
    (slotFile outDir a output kind).path.components =
      outDir.components ++ [.normal (nameOf a.identity kind)] :=
  (isFileName_nameOf h kind).components_join outDir

theorem placeOfFile_slotFile (h : '/' ∉ a.identity.toList) (kind : ModuleKind) :
    placeOfFile outDir (slotFile outDir a output kind) = ⟨nameOf a.identity kind⟩ := by
  have hstrip : (slotFile outDir a output kind).path.stripPrefix? outDir =
      some ⟨nameOf a.identity kind⟩ := (isFileName_nameOf h kind).stripPrefix?_join outDir
  rw [placeOfFile, hstrip, Option.getD_some]

/-- The place of the file of a kind, seen from the directory of the bundles, if there is text for
it. -/
def slotPlace? (a : Asset) (output : Output) (kind : ModuleKind) : Option Path :=
  if (output.get kind).isEmpty then none else some ⟨nameOf a.identity kind⟩

/-- **A bundle that is written** has a file for each kind with text, and is known by their names. -/
theorem writeKinds_recording (hname : '/' ∉ a.identity.toList) {kinds : List ModuleKind}
    {written paths : WrittenPaths} {s : σ × List BundleFile}
    (h : (w.recording.writeKinds outDir a output kinds written s).1 = .ok paths) :
    (w.recording.writeKinds outDir a output kinds written s).2.2 =
        s.2 ++ slotFiles outDir a output kinds ∧
      ∀ kind, paths.get kind =
        if kind ∈ kinds ∧ ¬ (output.get kind).isEmpty then some ⟨nameOf a.identity kind⟩
        else written.get kind := by
  induction kinds generalizing written s with
  | nil =>
    obtain rfl := Except.ok.inj h
    exact ⟨(List.append_nil _).symm, fun kind ↦ (if_neg fun hk ↦ List.not_mem_nil hk.1).symm⟩
  | cons kind kinds ih =>
    rw [writeKinds_cons] at h ⊢
    by_cases hempty : (output.get kind).isEmpty
    · rw [if_pos hempty] at h ⊢
      obtain ⟨hfiles, hpaths⟩ := ih h
      rw [slotFiles_cons_of_isEmpty hempty]
      refine ⟨hfiles, fun other ↦ ?_⟩
      rw [hpaths]
      refine if_congr ⟨fun ho ↦ ⟨List.mem_cons_of_mem _ ho.1, ho.2⟩, fun ho ↦ ⟨?_, ho.2⟩⟩ rfl rfl
      exact (List.mem_cons.1 ho.1).resolve_left fun heq ↦ ho.2 (heq ▸ hempty)
    · rw [if_neg hempty] at h ⊢
      rcases hwrite : (w.recording.write s (slotFile outDir a output kind)).1 with f | ⟨⟩
      · rw [hwrite] at h
        cases h
      · have hstate : (w.recording.write s (slotFile outDir a output kind)).2.2 =
            s.2 ++ [slotFile outDir a output kind] := by
          show (if (w.recording.write s (slotFile outDir a output kind)).1.isOk then _ else _) = _
          rw [hwrite]
          rfl
        simp only [hwrite] at h ⊢
        obtain ⟨hfiles, hpaths⟩ := ih h
        rw [hfiles, hstate, slotFiles_cons_of_not_isEmpty hempty, List.append_assoc,
          List.singleton_append]
        refine ⟨rfl, fun other ↦ ?_⟩
        rw [hpaths, placeOfFile_slotFile hname, WrittenPaths.get_set]
        by_cases heq : other = kind
        · subst heq
          have hmem : other ∈ other :: kinds ∧ ¬ (output.get other).isEmpty :=
            ⟨List.mem_cons_self, hempty⟩
          rw [if_pos rfl, ite_self, if_pos hmem]
        · simp only [List.mem_cons, heq, false_or, if_false]

theorem writeBundle_recording (hname : '/' ∉ a.identity.toList) {paths : WrittenPaths}
    {s : σ × List BundleFile} (h : (w.recording.writeBundle outDir a output s).1 = .ok paths) :
    (w.recording.writeBundle outDir a output s).2.2 =
        s.2 ++ slotFiles outDir a output ModuleKind.all ∧
      ∀ kind, paths.get kind = slotPlace? a output kind := by
  obtain ⟨hfiles, hpaths⟩ := writeKinds_recording hname h
  refine ⟨hfiles, fun kind ↦ (hpaths kind).trans ?_⟩
  rw [slotPlace?, ← ite_not]
  cases kind <;> simp [ModuleKind.all, WrittenPaths.get, WrittenPaths.empty]

end Writer

/-! ### Walks that succeed -/

/-- The path of the file of a kind in the entry of a page. -/
def ManifestEntry.file? (e : ManifestEntry) : ModuleKind → Option Path
  | .script => e.script
  | .style => e.style
  | .markup => e.markup

/-- The entry is that of a page the files of which are in the given places. -/
structure ManifestEntry.Describes (e : ManifestEntry) (page : Asset)
    (place? : ModuleKind → Option Path) : Prop where
  kind : page.kind = .page e.route
  identity : e.identity = page.identity
  file? : ∀ kind, e.file? kind = place? kind

namespace Packagers

/-- The output of the bundle of a page. -/
def outputOfPage (p : Packagers) : AssetTree → Output
  | .node page ts => p.bundleOutput page (postOrderAll ts)

theorem pageFiles_eq (p : Packagers) (outDir : Path) (t : AssetTree) :
    p.pageFiles outDir t = Writer.slotFiles outDir t.asset (p.outputOfPage t) ModuleKind.all := by
  obtain ⟨page, ts⟩ := t
  rfl

theorem mem_outputsOfPage (p : Packagers) (t : AssetTree) :
    (t.asset.id, p.outputOfPage t) ∈ p.outputsOfPage t := by
  obtain ⟨page, ts⟩ := t
  exact List.mem_append_right _ (List.mem_singleton.2 rfl)

theorem packagePage_route {p : Packagers} {t : AssetTree} {b : PageBundle}
    (h : (p.packagePage t).result = .ok b) : t.asset.kind = .page b.route := by
  obtain ⟨page, ts⟩ := t
  obtain ⟨⟨⟨route, hk⟩, -, -⟩, -⟩ := packagePage_spec h
  rw [packagePage] at h
  simp only [hk] at h
  rw [Work.result_andThen, Outcome.bind_eq_ok] at h
  obtain ⟨below, -, h⟩ := h
  rw [Work.result_andThen, Outcome.bind_eq_ok] at h
  obtain ⟨own, -, h⟩ := h
  obtain rfl := Except.ok.inj h
  exact hk

end Packagers

section walk

variable {p : Packagers} {σ : Type} {w : Writer σ} {outDir : Path}

theorem writePage_recording {b : PageBundle} (hname : '/' ∉ b.page.identity.toList)
    (hroute : b.page.kind = .page b.route) {e : ManifestEntry} {s : σ × List BundleFile}
    (h : (w.recording.writePage outDir b s).1 = .ok e) :
    (w.recording.writePage outDir b s).2.2 =
        s.2 ++ Writer.slotFiles outDir b.page b.output ModuleKind.all ∧
      e.Describes b.page (Writer.slotPlace? b.page b.output) := by
  rw [Writer.writePage] at h ⊢
  obtain ⟨paths, hpaths, rfl⟩ := Outcome.map_eq_ok.1 h
  obtain ⟨hfiles, hplaces⟩ := Writer.writeBundle_recording hname hpaths
  refine ⟨hfiles, hroute, rfl, fun kind ↦ ?_⟩
  rw [← hplaces]
  cases kind <;> rfl

theorem finishPage_recording {t : AssetTree} (hname : '/' ∉ t.asset.identity.toList)
    {b : PageBundle} {e : ManifestEntry} {s : σ × List BundleFile}
    (h : (finishPage p w.recording outDir t s).1 = .ok (b, e)) :
    (finishPage p w.recording outDir t s).2.2 = s.2 ++ p.pageFiles outDir t ∧
      e.Describes t.asset (Writer.slotPlace? t.asset (p.outputOfPage t)) := by
  rw [finishPage] at h ⊢
  rcases hresult : (p.packagePage t).result with f | b'
  · rw [hresult] at h
    cases h
  · simp only [hresult] at h ⊢
    obtain ⟨e', hentry, heq⟩ := Outcome.map_eq_ok.1 h
    cases heq
    have hroute := p.packagePage_route hresult
    obtain ⟨page, ts⟩ := t
    obtain ⟨hpage, houtput⟩ := Packagers.packagePage_output hresult
    have hwritten := writePage_recording (hpage ▸ hname) (hpage ▸ hroute) hentry
    rw [hpage, houtput] at hwritten
    exact hwritten

/-- **Pages are written one after the other**, each with its entry. -/
theorem packagePages_recording {pages : List AssetTree}
    (hnames : ∀ t ∈ pages, '/' ∉ t.asset.identity.toList)
    {bundles : List (PageBundle × ManifestEntry)} {s : σ × List BundleFile}
    (h : (packagePages p w.recording outDir pages s).result = .ok bundles) :
    (packagePages p w.recording outDir pages s).state.2 =
        s.2 ++ pages.flatMap (p.pageFiles outDir) ∧
      List.Forall₂
        (fun t b ↦ b.2.Describes t.asset (Writer.slotPlace? t.asset (p.outputOfPage t)))
        pages bundles := by
  induction pages generalizing s bundles with
  | nil =>
    obtain rfl := Except.ok.inj h
    exact ⟨(List.append_nil _).symm, .nil⟩
  | cons t pages ih =>
    rw [packagePages_cons] at h ⊢
    obtain ⟨⟨b, e⟩, hpage, h⟩ := Outcome.bind_eq_ok.1 h
    obtain ⟨rest, hrest, h⟩ := Outcome.bind_eq_ok.1 h
    obtain rfl := Except.ok.inj h
    obtain ⟨hfirst, hentry⟩ := finishPage_recording (hnames t List.mem_cons_self) hpage
    obtain ⟨hfiles, hentries⟩ := ih (fun u hu ↦ hnames u (List.mem_cons_of_mem _ hu)) hrest
    refine ⟨?_, .cons hentry hentries⟩
    rw [hfiles, hfirst, List.flatMap_cons, List.append_assoc]

/-- **A tree is written** pages first, then the app, whose files are recorded before the entries. -/
theorem packageTree_recording {app : Asset} {pages : List AssetTree}
    (hname : '/' ∉ app.identity.toList) (hnames : ∀ t ∈ pages, '/' ∉ t.asset.identity.toList)
    {assets : List PackagedAsset} {records : List BundleRecord} {s : σ × List BundleFile}
    (h : (packageTree p w.recording outDir app pages s).result = .ok (assets, records)) :
    ∃ own entries, (p.packageApp app).result = .ok own ∧ assets.getLast? = some own ∧
      (packageTree p w.recording outDir app pages s).state.2 =
        s.2 ++ pages.flatMap (p.pageFiles outDir) ++
          Writer.slotFiles outDir app own.output ModuleKind.all ∧
      List.Forall₂ (fun t e ↦ ManifestEntry.Describes e t.asset
        (Writer.slotPlace? t.asset (p.outputOfPage t))) pages entries ∧
      records =
        ([ModuleKind.style, .script].filterMap (Writer.slotPlace? app own.output)).map
            BundleRecord.runtime ++ entries.map BundleRecord.page := by
  rw [packageTree] at h ⊢
  rcases hpages : (packagePages p w.recording outDir pages s).result with f | bundles
  · simp only [hpages] at h
    cases h
  obtain ⟨hfiles, hentries⟩ := packagePages_recording hnames hpages
  rcases hown : (p.packageApp app).result with f | own
  · simp only [hpages, hown] at h
    cases h
  simp only [hpages, hown] at h ⊢
  obtain ⟨paths, hpaths, heq⟩ := Outcome.map_eq_ok.1 h
  cases heq
  obtain ⟨hstate, hplaces⟩ := Writer.writeBundle_recording hname hpaths
  refine ⟨own, bundles.map Prod.snd, rfl, List.getLast?_concat, ?_, ?_, ?_⟩
  · rw [hstate, hfiles]
  · exact List.forall₂_map_right_iff.2 hentries
  · have hstyle : paths.style = Writer.slotPlace? app own.output .style := hplaces .style
    have hscript : paths.script = Writer.slotPlace? app own.output .script := hplaces .script
    have hboth : [ModuleKind.style, .script].filterMap (Writer.slotPlace? app own.output) =
        paths.style.toList ++ paths.script.toList := by
      rw [List.filterMap_cons, List.filterMap_cons, List.filterMap_nil, ← hstyle, ← hscript]
      rcases paths.style <;> rcases paths.script <;> rfl
    rw [hboth, List.map_map]
    rfl

end walk

/-! ### Records -/

namespace BuildContext

/-- The record of a build: the files of the app, then the entries of the pages. -/
theorem recordAll_bundles {paths : List Path} {entries : List ManifestEntry}
    (hpaths : paths.Pairwise fun x y ↦ ¬ x.same y)
    (hroutes : (entries.map ManifestEntry.route).Nodup) :
    (empty.recordAll (paths.map .runtime ++ entries.map .page)).runtimeModules = paths ∧
      (empty.recordAll (paths.map .runtime ++ entries.map .page)).manifest.entries =
        entries.map fun e ↦ (e.route, e) := by
  have hcomponents : (paths.map Path.components).Nodup := by
    refine List.pairwise_map.2 (hpaths.imp fun hxy heq ↦ hxy ?_)
    rw [Path.same, decide_eq_true_iff]
    exact heq
  have hkeys : ((entries.map fun e ↦ (e.route, e)).map Prod.fst).Nodup := by
    rw [List.map_map]
    exact hroutes
  rw [recordAll_eq, pathsOf_bundles, pagesOf_bundles]
  exact ⟨(foldl_addPath_nil paths).trans (firstsBy_eq_self _ hcomponents),
    OrderedMap.entries_fill_empty hkeys⟩

end BuildContext

/-! ### Files of several bundles -/

namespace Writer

variable {outDir : Path} {a b : Asset} {o q : Output}

theorem mem_slotFiles {kinds : List ModuleKind} {file : BundleFile} :
    file ∈ slotFiles outDir a o kinds ↔
      ∃ kind ∈ kinds, ¬ (o.get kind).isEmpty ∧ slotFile outDir a o kind = file := by
  simp [slotFiles, and_assoc]

/-- Paths tell bundles and kinds. -/
theorem eq_of_components_slotFile (ha : '/' ∉ a.identity.toList) (hb : '/' ∉ b.identity.toList)
    {kind kind' : ModuleKind}
    (h : (slotFile outDir a o kind).path.components = (slotFile outDir b q kind').path.components) :
    a.identity = b.identity ∧ kind = kind' := by
  rw [components_slotFile ha, components_slotFile hb] at h
  exact nameOf_inj (Path.Component.normal.inj (List.singleton_inj.1 (List.append_cancel_left h)))

/-- **The files of bundles with different identities all have different paths.** -/
theorem pairwise_components_slotFiles {as : List Asset} (out : AssetId → Output)
    (hnames : ∀ a ∈ as, '/' ∉ a.identity.toList) (has : (as.map Asset.identity).Nodup) :
    (as.flatMap fun a ↦ slotFiles outDir a (out a.id) ModuleKind.all).Pairwise
      fun file file' ↦ file.path.components ≠ file'.path.components := by
  rw [List.pairwise_flatMap]
  refine ⟨fun a ha ↦ ?_, ?_⟩
  · rw [slotFiles, List.pairwise_map]
    refine (List.Pairwise.filter _ (by decide : ModuleKind.all.Nodup)).imp fun hkind heq ↦ ?_
    exact hkind (eq_of_components_slotFile (hnames a ha) (hnames a ha) heq).2
  · refine (List.pairwise_map.1 has).imp_of_mem fun ha hb hne file hfile file' hfile' heq ↦ ?_
    obtain ⟨kind, -, -, rfl⟩ := mem_slotFiles.1 hfile
    obtain ⟨kind', -, -, rfl⟩ := mem_slotFiles.1 hfile'
    exact hne (eq_of_components_slotFile (hnames _ ha) (hnames _ hb) heq).1

/-- The place of the file of a kind of a bundle, seen from the directory of the bundles, if it is
among the written files. -/
def writtenPlace? (files : List BundleFile) (outDir : Path) (a : Asset) (output : Output)
    (kind : ModuleKind) : Option Path :=
  if slotFile outDir a output kind ∈ files then some ⟨nameOf a.identity kind⟩ else none

/-- Where all bundles are written, the files with text are. -/
theorem writtenPlace?_eq {as : List Asset} {out : AssetId → Output} (ha : a ∈ as) :
    writtenPlace? (as.flatMap fun a ↦ slotFiles outDir a (out a.id) ModuleKind.all) outDir a
      (out a.id) = slotPlace? a (out a.id) := by
  funext kind
  rw [slotPlace?, ← ite_not, writtenPlace?]
  refine if_congr ⟨fun h hempty ↦ ?_, fun h ↦ ?_⟩ rfl rfl
  · obtain ⟨b, -, hfile⟩ := List.mem_flatMap.1 h
    obtain ⟨kind', -, htext, heq⟩ := mem_slotFiles.1 hfile
    have hcontent : (out b.id).get kind' = (out a.id).get kind := congrArg BundleFile.content heq
    exact htext (hcontent ▸ hempty)
  · have hall : kind ∈ ModuleKind.all := by cases kind <;> decide
    exact List.mem_flatMap.2 ⟨a, ha, mem_slotFiles.2 ⟨kind, hall, h, rfl⟩⟩

end Writer

/-- The files of the app are not the same. -/
theorem Writer.pairwise_slotPlace? {app : Asset} (hname : '/' ∉ app.identity.toList)
    (output : Output) :
    ([ModuleKind.style, .script].filterMap (Writer.slotPlace? app output)).Pairwise
      fun x y ↦ ¬ x.same y := by
  have heq : ∀ {kind path}, Writer.slotPlace? app output kind = some path →
      path = ⟨nameOf app.identity kind⟩ := by
    intro kind path h
    rw [Writer.slotPlace?] at h
    split at h
    · cases h
    · exact (Option.some.inj h).symm
  have hkinds : [ModuleKind.style, .script].Pairwise (· ≠ ·) := by decide
  rw [List.pairwise_filterMap]
  refine hkinds.imp fun hne x hx y hy hsame ↦ hne ?_
  rw [Path.same, decide_eq_true_iff, heq hx, heq hy, (isFileName_nameOf hname _).components_eq,
    (isFileName_nameOf hname _).components_eq] at hsame
  exact (nameOf_inj (Path.Component.normal.inj (List.singleton_inj.1 hsame))).2

end AppletBundle
