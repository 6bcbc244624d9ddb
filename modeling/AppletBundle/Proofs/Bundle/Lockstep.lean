import AppletBundle.Proofs.Bundle.Traversal

/-!
# Walks in lockstep

Two walks with different packagers come to the same if packaging does asset by asset what it did
before (`Packagers.Repeats`), and the second writer accepts what the first has accepted. Then the
trees have the same work done (`Packagers.RepeatsAll.packageComponents_eq`), and the second walk
succeeds where the first has: with the same assets, records and selections, and the same files
(`packageTree_follow`).

Only the results of pages tell the walks apart. They carry the page itself, which may hold other
things the second time.
-/

namespace AppletBundle

open AssetTree

namespace Packagers

variable {p q : Packagers} {a b : Asset}

/-! ### Assets -/

/-- Packaging `b` with `q` is packaging `a` with `p`, down to the script module that is left. -/
structure Repeats (p q : Packagers) (a b : Asset) : Prop where
  id : b.id = a.id
  kind : b.kind = a.kind
  identity : b.identity = a.identity
  style : b.siblings.style = a.siblings.style
  scriptPart : q.scriptPart b = p.scriptPart a
  markupPart : q.markupPart b = p.markupPart a
  stylePart : q.stylePart b = p.stylePart a

namespace Repeats

theorem packageOwn (h : p.Repeats q a b) : q.packageOwn b = p.packageOwn a := by
  rw [Packagers.packageOwn, Packagers.packageOwn, h.id, h.scriptPart, h.markupPart, h.stylePart]

theorem packageApp (h : p.Repeats q a b) : q.packageApp b = p.packageApp a := by
  rw [Packagers.packageApp, Packagers.packageApp, h.id, h.scriptPart, h.style]

end Repeats

/-! ### Trees -/

/-- Trees of the same shape whose assets are packaged the same. -/
inductive RepeatsAll (p q : Packagers) : List AssetTree → List AssetTree → Prop
  | nil : RepeatsAll p q [] []
  | cons {a b : Asset} {ts us ts' us' : List AssetTree} (ha : p.Repeats q a b)
    (hts : RepeatsAll p q ts us) (hrest : RepeatsAll p q ts' us') :
    RepeatsAll p q (.node a ts :: ts') (.node b us :: us')

variable {ts us : List AssetTree}

/-- **Components that repeat have the same work done.** -/
theorem RepeatsAll.packageComponents_eq (h : p.RepeatsAll q ts us) :
    q.packageComponents us = p.packageComponents ts := by
  induction h with
  | nil => rfl
  | cons ha _ _ ih ihs =>
    rw [packageComponents, packageComponents, packageComponent, packageComponent, ha.kind,
      ha.packageOwn, ha.identity, ih, ihs, unexpected, unexpected, ha.identity, ha.kind]

/-- A page that repeats comes to the same, for another page. -/
theorem Repeats.packagePage_eq (ha : p.Repeats q a b) (hts : p.RepeatsAll q ts us) :
    q.packagePage (.node b us) =
      ⟨(p.packagePage (.node a ts)).result.map fun bundle ↦ { bundle with page := b },
        (p.packagePage (.node a ts)).modules⟩ := by
  rw [packagePage, packagePage, ha.kind, hts.packageComponents_eq, ha.packageOwn, ha.id,
    unexpected, unexpected, ha.identity, ha.kind]
  rcases a.kind with - | route | tag
  · rfl
  · simp only [Work.andThen]
    rcases (Work.all (p.packageComponents ts)).result with f | below
    · rfl
    · rcases (p.packageOwn a).result with f | own <;> rfl
  · rfl

end Packagers

open Packagers

/-! ### Walks -/

section walk

variable {σ τ : Type} {p q : Packagers} {w : Writer σ} {v : Writer τ} {outDir : Path}
  {s : σ × List BundleFile} {t : τ × List BundleFile}

/-- A bundle that one writer has written is written by one that accepts everything. -/
theorem Writer.writeKinds_follow (hv : v.Decides fun _ ↦ .ok ()) {a b : Asset}
    (hidentity : b.identity = a.identity) {output : Output} {kinds : List ModuleKind}
    {written paths : WrittenPaths} (hs : t.2 = s.2)
    (h : (w.recording.writeKinds outDir a output kinds written s).1 = .ok paths) :
    (v.recording.writeKinds outDir b output kinds written t).1 = .ok paths ∧
      (v.recording.writeKinds outDir b output kinds written t).2.2 =
        (w.recording.writeKinds outDir a output kinds written s).2.2 := by
  induction kinds generalizing written s t with
  | nil => exact ⟨h, hs⟩
  | cons kind kinds ih =>
    have hfile : slotFile outDir b output kind = slotFile outDir a output kind := by
      rw [slotFile, slotFile, hidentity]
    rw [writeKinds_cons] at h
    rw [writeKinds_cons, writeKinds_cons, hfile]
    by_cases hempty : (output.get kind).isEmpty
    · rw [if_pos hempty] at h
      rw [if_pos hempty, if_pos hempty]
      exact ih hs h
    · rw [if_neg hempty] at h
      rw [if_neg hempty, if_neg hempty]
      have haccepted : (v.recording.write t (slotFile outDir a output kind)).1 = .ok () :=
        hv t.1 _
      rcases hwrite : (w.recording.write s (slotFile outDir a output kind)).1 with f | ⟨⟩
      · rw [hwrite] at h
        cases h
      · have hkept : (v.recording.write t (slotFile outDir a output kind)).2.2 =
            (w.recording.write s (slotFile outDir a output kind)).2.2 := by
          show (if (v.recording.write t (slotFile outDir a output kind)).1.isOk then _ else _) =
            if (w.recording.write s (slotFile outDir a output kind)).1.isOk then _ else _
          rw [haccepted, hwrite, hs]
        simp only [hwrite] at h
        simp only [haccepted]
        exact ih hkept h

theorem Writer.writePage_follow (hv : v.Decides fun _ ↦ .ok ()) {bundle : PageBundle} {page : Asset}
    (hidentity : page.identity = bundle.page.identity) {entry : ManifestEntry} (hs : t.2 = s.2)
    (h : (w.recording.writePage outDir bundle s).1 = .ok entry) :
    (v.recording.writePage outDir { bundle with page := page } t).1 = .ok entry ∧
      (v.recording.writePage outDir { bundle with page := page } t).2.2 =
        (w.recording.writePage outDir bundle s).2.2 := by
  rw [writePage] at h
  rw [writePage, writePage]
  obtain ⟨paths, hpaths, rfl⟩ := Outcome.map_eq_ok.1 h
  obtain ⟨hfollow, hfiles⟩ := writeKinds_follow hv hidentity hs hpaths
  refine ⟨Outcome.map_eq_ok.2 ⟨paths, hfollow, ?_⟩, hfiles⟩
  rw [hidentity]

variable {ts us : List AssetTree}

/-- A page that was written is written again. -/
theorem finishPage_follow (hv : v.Decides fun _ ↦ .ok ()) {a b : Asset} (ha : p.Repeats q a b)
    (hts : p.RepeatsAll q ts us) {x : PageBundle × ManifestEntry} (hs : t.2 = s.2)
    (h : (finishPage p w.recording outDir (.node a ts) s).1 = .ok x) :
    (finishPage q v.recording outDir (.node b us) t).1 = .ok ({ x.1 with page := b }, x.2) ∧
      (finishPage q v.recording outDir (.node b us) t).2.2 =
        (finishPage p w.recording outDir (.node a ts) s).2.2 := by
  rw [finishPage] at h
  rw [finishPage, finishPage, ha.packagePage_eq hts]
  rcases hpage : (p.packagePage (.node a ts)).result with f | bundle
  · rw [hpage] at h
    cases h
  · simp only [hpage] at h
    obtain ⟨entry, hentry, rfl⟩ := Outcome.map_eq_ok.1 h
    have hidentity : b.identity = bundle.page.identity := by
      rw [(packagePage_output hpage).1, ha.identity]
    obtain ⟨hfollow, hfiles⟩ := Writer.writePage_follow hv hidentity hs hentry
    exact ⟨Outcome.map_eq_ok.2 ⟨entry, hfollow, rfl⟩, hfiles⟩

/-- What the end of a walk needs of the result of a page. -/
def PageBundle.listed (x : PageBundle × ManifestEntry) : List PackagedAsset × ManifestEntry :=
  (x.1.assets, x.2)

theorem packagePages_follow (hv : v.Decides fun _ ↦ .ok ()) (hpages : p.RepeatsAll q ts us)
    {bundles : List (PageBundle × ManifestEntry)} (hs : t.2 = s.2)
    (h : (packagePages p w.recording outDir ts s).result = .ok bundles) :
    (∃ bundles', (packagePages q v.recording outDir us t).result = .ok bundles' ∧
        bundles'.map PageBundle.listed = bundles.map PageBundle.listed) ∧
      (packagePages q v.recording outDir us t).modules =
        (packagePages p w.recording outDir ts s).modules ∧
      (packagePages q v.recording outDir us t).state.2 =
        (packagePages p w.recording outDir ts s).state.2 := by
  induction hpages generalizing s t bundles with
  | nil => exact ⟨⟨bundles, h, rfl⟩, rfl, hs⟩
  | cons ha hts _ _ ih =>
    rw [packagePages_cons] at h
    rw [packagePages_cons, packagePages_cons]
    obtain ⟨x, hx, h⟩ := Outcome.bind_eq_ok.1 h
    obtain ⟨xs, hxs, h⟩ := Outcome.bind_eq_ok.1 h
    obtain rfl := Except.ok.inj h
    obtain ⟨hpage, hfiles⟩ := finishPage_follow hv ha hts hs hx
    obtain ⟨⟨ys, hys, hlisted⟩, hmodules, hstate⟩ := ih hfiles hxs
    refine ⟨⟨_, Outcome.bind_eq_ok.2 ⟨_, hpage, Outcome.bind_eq_ok.2 ⟨ys, hys, rfl⟩⟩, ?_⟩, ?_,
      hstate⟩
    · rw [List.map_cons, List.map_cons, hlisted]
      rfl
    · rw [ha.packagePage_eq hts, hmodules]

/-- **A walk that follows one that has succeeded** succeeds with the same assets, records and
selections, and has written the same files. -/
theorem packageTree_follow (hv : v.Decides fun _ ↦ .ok ()) {app app' : Asset}
    (happ : p.Repeats q app app') (hpages : p.RepeatsAll q ts us)
    {x : List PackagedAsset × List BundleRecord} (hs : t.2 = s.2)
    (h : (packageTree p w.recording outDir app ts s).result = .ok x) :
    (packageTree q v.recording outDir app' us t).result = .ok x ∧
      (packageTree q v.recording outDir app' us t).modules =
        (packageTree p w.recording outDir app ts s).modules ∧
      (packageTree q v.recording outDir app' us t).state.2 =
        (packageTree p w.recording outDir app ts s).state.2 := by
  rw [packageTree] at h
  rw [packageTree, packageTree]
  rcases hwalk : (packagePages p w.recording outDir ts s).result with f | bundles
  · simp only [hwalk] at h
    cases h
  obtain ⟨⟨bundles', hwalk', hlisted⟩, hmodules, hstate⟩ := packagePages_follow hv hpages hs hwalk
  rcases hown : (p.packageApp app).result with f | own
  · simp only [hwalk, hown] at h
    cases h
  simp only [hwalk, hown] at h
  simp only [hwalk', hown, happ.packageApp, hmodules]
  obtain ⟨paths, hpaths, rfl⟩ := Outcome.map_eq_ok.1 h
  obtain ⟨hfollow, hfiles⟩ := Writer.writeKinds_follow hv happ.identity hstate hpaths
  refine ⟨Outcome.map_eq_ok.2 ⟨paths, hfollow, ?_⟩, trivial, hfiles⟩
  have hassets : (bundles'.flatMap fun x ↦ x.1.assets) = bundles.flatMap fun x ↦ x.1.assets := by
    have hparts := congrArg (List.flatMap Prod.fst) hlisted
    rwa [List.flatMap_map, List.flatMap_map] at hparts
  have hentries : (bundles'.map fun x ↦ BundleRecord.page x.2) =
      bundles.map fun x ↦ BundleRecord.page x.2 := by
    have hparts := congrArg (List.map fun y ↦ BundleRecord.page y.2) hlisted
    rwa [List.map_map, List.map_map] at hparts
  rw [hassets, hentries]

end walk

end AppletBundle
