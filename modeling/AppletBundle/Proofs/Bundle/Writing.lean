import AppletBundle.Bundle.Packaging

/-!
# Writers

Packaging asks its writer for nothing but whether a file was written. So two writers that give the
same answers are the same to it, whatever they keep (`Simulates`), and a writer whose answer depends
on the file alone (`Decides`) can be replaced by one that keeps just the files it has accepted
(`deciding`). For that one a bundle is what its files are: they are written in order up to the first
that is refused (`writeBundle_deciding`).
-/

namespace AppletBundle

/-! ### Outcomes without their values -/

/-- Whether a step succeeds, and its failure if not. -/
def Outcome.check {α : Type} (x : Outcome α) : Outcome Unit :=
  x.map fun _ ↦ ()

namespace Outcome

variable {α β : Type}

@[simp] theorem check_ok (a : α) : check (.ok a) = .ok () :=
  rfl

@[simp] theorem check_error (f : Failure) : check (.error f : Outcome α) = .error f :=
  rfl

@[simp] theorem check_map (x : Outcome α) (f : α → β) : check (x.map f) = check x := by
  cases x <;> rfl

/-- A step and what follows it. -/
theorem check_bind {x : Outcome α} {f : α → Outcome β} {y : Outcome Unit}
    (h : ∀ a, x = .ok a → check (f a) = y) : check (x >>= f) = check x >>= fun _ ↦ y := by
  cases x with
  | error e => rfl
  | ok a => exact h a rfl

end Outcome

namespace Writer

variable {σ τ : Type}

/-! ### Writers that answer alike -/

/-- Two writers give the same answers in related states, and stay related. -/
def Simulates (R : σ → τ → Prop) (w : Writer σ) (v : Writer τ) : Prop :=
  ∀ s t, R s t → ∀ file,
    (w.write s file).1 = (v.write t file).1 ∧ R (w.write s file).2 (v.write t file).2

/-- Whether a file is written depends on the file alone. -/
def Decides (w : Writer σ) (verdict : BundleFile → Outcome Unit) : Prop :=
  ∀ s file, (w.write s file).1 = verdict file

/-- The writer, with a list of the files it has written in order. -/
def recording (w : Writer σ) : Writer (σ × List BundleFile) where
  write s file :=
    ((w.write s.1 file).1, (w.write s.1 file).2,
      if (w.write s.1 file).1.isOk then s.2 ++ [file] else s.2)

/-- The writer that keeps the files it accepts. -/
def deciding (verdict : BundleFile → Outcome Unit) : Writer (List BundleFile) where
  write files file := (verdict file, if (verdict file).isOk then files ++ [file] else files)

theorem write_deciding_of_ok {verdict : BundleFile → Outcome Unit} {file : BundleFile}
    (h : verdict file = .ok ()) (files : List BundleFile) :
    (deciding verdict).write files file = (.ok (), files ++ [file]) := by
  show (verdict file, if (verdict file).isOk then files ++ [file] else files) = _
  rw [h]
  rfl

theorem write_deciding_of_error {verdict : BundleFile → Outcome Unit} {file : BundleFile}
    {f : Failure} (h : verdict file = .error f) (files : List BundleFile) :
    (deciding verdict).write files file = (.error f, files) := by
  show (verdict file, if (verdict file).isOk then files ++ [file] else files) = _
  rw [h]
  rfl

theorem simulates_recording (w : Writer σ) : Simulates (fun s t ↦ s = t.1) w w.recording := by
  rintro s t rfl file
  exact ⟨rfl, rfl⟩

theorem Decides.simulates_deciding {w : Writer σ} {verdict : BundleFile → Outcome Unit}
    (h : w.Decides verdict) :
    Simulates (fun s files ↦ s.2 = files) w.recording (deciding verdict) := by
  rintro s files rfl file
  refine ⟨h s.1 file, ?_⟩
  show (if (w.write s.1 file).1.isOk then s.2 ++ [file] else s.2) = _
  rw [h s.1 file]
  rfl

variable {R : σ → τ → Prop} {w : Writer σ} {v : Writer τ} {s : σ} {t : τ} {outDir : Path}

/-- The file of a kind in the bundle of an asset. -/
def slotFile (outDir : Path) (a : Asset) (output : Output) (kind : ModuleKind) : BundleFile :=
  .ofBundle outDir a.identity kind (output.get kind)

/-- The step of writing a file of a bundle. -/
def stepOfFile (a : Asset) (kind : ModuleKind) : String :=
  "Failed to write " ++ kind.label ++ " bundle of " ++ a.describe

/-- The place of a file, as the manifest has it. -/
def placeOfFile (outDir : Path) (file : BundleFile) : Path :=
  (file.path.stripPrefix? outDir).getD file.path

theorem writeKinds_cons (w : Writer σ) (outDir : Path) (a : Asset) (output : Output)
    (kind : ModuleKind) (kinds : List ModuleKind) (written : WrittenPaths) (s : σ) :
    w.writeKinds outDir a output (kind :: kinds) written s =
      if (output.get kind).isEmpty then w.writeKinds outDir a output kinds written s
      else match (w.write s (slotFile outDir a output kind)).1 with
        | .error f =>
          (.error (f.inStep (stepOfFile a kind)), (w.write s (slotFile outDir a output kind)).2)
        | .ok () =>
          w.writeKinds outDir a output kinds
            (written.set kind (placeOfFile outDir (slotFile outDir a output kind)))
            (w.write s (slotFile outDir a output kind)).2 := by
  rw [writeKinds]
  split
  · rfl
  · rcases hwrite : w.write s (slotFile outDir a output kind) with ⟨f | ⟨⟩, s'⟩
    · rw [slotFile] at hwrite
      simp only [hwrite]
      rfl
    · rw [slotFile] at hwrite
      simp only [hwrite]
      rfl

theorem Simulates.writeKinds (h : Simulates R w v) (outDir : Path) (a : Asset) (output : Output)
    (kinds : List ModuleKind) (written : WrittenPaths) (hs : R s t) :
    (w.writeKinds outDir a output kinds written s).1 =
        (v.writeKinds outDir a output kinds written t).1 ∧
      R (w.writeKinds outDir a output kinds written s).2
        (v.writeKinds outDir a output kinds written t).2 := by
  induction kinds generalizing written s t with
  | nil => exact ⟨rfl, hs⟩
  | cons kind kinds ih =>
    obtain ⟨hanswer, hstate⟩ := h s t hs (slotFile outDir a output kind)
    rw [writeKinds_cons, writeKinds_cons, ← hanswer]
    split
    · exact ih written hs
    · rcases (w.write s (slotFile outDir a output kind)).1 with f | ⟨⟩
      · exact ⟨rfl, hstate⟩
      · exact ih _ hstate

/-! ### The files of a bundle -/

/-- The files of the given kinds of a bundle, one for each that has text. -/
def slotFiles (outDir : Path) (a : Asset) (output : Output) (kinds : List ModuleKind) :
    List BundleFile :=
  (kinds.filter fun kind ↦ !(output.get kind).isEmpty).map (slotFile outDir a output)

theorem slotFiles_cons_of_isEmpty {a : Asset} {output : Output} {kind : ModuleKind}
    (h : (output.get kind).isEmpty) (kinds : List ModuleKind) :
    slotFiles outDir a output (kind :: kinds) = slotFiles outDir a output kinds := by
  rw [slotFiles, List.filter_cons_of_neg (by simpa using h), slotFiles]

theorem slotFiles_cons_of_not_isEmpty {a : Asset} {output : Output} {kind : ModuleKind}
    (h : ¬ (output.get kind).isEmpty) (kinds : List ModuleKind) :
    slotFiles outDir a output (kind :: kinds) =
      slotFile outDir a output kind :: slotFiles outDir a output kinds := by
  rw [slotFiles, List.filter_cons_of_pos (by simpa using h), List.map_cons, slotFiles]

/-- Writes files in order until one is refused. -/
def checkFiles (verdict : BundleFile → Outcome Unit) (a : Asset) (files : List BundleFile) :
    Outcome Unit :=
  files.forM fun file ↦ Outcome.inStep (stepOfFile a file.kind) (verdict file)

theorem checkFiles_cons (verdict : BundleFile → Outcome Unit) (a : Asset) (file : BundleFile)
    (files : List BundleFile) :
    checkFiles verdict a (file :: files) =
      Outcome.inStep (stepOfFile a file.kind) (verdict file) >>= fun _ ↦
        checkFiles verdict a files :=
  rfl

/-- The files before the first that is refused. -/
def accepted (verdict : BundleFile → Outcome Unit) (files : List BundleFile) : List BundleFile :=
  files.takeWhile fun file ↦ (verdict file).isOk

theorem accepted_cons (verdict : BundleFile → Outcome Unit) (file : BundleFile)
    (files : List BundleFile) :
    accepted verdict (file :: files) = accepted verdict [file] ++
      if (verdict file).isOk then accepted verdict files else [] := by
  rw [accepted, accepted, List.takeWhile_cons, List.takeWhile_cons]
  split
  · rfl
  · rfl

/-- **A bundle is written in order up to the first file that is refused.** -/
theorem writeKinds_deciding (verdict : BundleFile → Outcome Unit) (outDir : Path) (a : Asset)
    (output : Output) (kinds : List ModuleKind) (written : WrittenPaths) (files : List BundleFile) :
    Outcome.check ((deciding verdict).writeKinds outDir a output kinds written files).1 =
        checkFiles verdict a (slotFiles outDir a output kinds) ∧
      ((deciding verdict).writeKinds outDir a output kinds written files).2 =
        files ++ accepted verdict (slotFiles outDir a output kinds) := by
  induction kinds generalizing written files with
  | nil => exact ⟨rfl, (List.append_nil files).symm⟩
  | cons kind kinds ih =>
    rw [writeKinds_cons]
    by_cases hempty : (output.get kind).isEmpty
    · rw [if_pos hempty, slotFiles_cons_of_isEmpty hempty]
      exact ih written files
    · rw [if_neg hempty, slotFiles_cons_of_not_isEmpty hempty, checkFiles_cons, accepted]
      rcases hverdict : verdict (slotFile outDir a output kind) with f | ⟨⟩
      · rw [write_deciding_of_error hverdict, List.takeWhile_cons_of_neg (by rw [hverdict]; nofun),
          List.append_nil]
        exact ⟨rfl, rfl⟩
      · obtain ⟨hcheck, hstate⟩ := ih
          (written.set kind (placeOfFile outDir (slotFile outDir a output kind)))
          (files ++ [slotFile outDir a output kind])
        rw [write_deciding_of_ok hverdict, List.takeWhile_cons_of_pos (by rw [hverdict]; rfl)]
        refine ⟨hcheck, ?_⟩
        rw [hstate, List.append_assoc, List.singleton_append, accepted]

theorem Simulates.writePage (h : Simulates R w v) (outDir : Path) (b : PageBundle) (hs : R s t) :
    (w.writePage outDir b s).1 = (v.writePage outDir b t).1 ∧
      R (w.writePage outDir b s).2 (v.writePage outDir b t).2 := by
  obtain ⟨hanswer, hstate⟩ :=
    h.writeKinds outDir b.page b.output ModuleKind.all .empty hs
  exact ⟨congrArg (Except.map _) hanswer, hstate⟩

end Writer

/-! ### Walks -/

section walk

variable {σ : Type} (p : Packagers) (w : Writer σ) (outDir : Path)

/-- Packages a page and writes it, if packaging succeeds. -/
def finishPage (t : AssetTree) (s : σ) : Outcome (PageBundle × ManifestEntry) × σ :=
  match (p.packagePage t).result with
  | .error f => (.error f, s)
  | .ok b => ((w.writePage outDir b s).1.map fun e ↦ (b, e), (w.writePage outDir b s).2)

/-- A walk over pages takes one after the other. -/
theorem packagePages_cons (t : AssetTree) (ts : List AssetTree) (s : σ) :
    packagePages p w outDir (t :: ts) s =
      ⟨(finishPage p w outDir t s).1 >>= fun x ↦
          (packagePages p w outDir ts (finishPage p w outDir t s).2).result >>= fun xs ↦
            .ok (x :: xs),
        (p.packagePage t).modules ++
          (packagePages p w outDir ts (finishPage p w outDir t s).2).modules,
        (packagePages p w outDir ts (finishPage p w outDir t s).2).state⟩ := by
  rw [packagePages, finishPage]
  rcases (p.packagePage t).result with f | b <;> rfl

end walk

/-- Two walks come to the same, in related states. -/
structure Walk.Alike {σ τ α : Type} (R : σ → τ → Prop) (x : Walk σ α) (y : Walk τ α) : Prop where
  result : x.result = y.result
  modules : x.modules = y.modules
  state : R x.state y.state

namespace Writer.Simulates

variable {σ τ : Type} {R : σ → τ → Prop} {w : Writer σ} {v : Writer τ} {s : σ} {t : τ}

theorem finishPage (h : Simulates R w v) (p : Packagers) (outDir : Path) (page : AssetTree)
    (hs : R s t) :
    (finishPage p w outDir page s).1 = (finishPage p v outDir page t).1 ∧
      R (finishPage p w outDir page s).2 (finishPage p v outDir page t).2 := by
  rw [AppletBundle.finishPage, AppletBundle.finishPage]
  rcases (p.packagePage page).result with f | b
  · exact ⟨rfl, hs⟩
  · obtain ⟨hentry, hstate⟩ := h.writePage outDir b hs
    exact ⟨congrArg (Except.map _) hentry, hstate⟩

theorem packagePages (h : Simulates R w v) (p : Packagers) (outDir : Path)
    (pages : List AssetTree) (hs : R s t) :
    Walk.Alike R (packagePages p w outDir pages s) (packagePages p v outDir pages t) := by
  induction pages generalizing s t with
  | nil => exact ⟨rfl, rfl, hs⟩
  | cons page pages ih =>
    obtain ⟨hpage, hwritten⟩ := h.finishPage p outDir page hs
    obtain ⟨hresult, hmodules, hstate⟩ := ih hwritten
    rw [packagePages_cons, packagePages_cons, hpage, hresult, hmodules]
    exact ⟨rfl, rfl, hstate⟩

theorem packageTree (h : Simulates R w v) (p : Packagers) (outDir : Path) (app : Asset)
    (pages : List AssetTree) (hs : R s t) :
    Walk.Alike R (packageTree p w outDir app pages s) (packageTree p v outDir app pages t) := by
  obtain ⟨hresult, hmodules, hstate⟩ := h.packagePages p outDir pages hs
  rw [AppletBundle.packageTree, AppletBundle.packageTree, ← hresult, ← hmodules]
  rcases (AppletBundle.packagePages p w outDir pages s).result with f | bundles
  · exact ⟨rfl, rfl, hstate⟩
  · rcases hown : (p.packageApp app).result with f | packaged
    · simp only [hown]
      exact ⟨rfl, rfl, hstate⟩
    · obtain ⟨hpaths, hwritten⟩ := h.writeKinds outDir app packaged.output
        ModuleKind.all .empty hstate
      simp only [hown]
      exact ⟨congrArg (Except.map _) hpaths, rfl, hwritten⟩

end Writer.Simulates

end AppletBundle
