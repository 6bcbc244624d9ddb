import AppletBundle.Bundle.Disk
import AppletBundle.Files.Collection
import AppletBundle.Proofs.Files.Ancestors

/-!
# Bundle files that are written

A bundle file without content or with a content that is rejected leaves the tree as it is, since it
is rendered before anything is touched. One that is written comes with the directories above it that
were missing, and nothing else is changed. The main result is `diskWriter_write`.
-/

namespace AppletBundle

open FileAction FileTree

variable {t t' : FileTree} {c : CodeTransform} {minify : Bool} {file : BundleFile}

/-- Markup is rendered as it is. -/
theorem render_markup (c : CodeTransform) (minify : Bool) (path : Path) (content : String) :
    render c minify path .markup content = .ok content := by
  unfold render
  rfl

/-- **A content that is rejected is not written.** -/
theorem writeBundleFile_of_error (hcontent : file.content ≠ "") {f : Failure}
    (hrender : render c minify file.path file.kind file.content = .error f) :
    (writeBundleFile c minify file).runOn t = (.error f, t) := by
  rw [writeBundleFile, if_neg (by simpa using hcontent), hrender]
  rfl

/-- **A content is rendered and written** with the directories above its path. -/
theorem written_of_writeBundleFile (hcontent : file.content ≠ "")
    (h : (writeBundleFile c minify file).runOn t = (.ok (), t')) :
    ∃ rendered, render c minify file.path file.kind file.content = .ok rendered ∧
      Written t t' file.path (.text rendered) := by
  rcases hrender : render c minify file.path file.kind file.content with f | rendered
  · rw [writeBundleFile_of_error hcontent hrender] at h
    cases h
  · rw [writeBundleFile, if_neg (by simpa using hcontent), hrender] at h
    -- rendering is the first step, and leaves the tree alone
    obtain ⟨rendered', t₀, hpure, h⟩ := bind_eq_ok.1 h
    obtain ⟨rfl, rfl⟩ := pure_eq_ok.1 hpure
    obtain ⟨⟨⟩, t₁, hmade, hwritten⟩ := bind_eq_ok.1 h
    exact ⟨rendered, rfl, written_of_makeParent hmade hwritten⟩

/-- **A bundle file is written as it is rendered, or nothing is done.** Without content, or with a
content that is rejected, the tree stays as it is. If a content is written, then it has been
rendered, markup as it is, and the file stands at its path; the directories above it that were
missing have been made, and nothing else has been changed. -/
theorem diskWriter_write (c : CodeTransform) (minify : Bool) (t : FileTree) (file : BundleFile) :
    (file.content = "" → (diskWriter c minify).write t file = (.ok (), t)) ∧
    (∀ f, file.content ≠ "" → render c minify file.path file.kind file.content = .error f →
      (diskWriter c minify).write t file = (.error f, t)) ∧
    (∀ t', file.content ≠ "" → (diskWriter c minify).write t file = (.ok (), t') →
      ∃ rendered, render c minify file.path file.kind file.content = .ok rendered ∧
        (file.kind = .markup → rendered = file.content) ∧
        Written t t' file.path (.text rendered)) := by
  refine ⟨fun hempty ↦ ?_, fun f hcontent hrender ↦ writeBundleFile_of_error hcontent hrender,
    fun t' hcontent h ↦ ?_⟩
  · show (writeBundleFile c minify file).runOn t = _
    rw [writeBundleFile, if_pos (by simpa using hempty)]
    rfl
  · obtain ⟨rendered, hrender, hwritten⟩ := written_of_writeBundleFile hcontent h
    refine ⟨rendered, hrender, fun hmarkup ↦ ?_, hwritten⟩
    rw [hmarkup, render_markup] at hrender
    exact (Except.ok.inj hrender).symm

/-- A script that is cut short leaves the working directory empty; a page below two directories
comes with them. -/
theorem diskWriter_write_below_workDir :
    (∃ f, (diskWriter .standard false).write (.bare ["app"]) ⟨⟨"out/app.js"⟩, .script, "let ("⟩ =
      (.error f, .bare ["app"])) ∧
    ∃ t', (diskWriter .standard false).write (.bare ["app"])
        ⟨⟨"out/pages/home.html"⟩, .markup, "<p>"⟩ = (.ok (), t') ∧
      Written (.bare ["app"]) t' ⟨"out/pages/home.html"⟩ (.text "<p>") := by
  constructor
  · rcases hrender : render .standard false ⟨"out/app.js"⟩ .script "let (" with f | rendered
    · exact ⟨f, (diskWriter_write .standard false _ _).2.1 f (by decide) hrender⟩
    · have hrejected : (render .standard false ⟨"out/app.js"⟩ .script "let (").isOk = false := by
        decide +kernel
      rw [hrender] at hrejected
      cases hrejected
  · have hok : ((diskWriter .standard false).write (.bare ["app"])
        ⟨⟨"out/pages/home.html"⟩, .markup, "<p>"⟩).1 = .ok () := by
      decide +kernel
    refine ⟨_, Prod.ext hok rfl, ?_⟩
    obtain ⟨rendered, -, hmarkup, hwritten⟩ :=
      (diskWriter_write .standard false _ _).2.2 _ (by decide) (Prod.ext hok rfl)
    obtain rfl := hmarkup rfl
    exact hwritten

end AppletBundle
