import AppletBundle.Proofs.Bundle.Traversal
import AppletBundle.Proofs.Schedule.Job
import Mathlib.Data.Multiset.Basic

/-!
# What siblings share

Packaging works on siblings side by side. All that the work on one shares with the work on another
is the graph, in which the packaging of a script leaves its selection, and the writer. So all that
such work does to others is in two requests: to package the script of an asset and to write a file
(`Request`).

Requests commute unless both are for the script of one asset (`commute_of_separate`). This is said
of what the requests leave, without the writer's own state and without the order of files (`Tally`):
if the answers of a writer depend on the file alone, nothing else can be told from them
(`Writer.Decides.views`).
-/

namespace AppletBundle

open AssetTree Script

/-! ### Requests -/

/-- What packaging asks for. -/
inductive Request where
  /-- To package the script of an asset. -/
  | script (id : AssetId)
  /-- To write a file of the bundle of an asset. -/
  | write (owner : AssetId) (file : BundleFile)

/-- The answers to a request. -/
abbrev Request.Answer : Request → Type
  | .script _ => Outcome PackagedScript
  | .write _ _ => Outcome Unit

/-- What all parts of packaging share. -/
structure Shared (σ : Type) where
  graph : AssetGraph
  /-- The files written so far, the latest first, each with the number of the asset to whose bundle
  it belongs. -/
  written : List (AssetId × BundleFile)
  /-- The state of the writer. -/
  state : σ

namespace AssetGraph

/-- The script of an asset is packaged as the graph has it by now. -/
def scriptWork (p : Packagers) (g : AssetGraph) (id : AssetId) : Work PackagedScript :=
  ((g.get? id).map p.scriptPart).getD (.done ⟨"", .empty⟩)

/-- The graph with the script of an asset as packaging it leaves it. -/
def withScriptOf (p : Packagers) (g : AssetGraph) (id : AssetId) : AssetGraph :=
  g.setModules ((scriptWork p g id).modules.map fun x ↦ (id, x.2))

end AssetGraph

open AssetGraph

/-- Requests are served in the shared graph and by the writer. -/
def serve {σ : Type} (p : Packagers) (w : Writer σ) : Handler Request.Answer (Shared σ)
  | .script id, s =>
    ((scriptWork p s.graph id).result, { s with graph := withScriptOf p s.graph id })
  | .write owner file, s =>
    let (answer, state) := w.write s.state file
    (answer, ⟨s.graph, if answer.isOk then (owner, file) :: s.written else s.written, state⟩)

/-- What counts of a shared state: the writer's own state does not, nor does the order of files. -/
abbrev Tally : Type :=
  AssetGraph × Multiset (AssetId × BundleFile)

/-- The tally of a shared state. -/
def Shared.tally {σ : Type} (s : Shared σ) : Tally :=
  (s.graph, s.written)

/-- One more file, if it is accepted. -/
def addFile (verdict : BundleFile → Outcome Unit) (owner : AssetId) (file : BundleFile)
    (files : Multiset (AssetId × BundleFile)) : Multiset (AssetId × BundleFile) :=
  if (verdict file).isOk then (owner, file) ::ₘ files else files

/-- What requests do to the tally if a verdict decides on files. -/
def serveTally (p : Packagers) (verdict : BundleFile → Outcome Unit) : Handler Request.Answer Tally
  | .script id, s => ((scriptWork p s.1 id).result, (withScriptOf p s.1 id, s.2))
  | .write owner file, s =>
    (verdict file, (s.1, addFile verdict owner file s.2))

/-- A tally can be kept without the writer if its answers depend on files alone. -/
theorem Writer.Decides.views {σ : Type} {w : Writer σ} {verdict : BundleFile → Outcome Unit}
    (h : w.Decides verdict) (p : Packagers) :
    Job.Views Shared.tally (serve p w) (serveTally p verdict) := by
  rintro (id | ⟨owner, file⟩) s
  · exact ⟨rfl, rfl⟩
  · have hanswer := h s.state file
    refine ⟨hanswer, ?_⟩
    show (⟨s.graph, if (w.write s.state file).1.isOk then (owner, file) :: s.written else s.written,
      (w.write s.state file).2⟩ : Shared σ).tally = _
    rw [hanswer, serveTally, addFile, Shared.tally, Shared.tally]
    rcases verdict file with f | ⟨⟩ <;> rfl

/-! ### Requests that commute -/

namespace AssetGraph

variable {g : AssetGraph} {modules : List (AssetId × ScriptModule)} {i j : AssetId}

theorem modify_comm (hij : i ≠ j) (f f' : Asset → Asset) :
    (g.modify i f).modify j f' = (g.modify j f').modify i f := by
  have hnodes : (g.nodes.modify i f).modify j f' = (g.nodes.modify j f').modify i f := by
    refine List.ext_getElem? fun k ↦ ?_
    rw [List.getElem?_modify, List.getElem?_modify, List.getElem?_modify, List.getElem?_modify]
    rcases g.nodes[k]? with - | a
    · rfl
    · refine congrArg some ?_
      show (if j = k then f' (if i = k then f a else a) else if i = k then f a else a) =
        if i = k then f (if j = k then f' a else a) else if j = k then f' a else a
      by_cases hi : i = k
      · have hj : ¬ j = k := fun hj ↦ hij (hi.trans hj.symm)
        rw [if_pos hi, if_neg hj, if_neg hj, if_pos hi]
      · rw [if_neg hi, if_neg hi]
  exact congrArg (fun nodes ↦ AssetGraph.mk nodes g.root) hnodes

/-- Modules of other assets are nothing to an asset. -/
theorem get?_setModules_of_ne (h : ∀ x ∈ modules, x.1 ≠ i) :
    (g.setModules modules).get? i = g.get? i := by
  induction modules generalizing g with
  | nil => rfl
  | cons x modules ih =>
    obtain ⟨hx, hmodules⟩ := List.forall_mem_cons.1 h
    refine (ih hmodules).trans ?_
    rw [get?_modify]
    simp only [if_neg hx, Option.map_id_fun']
    rfl

theorem setModules_modify (h : ∀ x ∈ modules, x.1 ≠ i) (f : Asset → Asset) :
    (g.modify i f).setModules modules = (g.setModules modules).modify i f := by
  induction modules generalizing g with
  | nil => rfl
  | cons x modules ih =>
    obtain ⟨hx, hmodules⟩ := List.forall_mem_cons.1 h
    show ((g.modify i f).modify x.1 _).setModules modules = _
    rw [modify_comm hx.symm]
    exact ih hmodules

theorem setModules_comm {modules' : List (AssetId × ScriptModule)}
    (h : ∀ x ∈ modules, ∀ y ∈ modules', x.1 ≠ y.1) :
    (g.setModules modules).setModules modules' = (g.setModules modules').setModules modules := by
  induction modules generalizing g with
  | nil => rfl
  | cons x modules ih =>
    obtain ⟨hx, hmodules⟩ := List.forall_mem_cons.1 h
    refine (ih hmodules).trans ?_
    rw [setModules_modify fun y hy ↦ (hx y hy).symm]
    rfl

end AssetGraph

variable {p : Packagers} {verdict : BundleFile → Outcome Unit}

/-- The scripts of different assets have nothing to do with each other. -/
theorem commute_script {i j : AssetId} (hij : i ≠ j) :
    Job.Commute (serveTally p verdict) (.script i) (.script j) := by
  have hother : ∀ {i j : AssetId}, i ≠ j → ∀ g,
      scriptWork p (withScriptOf p g i) j = scriptWork p g j := by
    intro i j hij g
    rw [scriptWork, withScriptOf, get?_setModules_of_ne, scriptWork]
    intro x hx
    obtain ⟨y, -, rfl⟩ := List.mem_map.1 hx
    exact hij
  have htwice : ∀ {i j : AssetId}, i ≠ j → ∀ g, withScriptOf p (withScriptOf p g i) j =
      (withScriptOf p g i).setModules ((scriptWork p g j).modules.map fun x ↦ (j, x.2)) := by
    intro i j hij g
    rw [withScriptOf, hother hij]
  refine ⟨fun s ↦ ?_, fun s ↦ ?_, fun s ↦ ?_⟩
  · refine congrArg (·, s.2) ?_
    show withScriptOf p (withScriptOf p s.1 i) j = withScriptOf p (withScriptOf p s.1 j) i
    rw [htwice hij, htwice hij.symm]
    refine setModules_comm fun x hx y hy ↦ ?_
    obtain ⟨-, -, rfl⟩ := List.mem_map.1 hx
    obtain ⟨-, -, rfl⟩ := List.mem_map.1 hy
    exact hij
  · exact congrArg Work.result (hother hij.symm s.1)
  · exact congrArg Work.result (hother hij s.1)

theorem addFile_comm (owner owner' : AssetId) (file file' : BundleFile)
    (files : Multiset (AssetId × BundleFile)) :
    addFile verdict owner' file' (addFile verdict owner file files) =
      addFile verdict owner file (addFile verdict owner' file' files) := by
  rw [addFile, addFile, addFile, addFile]
  split <;> split
  · exact Multiset.cons_swap _ _ _
  all_goals rfl

/-- Requests commute unless both are for the script of one asset. -/
theorem commute_of_separate {q r : Request} (h : ∀ id, q = .script id → r ≠ .script id) :
    Job.Commute (serveTally p verdict) q r := by
  rcases q with i | ⟨owner, file⟩ <;> rcases r with j | ⟨owner', file'⟩
  · exact commute_script fun hij ↦ h i rfl (hij ▸ rfl)
  · exact ⟨fun _ ↦ rfl, fun _ ↦ rfl, fun _ ↦ rfl⟩
  · exact ⟨fun _ ↦ rfl, fun _ ↦ rfl, fun _ ↦ rfl⟩
  · exact ⟨fun s ↦ congrArg (s.1, ·) (addFile_comm ..), fun _ ↦ rfl, fun _ ↦ rfl⟩

end AppletBundle
