import AppletBundle.CommandLine.Run
import AppletBundle.Proofs.Ordered.Set
import Mathlib.Data.List.DropRight

/-!
# Precedence of settings

A configuration is made in seven layers. Read from the highest down they are what the options ask
for, the file that is named among them, the environment, the files of the project, of the user and
of the system, and the standard configuration. `Config.sources` lists them for a run, and
`Config.ofLayers` says in one step what they come to: each setting has the value of the first layer
that sets it, and the global names of all layers are joined.

The code goes the other way. It starts from the lowest layer, lays one over the other, and after
each file strips the dots from the extensions. That this comes to the same rests on two facts.

* `withoutDots_applyTo_ofLayers` is the step: one layer more on top of those that are there.
* Dots that were stripped are not there to be stripped again (`withoutDots_ofLayers`), so it does
  not matter after which layers that happens.

The main result is `load_precedence`.
-/

namespace AppletBundle

namespace Config

/-! ### What layers come to -/

/-- An extension without the dots in front of it. -/
def stripDots (extension : String) : String :=
  .ofList (extension.toList.dropWhile (· == '.'))

/-- The configuration without dots in front of its extensions. -/
def withoutDots (c : Config) : Config :=
  { c with extensions :=
      ⟨stripDots c.extensions.script, stripDots c.extensions.markup, stripDots c.extensions.style⟩ }

/-- The global names that a layer sets. -/
def Layer.globalNames (l : Layer) : List String :=
  (l.knownGlobals.map OrderedSet.toList).getD []

/-- The configuration that layers come to, the highest first. Each setting has the value of the
first layer that sets it, or else its standard value, extensions without dots in front; the global
names of all layers are joined. -/
def ofLayers (ls : List Layer) : Config where
  project := (ls.findSome? Layer.project).getD standard.project
  outDir := (ls.findSome? Layer.outDir).getD standard.outDir
  minify := (ls.findSome? Layer.minify).getD standard.minify
  treeShaking := (ls.findSome? Layer.treeShaking).getD standard.treeShaking
  knownGlobals := .ofList (ls.flatMap Layer.globalNames)
  runtimeDir := ls.findSome? Layer.runtimeDir
  extensions :=
    ⟨stripDots ((ls.findSome? Layer.scriptExtension).getD standard.extensions.script),
     stripDots ((ls.findSome? Layer.markupExtension).getD standard.extensions.markup),
     stripDots ((ls.findSome? Layer.styleExtension).getD standard.extensions.style)⟩

theorem stripDots_stripDots (extension : String) :
    stripDots (stripDots extension) = stripDots extension := by
  simp only [stripDots, String.toList_ofList, List.dropWhile_idempotent]

theorem ofLayers_nil : ofLayers [] = standard := by
  decide

theorem withoutDots_ofLayers (ls : List Layer) : (ofLayers ls).withoutDots = ofLayers ls := by
  simp only [withoutDots, ofLayers, stripDots_stripDots]

/-- The value of a setting with one layer more on top. -/
theorem getD_findSome?_cons {α : Type} (key : Layer → Option α) (l : Layer) (ls : List Layer)
    (low : α) :
    ((l :: ls).findSome? key).getD low = (key l).getD ((ls.findSome? key).getD low) := by
  rw [List.findSome?_cons]
  cases key l <;> rfl

/-- **One layer more.** Laid over what layers come to, and with the dots stripped, it gives what
these layers come to with it on top. -/
theorem withoutDots_applyTo_ofLayers (l : Layer) (ls : List Layer) :
    (l.applyTo (ofLayers ls)).withoutDots = ofLayers (l :: ls) := by
  have hdots : ∀ (setting : Option String) (low : String),
      stripDots (setting.getD (stripDots low)) = stripDots (setting.getD low) := by
    intro setting low
    cases setting with
    | none => exact stripDots_stripDots low
    | some high => rfl
  have hglobals : (overlaySet l.knownGlobals (some (ofLayers ls).knownGlobals)).getD
      (ofLayers ls).knownGlobals = .ofList ((l :: ls).flatMap Layer.globalNames) := by
    rw [List.flatMap_cons, Layer.globalNames]
    cases hl : l.knownGlobals with
    | none => rfl
    | some names => exact OrderedSet.insertAll_ofList names _
  simp only [withoutDots, Layer.applyTo, hglobals]
  simp only [ofLayers, getD_findSome?_cons, hdots, overlay]
  cases hruntime : l.runtimeDir <;> simp [hruntime]

/-- A layer that sets no extension leaves the extensions as they are. -/
theorem applyTo_ofLayers_of_extensions_eq_none {l : Layer} (hscript : l.scriptExtension = none)
    (hmarkup : l.markupExtension = none) (hstyle : l.styleExtension = none) (ls : List Layer) :
    l.applyTo (ofLayers ls) = ofLayers (l :: ls) := by
  have hkeeps : (l.applyTo (ofLayers ls)).withoutDots = l.applyTo (ofLayers ls).withoutDots := by
    simp only [withoutDots, Layer.applyTo, hscript, hmarkup, hstyle, Option.getD_none]
  rw [← withoutDots_applyTo_ofLayers, hkeeps, withoutDots_ofLayers]

/-! ### Valid configurations -/

theorem eq_stripDots_of_normalizeOne {kind : ModuleKind} {extension result : String}
    (h : Extensions.normalizeOne kind extension = .ok result) : result = stripDots extension := by
  simp only [Extensions.normalizeOne] at h
  split at h
  · cases h
  · split at h
    · cases h
    · exact (Except.ok.inj h).symm

/-- What has been checked has lost the dots in front of its extensions, and nothing else. -/
theorem eq_withoutDots_of_validate {c c' : Config} (h : c.validate = .ok c') :
    c' = c.withoutDots := by
  obtain ⟨extensions, hext, h⟩ := Outcome.bind_eq_ok.1 h
  obtain ⟨script, hscript, hext⟩ := Outcome.bind_eq_ok.1 hext
  obtain ⟨markup, hmarkup, hext⟩ := Outcome.bind_eq_ok.1 hext
  obtain ⟨style, hstyle, hext⟩ := Outcome.bind_eq_ok.1 hext
  split at hext
  · cases hext
  · cases hext
    split at h
    · cases h
    · cases h
      rw [eq_stripDots_of_normalizeOne hscript, eq_stripDots_of_normalizeOne hmarkup,
        eq_stripDots_of_normalizeOne hstyle]
      rfl

/-! ### The sources of a run -/

/-- The layers of the files for a place: one if something is there, which then has to be a file of
settings. -/
def fileLayers (files : FileTree) (path : Option Path) : Outcome (List Layer) :=
  (path.toList.filter files.contains).mapM (Layer.ofFile files)

/-- A file for a place is laid over what layers come to. -/
theorem exists_fileLayers_of_overlayFile {files : FileTree} {label : String} {path : Path}
    {ls : List Layer} {c : Config} (h : overlayFile files label path (ofLayers ls) = .ok c) :
    ∃ ms, fileLayers files (some path) = .ok ms ∧ c = ofLayers (ms ++ ls) := by
  rw [overlayFile] at h
  split at h
  · rename_i hthere
    obtain ⟨l, hl, hc⟩ := Outcome.bind_eq_ok.1 h
    rw [Outcome.inStep_eq_ok] at hl hc
    refine ⟨[l], ?_, ?_⟩
    · simp [fileLayers, hthere, hl]
    · rw [eq_withoutDots_of_validate hc, withoutDots_applyTo_ofLayers]
      rfl
  · rename_i hthere
    cases h
    exact ⟨[], by simp [fileLayers, hthere, pure, Except.pure], rfl⟩

theorem exists_fileLayers_of_overlayFile? {files : FileTree} {label : String} {path : Option Path}
    {ls : List Layer} {c : Config} (h : overlayFile? files label path (ofLayers ls) = .ok c) :
    ∃ ms, fileLayers files path = .ok ms ∧ c = ofLayers (ms ++ ls) := by
  cases path with
  | none =>
    cases h
    exact ⟨[], rfl, rfl⟩
  | some path => exact exists_fileLayers_of_overlayFile h

theorem exists_fileLayers_of_overlayNamed {files : FileTree} {named : Option Path}
    {ls : List Layer} {c : Config} (h : overlayNamed files named (ofLayers ls) = .ok c) :
    ∃ ms, fileLayers files named = .ok ms ∧ c = ofLayers (ms ++ ls) := by
  cases named with
  | none =>
    cases h
    exact ⟨[], rfl, rfl⟩
  | some path =>
    rw [overlayNamed] at h
    split at h
    · exact exists_fileLayers_of_overlayFile h
    · cases h

end Config

namespace CommandLine

open Config

/-- What the options ask for, as a layer. A switch can only be turned on. -/
def Options.layer (o : Options) : Layer :=
  { Layer.empty with
    project := o.project
    outDir := o.outDir
    runtimeDir := o.runtimeDir
    minify := if o.minify then some true else .none
    treeShaking := if o.noTreeShaking then some false else .none }

theorem Options.applyTo_eq (o : Options) (c : Config) : o.applyTo c = o.layer.applyTo c := by
  have hminify : (o.minify || c.minify) = o.layer.minify.getD c.minify := by
    rw [Options.layer]
    cases o.minify <;> rfl
  have hshaking : (!o.noTreeShaking && c.treeShaking) = o.layer.treeShaking.getD c.treeShaking := by
    rw [Options.layer]
    cases o.noTreeShaking <;> rfl
  rw [Options.applyTo, hminify, hshaking]
  rfl

/-- The layers of a run above the standard configuration, the highest first. -/
def Options.sources (o : Options) (env : Environment) (files : FileTree) :
    Outcome (List Layer) := do
  let named ← fileLayers files o.config
  let project ← fileLayers files (projectFile? files (o.project.getD Config.standard.project))
  let user ← fileLayers files (userFile? env)
  let system ← fileLayers files (systemFile? env files)
  return o.layer :: (named ++ env.layer :: (project ++ (user ++ system)))

/-- **Settings have one precedence.** If the configuration of a run can be loaded, its sources can
be read, and with the options laid over it it is what the sources come to: every setting has the
value of the highest source that sets it, whatever the others say, and the global names are those of
all sources, the highest first, each at the place of its first occurrence. -/
theorem Options.load_precedence {o : Options} {env : Environment} {files : FileTree} {c : Config}
    (h : Config.load env files o.config (o.project.getD Config.standard.project) = .ok c) :
    ∃ ls, o.sources env files = .ok ls ∧ o.applyTo c = ofLayers ls ∧
      (o.applyTo c).knownGlobals.toList = (ls.flatMap Layer.globalNames).eraseDups := by
  obtain ⟨c₁, h₁, h⟩ := Outcome.bind_eq_ok.1 h
  rw [← ofLayers_nil] at h₁
  obtain ⟨system, hsystem, rfl⟩ := exists_fileLayers_of_overlayFile? h₁
  obtain ⟨c₂, h₂, h⟩ := Outcome.bind_eq_ok.1 h
  obtain ⟨user, huser, rfl⟩ := exists_fileLayers_of_overlayFile? h₂
  obtain ⟨c₃, h₃, h⟩ := Outcome.bind_eq_ok.1 h
  obtain ⟨project, hproject, rfl⟩ := exists_fileLayers_of_overlayFile? h₃
  obtain ⟨c₄, h₄, h⟩ := Outcome.bind_eq_ok.1 h
  rw [applyTo_ofLayers_of_extensions_eq_none rfl rfl rfl] at h₄
  obtain ⟨named, hnamed, rfl⟩ := exists_fileLayers_of_overlayNamed h₄
  rw [Outcome.inStep_eq_ok] at h
  have hc := eq_withoutDots_of_validate h
  rw [withoutDots_ofLayers, List.append_nil] at hc
  have hmade : o.applyTo c = ofLayers
      (o.layer :: (named ++ env.layer :: (project ++ (user ++ system)))) := by
    rw [o.applyTo_eq, hc, applyTo_ofLayers_of_extensions_eq_none rfl rfl rfl]
  refine ⟨_, ?_, hmade, ?_⟩
  · simp only [Options.sources, hnamed, hproject, huser, hsystem]
    rfl
  · rw [hmade, ofLayers, OrderedSet.toList_ofList]

/-- Settings of the user, of a project and in a file that is named among the options. -/
def layeredTree : FileTree where
  entries :=
    [(["home"], .directory), (["home", ".config"], .directory),
     (["home", ".config", "pagoda"], .directory),
     (["home", ".config", "pagoda", "pagoda.toml"],
       .file (.text "out-dir = \"user\"\ntree-shaking = false\nknown-globals = [\"tt\", \"wx\"]\n")),
     (["shop"], .directory),
     (["shop", "pagoda.toml"],
       .file (.text "out-dir = \"dist\"\nminify = false\n[extensions]\nscript = \"..ts\"\n")),
     (["ci.toml"], .file (.text "tree-shaking = true\nknown-globals = [\"my\"]\n"))]
  workDir := []

def layeredEnvironment : Environment :=
  .ofList [("HOME", "/home"), ("PAGODA_MINIFY", "no"), ("PAGODA_KNOWN_GLOBALS", "wx, my, qq")]

def layeredOptions : Options :=
  { Options.none with project := some ⟨"shop"⟩, config := some ⟨"ci.toml"⟩, minify := true }

/-- What the files and the environment come to. -/
def layeredConfig : Config where
  project := ⟨"."⟩
  outDir := ⟨"dist"⟩
  minify := false
  treeShaking := true
  knownGlobals := .ofList ["my", "wx", "qq", "tt"]
  runtimeDir := none
  extensions := ⟨"ts", "wxml", "wxss"⟩

theorem load_precedence_layered :
    Config.load layeredEnvironment layeredTree layeredOptions.config
        (layeredOptions.project.getD Config.standard.project) = .ok layeredConfig ∧
      ∃ ls, layeredOptions.sources layeredEnvironment layeredTree = .ok ls ∧
        layeredOptions.applyTo layeredConfig = ofLayers ls ∧
        (layeredOptions.applyTo layeredConfig).minify = true := by
  have hload : Config.load layeredEnvironment layeredTree layeredOptions.config
      (layeredOptions.project.getD Config.standard.project) = .ok layeredConfig := by
    have hsome : (Config.load layeredEnvironment layeredTree layeredOptions.config
        (layeredOptions.project.getD Config.standard.project)).toOption = some layeredConfig := by
      decide +kernel
    generalize Config.load layeredEnvironment layeredTree layeredOptions.config
      (layeredOptions.project.getD Config.standard.project) = loaded at hsome ⊢
    cases loaded with
    | error f => cases hsome
    | ok c => exact congrArg Except.ok (Option.some.inj hsome)
  obtain ⟨ls, hls, hmade, -⟩ := Options.load_precedence hload
  exact ⟨hload, ls, hls, hmade, rfl⟩

end CommandLine

end AppletBundle
