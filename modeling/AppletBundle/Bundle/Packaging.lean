import AppletBundle.Asset.Tree
import AppletBundle.Asset.Validity
import AppletBundle.Bundle.Context
import AppletBundle.Bundle.File
import AppletBundle.Bundle.Packager

/-!
# Packaging

A graph is packaged from the bottom up. Every component below a page contributes its own output, its
descendants before it; the page takes each contribution once for every identity, adds its own output
and is written. The bundle of the app holds the app's own script and style only and is written after
all pages.

The work on one asset does not depend on that on another, so siblings are all worked on even if one
of them fails; among several failures the one of the first sibling counts. Outputs, imports and the
record of the build change only when everything has succeeded. What stays behind in any case are the
written files and the selections that were recorded on modules.
-/

namespace AppletBundle

open AppletBundle.Script

/-! ### Work on assets -/

/-- The result of work on assets, and the script modules of these as the work leaves them. -/
structure Work (α : Type) where
  result : Outcome α
  modules : List (AssetId × ScriptModule)

namespace Work

/-- Work that is done. -/
def done {α : Type} (a : α) : Work α :=
  ⟨.ok a, []⟩

/-- Work that has failed. -/
def failed {α : Type} (f : Failure) : Work α :=
  ⟨.error f, []⟩

/-- Work followed by more work unless it fails. -/
def andThen {α β : Type} (w : Work α) (next : α → Work β) : Work β :=
  match w.result with
  | .error f => ⟨.error f, w.modules⟩
  | .ok a =>
    let v := next a
    ⟨v.result, w.modules ++ v.modules⟩

/-- Pieces of work that are all done, with the first failure among them. -/
def all {α : Type} : List (Work α) → Work (List α)
  | [] => done []
  | w :: ws =>
    let rest := all ws
    ⟨do return (← w.result) :: (← rest.result), w.modules ++ rest.modules⟩

end Work

/-- The output and the imports of an asset. -/
structure PackagedAsset where
  id : AssetId
  output : Output
  dependencies : OrderedSet ExternalImport

/-- The output of a component itself. -/
structure Contribution where
  identity : String
  output : Output

/-- What comes of a component and everything below it. -/
structure Subtree where
  assets : List PackagedAsset
  /-- The contributions, those of descendants first. -/
  contributions : List Contribution

/-- What comes of a page and everything below it. -/
structure PageBundle where
  /-- The page. -/
  page : Asset
  route : String
  /-- The output of the whole bundle. -/
  output : Output
  /-- The page and everything below it. -/
  assets : List PackagedAsset

/-- The text with a line feed at its end, unless it is empty. -/
def terminated (code : String) : String :=
  if code.isEmpty || code.endsWith "\n" then code else code ++ "\n"

namespace Packagers

/-- Packages the script of an asset. -/
def scriptPart (p : Packagers) (a : Asset) : Work PackagedScript :=
  match a.siblings.script with
  | none => .done ⟨"", .empty⟩
  | some m =>
    let (result, m) := p.script a m
    ⟨Outcome.inStep ("Failed to package script of " ++ a.describe) result, [(a.id, m)]⟩

/-- Compiles and registers the markup of an asset. -/
def markupPart (p : Packagers) (a : Asset) : Outcome String :=
  match a.siblings.markup with
  | none => .ok ""
  | some m =>
    Outcome.inStep ("Failed to compile markup of " ++ a.describe) <|
      (p.markup a m).map (registration a)

/-- Packages the style of an asset. -/
def stylePart (p : Packagers) (a : Asset) : Outcome String :=
  match a.siblings.style with
  | none => .ok ""
  | some m =>
    Outcome.inStep ("Failed to package style of " ++ a.describe) ((p.style a m).map terminated)

/-- Packages the modules of a page or component itself: markup, script and style. -/
def packageOwn (p : Packagers) (a : Asset) : Work PackagedAsset :=
  Work.andThen ⟨p.markupPart a, []⟩ fun markup ↦
    (p.scriptPart a).andThen fun script ↦
      ⟨(p.stylePart a).map fun style ↦
        ⟨a.id, ⟨terminated script.code, style, markup⟩, script.dependencies⟩, []⟩

/-- A failure for an asset at a place for another kind. -/
def unexpected {α : Type} (a : Asset) (place : String) : Outcome α :=
  AssetGraph.invalid a.identity <|
    a.kind.label ++ " found where a " ++ place ++ " was expected"

mutual

/-- Packages a component and everything below it. -/
def packageComponent (p : Packagers) : AssetTree → Work Subtree
  | .node a children =>
    match a.kind with
    | .component _ =>
      (p.packageOwn a).andThen fun own ↦
        (Work.all (p.packageComponents children)).andThen fun below ↦
          .done
            ⟨below.flatMap Subtree.assets ++ [own],
             below.flatMap Subtree.contributions ++ [⟨a.identity, own.output⟩]⟩
    | _ => ⟨unexpected a "component", []⟩

/-- Packages components next to each other. -/
def packageComponents (p : Packagers) : List AssetTree → List (Work Subtree)
  | [] => []
  | t :: ts => p.packageComponent t :: p.packageComponents ts

end

/-- The contributions that are the first of their identity. -/
def firstOfIdentity (seen : List String) : List Contribution → List Contribution
  | [] => []
  | c :: cs =>
    if c.identity ∈ seen then firstOfIdentity seen cs
    else c :: firstOfIdentity (c.identity :: seen) cs

/-- Outputs one after another. -/
def concatOutputs (os : List Output) : Output :=
  os.foldl Output.append .empty

/-- Packages a page and everything below it. -/
def packagePage (p : Packagers) : AssetTree → Work PageBundle
  | .node a children =>
    match a.kind with
    | .page route =>
      (Work.all (p.packageComponents children)).andThen fun below ↦
        (p.packageOwn a).andThen fun own ↦
          let taken := firstOfIdentity [] (below.flatMap Subtree.contributions)
          let output := (concatOutputs (taken.map Contribution.output)).append own.output
          .done
            ⟨a, route, output,
             below.flatMap Subtree.assets ++ [⟨a.id, output, own.dependencies⟩]⟩
    | _ => ⟨unexpected a "page", []⟩

/-- Packages the modules of the app. Its style is not scoped. -/
def packageApp (p : Packagers) (a : Asset) : Work PackagedAsset :=
  (p.scriptPart a).andThen fun script ↦
    let style := (a.siblings.style.map SourceModule.source).getD ""
    .done ⟨a.id, ⟨terminated script.code, terminated style, ""⟩, script.dependencies⟩

end Packagers

/-! ### Writing -/

/-- A place for bundle files with a state of its own. -/
structure Writer (σ : Type) where
  write : σ → BundleFile → Outcome Unit × σ

/-- The paths of the files of a bundle that were written, from the directory of the bundles. -/
structure WrittenPaths where
  script : Option Path
  style : Option Path
  markup : Option Path

namespace WrittenPaths

/-- No file was written. -/
def empty : WrittenPaths :=
  ⟨none, none, none⟩

/-- One more file was written. -/
def set (w : WrittenPaths) (kind : ModuleKind) (path : Path) : WrittenPaths :=
  match kind with
  | .script => { w with script := some path }
  | .style => { w with style := some path }
  | .markup => { w with markup := some path }

end WrittenPaths

namespace Writer

variable {σ : Type}

/-- Writes the files of the given kinds for which there is text, until one cannot be written. -/
def writeKinds (w : Writer σ) (outDir : Path) (a : Asset) (output : Output) :
    List ModuleKind → WrittenPaths → σ → Outcome WrittenPaths × σ
  | [], written, s => (.ok written, s)
  | kind :: kinds, written, s =>
    if (output.get kind).isEmpty then w.writeKinds outDir a output kinds written s
    else
      let file := BundleFile.ofBundle outDir a.identity kind (output.get kind)
      match w.write s file with
      | (.error f, s) =>
        (.error (f.inStep ("Failed to write " ++ kind.label ++ " bundle of " ++ a.describe)), s)
      | (.ok (), s) =>
        let relative := (file.path.stripPrefix? outDir).getD file.path
        w.writeKinds outDir a output kinds (written.set kind relative) s

/-- Writes a bundle. -/
def writeBundle (w : Writer σ) (outDir : Path) (a : Asset) (output : Output) (s : σ) :
    Outcome WrittenPaths × σ :=
  w.writeKinds outDir a output ModuleKind.all .empty s

/-- Writes the bundle of a page and makes its entry in the manifest. -/
def writePage (w : Writer σ) (outDir : Path) (b : PageBundle) (s : σ) :
    Outcome ManifestEntry × σ :=
  let (written, s) := w.writeBundle outDir b.page b.output s
  (written.map fun paths ↦
    ⟨b.route, b.page.identity, paths.script, paths.style, paths.markup⟩, s)

end Writer

/-! ### Builds -/

/-- What a walk over a graph has come to. -/
structure Walk (σ : Type) (α : Type) where
  result : Outcome α
  modules : List (AssetId × ScriptModule)
  state : σ

section

variable {σ : Type}

/-- Packages and writes the pages, each whatever comes of the others. -/
def packagePages (p : Packagers) (w : Writer σ) (outDir : Path) :
    List AssetTree → σ → Walk σ (List (PageBundle × ManifestEntry))
  | [], s => ⟨.ok [], [], s⟩
  | t :: ts, s =>
    let work := p.packagePage t
    let (result, s) := match work.result with
      | .error f => (.error f, s)
      | .ok b =>
        let (entry, s) := w.writePage outDir b s
        (entry.map fun e ↦ (b, e), s)
    let rest := packagePages p w outDir ts s
    ⟨do return (← result) :: (← rest.result), work.modules ++ rest.modules, rest.state⟩

/-- Packages and writes the app after its pages. The result has all assets and the records of the
bundles, the app's style and script first. -/
def packageTree (p : Packagers) (w : Writer σ) (outDir : Path) (app : Asset)
    (pages : List AssetTree) (s : σ) : Walk σ (List PackagedAsset × List BundleRecord) :=
  let walk := packagePages p w outDir pages s
  match walk.result with
  | .error f => ⟨.error f, walk.modules, walk.state⟩
  | .ok bundles =>
    let own := p.packageApp app
    let modules := walk.modules ++ own.modules
    match own.result with
    | .error f => ⟨.error f, modules, walk.state⟩
    | .ok packaged =>
      let (written, s) := w.writeBundle outDir app packaged.output walk.state
      let result := written.map fun paths ↦
        (bundles.flatMap (fun (b, _) ↦ b.assets) ++ [packaged],
         (paths.style.toList ++ paths.script.toList).map BundleRecord.runtime ++
           bundles.map fun (_, e) ↦ BundleRecord.page e)
      ⟨result, modules, s⟩

namespace AssetGraph

/-- The graph with script modules as work has left them. -/
def setModules (g : AssetGraph) (modules : List (AssetId × ScriptModule)) : AssetGraph :=
  modules.foldl (fun g (id, m) ↦
    g.modify id fun a ↦ { a with siblings := { a.siblings with script := some m } }) g

/-- The graph with the outputs and imports of packaged assets. -/
def setPackaged (g : AssetGraph) (assets : List PackagedAsset) : AssetGraph :=
  assets.foldl (fun g packaged ↦
    g.modify packaged.id fun a ↦
      { a with output := packaged.output, dependencies := packaged.dependencies }) g

/-- What packaging leaves behind. -/
structure Packaging (σ : Type) where
  result : Outcome Unit
  graph : AssetGraph
  context : BuildContext
  state : σ

/-- Packages a graph and writes its bundles. -/
def package (p : Packagers) (w : Writer σ) (outDir : Path) (g : AssetGraph) (c : BuildContext)
    (s : σ) : Packaging σ :=
  match g.validate, g.root.bind g.tree? with
  | .error f, _ => ⟨.error f, g, c, s⟩
  | .ok (), none => ⟨invalid "<root>" "the tree has no app", g, c, s⟩
  | .ok (), some (.node app pages) =>
    let walk := packageTree p w outDir app pages s
    let graph := g.setModules walk.modules
    match walk.result with
    | .error f => ⟨.error f, graph, c, walk.state⟩
    | .ok (assets, records) =>
      ⟨.ok (), graph.setPackaged assets, c.recordAll records, walk.state⟩

end AssetGraph

end

/-! ### Writers -/

/-- Keeps the files with text in a list, in the order of writing. -/
def memoryWriter : Writer (List BundleFile) where
  write files file := (.ok (), if file.content.isEmpty then files else files ++ [file])

/-- The content last written to a path. -/
def lastContent? (files : List BundleFile) (path : Path) : Option String :=
  (files.reverse.find? fun f ↦ f.path.same path).map BundleFile.content

end AppletBundle
