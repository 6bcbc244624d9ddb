import AppletBundle.Proofs.Bundle.Traversal

/-!
# Trees that agree

The files of a page are made of the page and of what is below it. Where these lie in the graph is
nothing to them: trees of two graphs that agree in all that packaging reads, asset by asset, but not
in the numbers of the assets, give the same files (`Packagers.Agree.writtenOfPage_eq`).

What packagers themselves read of an asset is theirs to say, so two assets are alike for given
packagers (`Packagers.Alike`). For the packagers of a configuration that is what the assets are and
what lies at their paths (`Packagers.alike_ofConfig`).
-/

namespace AppletBundle

open AssetTree

namespace Packagers

/-- Packaging reads the same in two assets. -/
structure Alike (p : Packagers) (a b : Asset) : Prop where
  kind : a.kind = b.kind
  identity : a.identity = b.identity
  path : a.path = b.path
  siblings : a.siblings = b.siblings
  script : p.script a = p.script b
  markup : p.markup a = p.markup b
  style : p.style a = p.style b

/-- Trees with the same shape and assets that are alike. -/
inductive Agree (p : Packagers) : List AssetTree → List AssetTree → Prop
  | nil : Agree p [] []
  | cons {a b : Asset} {ts us ts' us' : List AssetTree} (ha : p.Alike a b) (hts : Agree p ts us)
    (hrest : Agree p ts' us') : Agree p (.node a ts :: ts') (.node b us :: us')

variable {p : Packagers} {a b : Asset}

protected theorem Alike.refl (a : Asset) : p.Alike a a :=
  ⟨rfl, rfl, rfl, rfl, rfl, rfl, rfl⟩

/-- What an asset is and what lies at its path is all that the packagers of a configuration read. -/
theorem alike_ofConfig (c : Config) (hkind : a.kind = b.kind) (hidentity : a.identity = b.identity)
    (hpath : a.path = b.path) (hsiblings : a.siblings = b.siblings) : (ofConfig c).Alike a b := by
  have hdescribe : a.describe = b.describe := by
    rw [Asset.describe, Asset.describe, hkind, hidentity, hpath]
  refine ⟨hkind, hidentity, hpath, hsiblings, funext fun m ↦ ?_, rfl, funext fun m ↦ ?_⟩
  · show packageScript _ a m = packageScript _ b m
    rw [packageScript, packageScript, hdescribe]
  · show packageStyle a m = packageStyle b m
    rw [packageStyle, packageStyle, hidentity]

/-! ### Assets -/

namespace Alike

theorem describe (h : p.Alike a b) : a.describe = b.describe := by
  rw [Asset.describe, Asset.describe, h.kind, h.identity, h.path]

theorem markupPart (h : p.Alike a b) : p.markupPart a = p.markupPart b := by
  have hregistration : registration a = registration b := by
    funext compiled
    rw [registration, registration, h.kind, h.identity]
  rw [Packagers.markupPart, Packagers.markupPart, h.siblings, h.describe, h.markup, hregistration]

/-- The module that is left belongs to another number. -/
theorem scriptPart (h : p.Alike a b) : (p.scriptPart a).result = (p.scriptPart b).result := by
  rw [Packagers.scriptPart, Packagers.scriptPart, h.siblings, h.describe, h.script]
  rcases b.siblings.script with - | m <;> rfl

theorem stylePart (h : p.Alike a b) : p.stylePart a = p.stylePart b := by
  rw [Packagers.stylePart, Packagers.stylePart, h.siblings, h.describe, h.style]

theorem checkOwn (h : p.Alike a b) : p.checkOwn a = p.checkOwn b := by
  rw [Packagers.checkOwn, Packagers.checkOwn, h.markupPart, h.scriptPart, h.stylePart]

/-- The numbers of the assets go into the results, but not into the outputs and imports. -/
theorem result_packageOwn (h : p.Alike a b) :
    (p.packageOwn a).result.map (fun own ↦ (own.output, own.dependencies)) =
      (p.packageOwn b).result.map fun own ↦ (own.output, own.dependencies) := by
  rw [packageOwn, packageOwn, Work.result_andThen, Work.result_andThen, h.markupPart]
  rcases p.markupPart b with f | markup
  · show (Except.error f : Outcome (Output × OrderedSet Script.ExternalImport)) = .error f
    rfl
  · show ((p.scriptPart a).andThen _).result.map _ = ((p.scriptPart b).andThen _).result.map _
    rw [Work.result_andThen, Work.result_andThen, h.scriptPart, h.stylePart]
    rcases (p.scriptPart b).result with f | script
    · rfl
    · rcases p.stylePart b with f | style <;> rfl

theorem ownOutput (h : p.Alike a b) : p.ownOutput a = p.ownOutput b := by
  have houtput : ∀ c, p.ownOutput c = ((p.packageOwn c).result.map
      fun own ↦ (own.output, own.dependencies)).toOption.elim .empty Prod.fst := by
    intro c
    rw [Packagers.ownOutput]
    rcases (p.packageOwn c).result with f | own <;> rfl
  rw [houtput, houtput, h.result_packageOwn]

theorem contribution (h : p.Alike a b) : p.contribution a = p.contribution b := by
  rw [Packagers.contribution, Packagers.contribution, h.identity, h.ownOutput]

end Alike

/-! ### Trees -/

/-- The output of a page is made of the contributions below it. -/
theorem bundleOutput_eq (page : Asset) (below : List Asset) :
    p.bundleOutput page below =
      (concatOutputs ((firstOfIdentity [] (below.map p.contribution)).map
        Contribution.output)).append (p.ownOutput page) := by
  have hall : (below.filter fun a ↦ a.identity ∉ ([] : List String)) = below :=
    List.filter_eq_self.2 fun a _ ↦ by simp
  rw [firstOfIdentity_map_contribution, hall, List.map_map, bundleOutput]
  rfl

namespace Agree

variable {ts us : List AssetTree}

protected theorem refl : (ts : List AssetTree) → p.Agree ts ts
  | [] => .nil
  | .node a us :: ts => .cons (.refl a) (Agree.refl us) (Agree.refl ts)

theorem checkComponents (h : p.Agree ts us) : p.checkComponents ts = p.checkComponents us := by
  induction h with
  | nil => rfl
  | cons ha _ _ ih ihs =>
    rw [Packagers.checkComponents, Packagers.checkComponents, checkComponent, checkComponent,
      ha.checkOwn, ih, ihs]

theorem contributions (h : p.Agree ts us) :
    (postOrderAll ts).map p.contribution = (postOrderAll us).map p.contribution := by
  induction h with
  | nil => rfl
  | cons ha _ _ ih ihs =>
    rw [postOrderAll, postOrderAll, postOrder, postOrder]
    simp only [List.map_append, List.map_cons, List.map_nil]
    rw [ih, ihs, ha.contribution]

/-- **Pages that agree have the same files written.** -/
theorem writtenOfPage_eq {t u : AssetTree} (h : p.Agree [t] [u])
    (verdict : BundleFile → Outcome Unit) (outDir : Path) :
    p.writtenOfPage verdict outDir t = p.writtenOfPage verdict outDir u := by
  rcases h with - | @⟨a, b, ts, us, -, -, ha, hts, -⟩
  have hbundle : p.checkBundle (.node a ts) = p.checkBundle (.node b us) := by
    rw [checkBundle, checkBundle, hts.checkComponents, ha.checkOwn]
  have hfiles : p.pageFiles outDir (.node a ts) = p.pageFiles outDir (.node b us) := by
    rw [pageFiles, pageFiles, bundleOutput_eq, bundleOutput_eq, hts.contributions, ha.ownOutput,
      Writer.slotFiles, Writer.slotFiles]
    refine congrArg (List.map · _) (funext fun kind ↦ ?_)
    rw [Writer.slotFile, Writer.slotFile, ha.identity]
  rw [writtenOfPage, writtenOfPage, hbundle, hfiles]

end Agree

end Packagers

end AppletBundle
