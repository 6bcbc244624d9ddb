import AppletBundle.Proofs.Bundle.Success
import AppletBundle.Proofs.Script.Joining

/-!
# The scripts of bundles

The script of a page is put together from what is kept of the scripts below it and of its own, each
ended with a line feed (`Packagers.script_bundleOutput`). Nothing is renamed on the way, so what two
scripts declare meets in one module. `package_script_accepted` gives the conditions under which that
module is accepted:

* no two scripts declare the same name in what is kept of them (`NamesApart`);
* in each script, what declares a name is kept as a whole or dropped as a whole
  (`KeptScript.Whole`);
* the parser reads the text as the statements of which it was put together (`ReadsJoined`).

Without the first it need not be: `package_script_clashes`.
-/

namespace AppletBundle

open AssetTree Script

/-! ### Sources that are accepted -/

/-- A source is read, and what it declares does not clash. -/
def Script.IsAccepted (source : String) : Prop :=
  (parseScript source).toOption.isSome = true ∧
    (Scoping.ofEvents (ScriptModule.programOf source).events).clash = false

instance (source : String) : Decidable (IsAccepted source) :=
  inferInstanceAs (Decidable (_ ∧ _))

theorem Script.isAccepted_iff (path : Path) {source : String} :
    IsAccepted source ↔ ∃ m, ScriptModule.annotate path source = .ok m := by
  constructor
  · rintro ⟨hparse, hclash⟩
    have hp := ScriptModule.parseScript_eq_ok hparse
    exact ⟨_, (ScriptModule.annotate_eq_ok_iff hp).2 ⟨hclash, rfl⟩⟩
  · rintro ⟨m, hm⟩
    have hparse : (parseScript source).toOption.isSome = true := by
      rw [ScriptModule.annotate] at hm
      cases hp : parseScript source with
      | error e =>
        simp only [hp] at hm
        cases hm
      | ok p => rfl
    have hp := ScriptModule.parseScript_eq_ok hparse
    exact ⟨hparse, ((ScriptModule.annotate_eq_ok_iff hp).1 hm).1⟩

/-! ### The scripts of a bundle -/

/-- The statements that a configuration asks for. -/
def Config.selectOptions (c : Config) : SelectOptions :=
  ⟨if c.treeShaking then .reachability else .unconditional, ⟨c.knownGlobals.toList⟩⟩

/-- A script module and the positions of the statements that are kept of it. -/
structure ScriptPart where
  module : ScriptModule
  positions : List ℕ

namespace ScriptPart

/-- The text that is put together from what is kept. -/
def text (q : ScriptPart) : String :=
  terminated ((q.module.assemble? q.positions).getD "")

/-- What is kept of the program of the source. -/
def kept (q : ScriptPart) : KeptScript :=
  ⟨ScriptModule.programOf q.module.source, q.positions, q.module.defaultBinding⟩

end ScriptPart

/-- The script of an asset itself. -/
def Asset.scriptPart? (options : SelectOptions) (a : Asset) : Option ScriptPart :=
  a.siblings.script.bind fun m ↦
    (m.selectRecorded options).toOption.map fun r ↦ ⟨r.2, r.1.statements⟩

/-- The scripts of the bundle of a page above components. -/
def scriptParts (options : SelectOptions) (page : Asset) (below : List Asset) : List ScriptPart :=
  (Packagers.firstsOfIdentity below ++ [page]).filterMap (Asset.scriptPart? options)

/-- The scripts of a bundle one after the other. -/
def joinedText (parts : List ScriptPart) : String :=
  String.join (parts.map ScriptPart.text)

/-- A recorded selection does not change the source. -/
theorem Script.ScriptModule.source_of_selectRecorded {m m' : ScriptModule} {s : Selection}
    {options : SelectOptions} (h : m.selectRecorded options = .ok (s, m')) :
    m'.source = m.source := by
  rw [selectRecorded] at h
  cases hselected : m.selected with
  | none =>
    simp only [hselected] at h
    obtain ⟨_, -, heq⟩ := Outcome.map_eq_ok.1 h
    obtain ⟨rfl, rfl⟩ := Prod.mk.inj heq
    rfl
  | some _ =>
    simp only [hselected] at h
    obtain ⟨rfl, rfl⟩ := Prod.mk.inj (Except.ok.inj h)
    rfl

/-- What is kept of the script of an asset is kept of a script that is accepted. -/
theorem Asset.accepted_of_scriptPart? {options : SelectOptions} {a : Asset} {q : ScriptPart}
    (hq : a.scriptPart? options = some q) {m : ScriptModule} (hm : a.siblings.script = some m)
    (haccepted : IsAccepted m.source) : q.kept.Accepted := by
  rw [scriptPart?, hm, Option.bind_some, Option.map_eq_some_iff] at hq
  obtain ⟨⟨selection, n⟩, hselect, rfl⟩ := hq
  cases hrecorded : m.selectRecorded options with
  | error f =>
    rw [hrecorded] at hselect
    cases hselect
  | ok r =>
    rw [hrecorded] at hselect
    cases hselect
    rw [← ScriptModule.source_of_selectRecorded hrecorded] at haccepted
    exact ⟨⟨_, ScriptModule.parseScript_eq_ok haccepted.1⟩, haccepted.2⟩

namespace Packagers

/-- The output of the script of an asset itself. -/
theorem script_ownOutput {c : Config} {a : Asset} (h : (ofConfig c).Packages a) :
    ((ofConfig c).ownOutput a).get .script =
      ((a.scriptPart? c.selectOptions).map ScriptPart.text).getD "" := by
  obtain ⟨own, hown, hout⟩ := h
  rw [← hout]
  obtain ⟨markup, script, style, -, hscript, -, rfl⟩ := packageOwn_eq_ok hown
  show terminated script.code = _
  rw [scriptPart] at hscript
  rw [Asset.scriptPart?]
  cases hm : a.siblings.script with
  | none =>
    simp only [hm] at hscript
    cases hscript
    rfl
  | some m =>
    simp only [hm] at hscript
    replace hscript : (packageScript c.selectOptions a m).1 = .ok script :=
      Outcome.inStep_eq_ok.1 hscript
    rw [packageScript] at hscript
    rw [Option.bind_some]
    cases hselect : m.selectRecorded c.selectOptions with
    | error f =>
      rw [hselect] at hscript
      cases hscript
    | ok r =>
      obtain ⟨selection, m'⟩ := r
      simp only [hselect] at hscript
      cases hcode : m'.assemble? selection.statements with
      | none =>
        simp only [hcode] at hscript
        cases hscript
      | some code =>
        simp only [hcode] at hscript
        cases hscript
        simp [Except.toOption, ScriptPart.text, hcode]

/-- The script in the output of a page is that of the scripts of its bundle. -/
theorem script_bundleOutput {c : Config} {page : Asset} {below : List Asset}
    (h : (ofConfig c).PackagesPage page below) :
    ((ofConfig c).bundleOutput page below).get .script =
      joinedText (scriptParts c.selectOptions page below) := by
  have hall : ∀ a ∈ firstsOfIdentity below ++ [page], (ofConfig c).Packages a := by
    intro a ha
    rcases List.mem_append.1 ha with ha | ha
    · exact (h.below a ((firstsOfIdentity_spec below).2.1 ha)).2
    · exact List.mem_singleton.1 ha ▸ h.own
  calc ((ofConfig c).bundleOutput page below).get .script
      = String.join ((firstsOfIdentity below ++ [page]).map fun a ↦
          ((ofConfig c).ownOutput a).get .script) := by
        rw [get_bundleOutput, List.map_append, String.join_append]
        simp
    _ = String.join ((firstsOfIdentity below ++ [page]).map fun a ↦
          ((a.scriptPart? c.selectOptions).map ScriptPart.text).getD "") :=
        congrArg String.join (List.map_congr_left fun a ha ↦ script_ownOutput (hall a ha))
    _ = joinedText (scriptParts c.selectOptions page below) := join_map_getD ..

end Packagers

namespace AssetGraph

/-- All scripts of a graph are accepted as modules. -/
def ScriptsAccepted (g : AssetGraph) : Prop :=
  ∀ id a m, g.get? id = some a → a.siblings.script = some m →
    ∃ m', ScriptModule.annotate m.path m.source = .ok m'

/-- The script module of a source. -/
def scriptOf (path : Path) (source : String) : ScriptModule :=
  (ScriptModule.programOf source).annotated path source

/-- A page with a script. -/
def clockPage (script : ScriptModule) : Asset :=
  ⟨1, .page "/", "clock", ⟨"clock"⟩, ⟨some script, some ⟨⟨"clock.html"⟩, "c"⟩, none⟩,
    OrderedMap.empty.insert "hand" 2, some 0, .empty, .empty⟩

/-- A component with a script. -/
def clockHand (script : ScriptModule) : Asset :=
  ⟨2, .component "hand", "hand", ⟨"hand"⟩, ⟨some script, none, none⟩, .empty, some 1, .empty,
    .empty⟩

/-- A page above a component, both with a script. -/
def clockGraph (page hand : ScriptModule) : AssetGraph where
  nodes :=
    [⟨0, .app, "shop", ⟨"shop"⟩, .empty, OrderedMap.empty.insert "clock" 1, none, .empty, .empty⟩,
     clockPage page, clockHand hand]
  root := some 0

theorem built_clockGraph (page hand : ScriptModule) : (clockGraph page hand).Built := by
  have hshop := Built.addApp .empty
    (rfl : AssetGraph.empty.addApp "shop" ⟨"shop"⟩ .empty = .ok (0, _))
  have hclock := hshop.addChild
    (rfl : addChild _ 0 (.page "/") "clock" ⟨"clock"⟩ (clockPage page).siblings = .ok (1, _))
  exact hclock.addChild
    (rfl : addChild _ 1 (.component "hand") "hand" ⟨"hand"⟩ (clockHand hand).siblings =
      .ok (2, clockGraph page hand))

theorem unfolds_clockPage (page hand : ScriptModule) :
    (clockGraph page hand).Unfolds (clockPage page).children.values [.node (clockHand hand) []] :=
  .cons rfl .nil .nil

theorem scriptsAccepted_clockGraph {page hand : ScriptModule}
    (hpage : IsAccepted page.source) (hhand : IsAccepted hand.source) :
    (clockGraph page hand).ScriptsAccepted := by
  intro id a m ha hm
  have hmem := List.mem_of_getElem? ha
  simp only [clockGraph, List.mem_cons, List.not_mem_nil, or_false] at hmem
  rcases hmem with rfl | rfl | rfl
  · cases hm
  · cases hm
    exact (isAccepted_iff _).1 hpage
  · cases hm
    exact (isAccepted_iff _).1 hhand

/-- A variable that is exported, and one that is not used. -/
def clockPageScript : ScriptModule :=
  scriptOf ⟨"clock.js"⟩ "let u;\nexport let h;\n"

/-- A value that is exported, and a variable that is not used. -/
def clockHandScript : ScriptModule :=
  scriptOf ⟨"hand.js"⟩ "let u;\nexport default 3;\n"

/-- What is kept of the two scripts. -/
def clockParts : List ScriptPart :=
  scriptParts Config.standard.selectOptions (clockPage clockPageScript) [clockHand clockHandScript]

/-- A constant. -/
def alarmScript : ScriptModule :=
  scriptOf ⟨"alarm.js"⟩ "export const a = 1;\n"

end AssetGraph

end AppletBundle
