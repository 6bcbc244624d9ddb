import AppletBundle.Proofs.Asset.Placement
import AppletBundle.Proofs.Bundle.Success
import AppletBundle.Proofs.Json.Quotation

/-!
# The markup of bundles

The markup of a page is a row of registrations, each ended with a blank line: one for every
component identity below the page, if the first asset with that identity has markup, and the page's
own at the end. A registration is an assignment to a renderer, whose only content is the quoted
source.

Such a row can be taken apart again. Neither an identity without line feeds nor a quotation holds a
blank line, so cutting at blank lines gives the registrations (`blankLineParts_join`). In one of
them the quotation begins at the last quote that comes after a space and is not the closing one,
since inside a quotation every quote comes after a backslash (`splitLiteral?_flatMap_escaped`); what
is in front of it has the identity, whatever that holds (`Registration.read?_text`). Both together
are `AssetGraph.package_markup_decodes`.
-/

namespace AppletBundle

open AssetTree

/-! ### Cutting at blank lines -/

/-- Cuts a text at every two line feeds, from the left. -/
def splitBlankLines : List Char → List (List Char)
  | [] => [[]]
  | '\n' :: '\n' :: rest => [] :: splitBlankLines rest
  | c :: rest => (splitBlankLines rest).modifyHead (c :: ·)

/-- The parts of a text between its blank lines. -/
def blankLineParts (s : String) : List String :=
  (splitBlankLines s.toList).map .ofList

theorem splitBlankLines_append {part : List Char} (h : '\n' ∉ part) (rest : List Char) :
    splitBlankLines (part ++ '\n' :: '\n' :: rest) = part :: splitBlankLines rest := by
  induction part with
  | nil => rw [List.nil_append, splitBlankLines]
  | cons c part ih =>
    rw [List.mem_cons, not_or] at h
    have hcut : splitBlankLines (c :: (part ++ '\n' :: '\n' :: rest)) =
        (splitBlankLines (part ++ '\n' :: '\n' :: rest)).modifyHead (c :: ·) := by
      rw [splitBlankLines]
      intro _ hc _
      exact h.1 hc.symm
    rw [List.cons_append, hcut, ih h.2, List.modifyHead_cons]

/-- **Lines that are each followed by a blank line are the parts of the text.** -/
theorem blankLineParts_join {parts : List String} (h : ∀ part ∈ parts, '\n' ∉ part.toList) :
    blankLineParts (String.join (parts.map (· ++ "\n\n"))) = parts ++ [""] := by
  induction parts with
  | nil => rfl
  | cons part parts ih =>
    obtain ⟨hpart, hparts⟩ := List.forall_mem_cons.1 h
    have hlist : (String.join ((part :: parts).map (· ++ "\n\n"))).toList =
        part.toList ++ '\n' :: '\n' :: (String.join (parts.map (· ++ "\n\n"))).toList := by
      rw [List.map_cons, String.join_cons]
      simp
    rw [blankLineParts, hlist, splitBlankLines_append hpart, List.map_cons, String.ofList_toList,
      ← blankLineParts, ih hparts, List.cons_append]

/-! ### Registrations -/

/-- An assignment of a renderer: to the constant of a page, or to the entry of a component. -/
structure Registration where
  isPage : Bool
  identity : String
  /-- The text that the renderer gives. -/
  source : String
  deriving DecidableEq

namespace Registration

/-- What stands in front of the identity. -/
def opening : Bool → String
  | true => "const $"
  | false => "remotes['"

/-- What stands between the identity and the quotation. -/
def closing : Bool → String
  | true => " = () => "
  | false => "'] = () => "

/-- The quoted source. -/
def literal (r : Registration) : String :=
  Json.quoted r.source

/-- The assignment. -/
def text (r : Registration) : String :=
  opening r.isPage ++ r.identity ++ closing r.isPage ++ r.literal

/-- Assignments, each with a blank line after it. -/
def joined (rs : List Registration) : String :=
  String.join (rs.map fun r ↦ r.text ++ "\n\n")

/-- An assignment is on one line, if its identity is. -/
theorem newline_not_mem_text {r : Registration} (h : '\n' ∉ r.identity.toList) :
    '\n' ∉ r.text.toList := by
  have hopening : ∀ b, '\n' ∉ (opening b).toList := by decide
  have hclosing : ∀ b, '\n' ∉ (closing b).toList := by decide
  have hliteral : '\n' ∉ r.literal.toList := by
    rw [literal, Json.quoted, String.toList_ofList]
    exact Json.newline_not_mem_quotedChars _
  simp [text, hopening, hclosing, hliteral, h]

/-- Whether a text is at least an opening and a closing quote long and begins with a quote. -/
def beginsLiteral : List Char → Bool
  | '"' :: _ :: _ => true
  | _ => false

/-- Cuts a text in front of the last quotation that comes after a space. -/
def splitLiteral? : List Char → Option (List Char × List Char)
  | [] => none
  | c :: rest =>
    match splitLiteral? rest with
    | some (front, literal) => some (c :: front, literal)
    | none => if c = ' ' && beginsLiteral rest then some ([c], rest) else none

/-- The identity between what stands around it. -/
def identity? (isPage : Bool) (front : List Char) : Option String :=
  ((front.dropPrefix? (opening isPage).toList).bind fun rest ↦
    rest.dropSuffix? (closing isPage).toList).map .ofList

/-- Reads an assignment. -/
def read? (text : String) : Option Registration := do
  let (front, literal) ← splitLiteral? text.toList
  let .string source ← Json.parse? literal | none
  (identity? true front).map (⟨true, ·, source⟩) <|>
    (identity? false front).map (⟨false, ·, source⟩)

/-! ### Reading registrations -/

/-- Characters other than spaces do not make a quotation in front of a text without one. -/
theorem splitLiteral?_append_of_ne {cs rest : List Char} (hcs : ' ' ∉ cs)
    (hrest : splitLiteral? rest = none) : splitLiteral? (cs ++ rest) = none := by
  induction cs with
  | nil => exact hrest
  | cons c cs ih =>
    rw [List.mem_cons, not_or] at hcs
    rw [List.cons_append, splitLiteral?, ih hcs.2]
    simp [Ne.symm hcs.1]

/-- What is written inside quotes does not begin with a quote. -/
theorem beginsLiteral_flatMap_escaped (s : List Char) :
    beginsLiteral (s.flatMap Json.escaped ++ ['"']) = false := by
  cases s with
  | nil => rfl
  | cons c s =>
    have hc := Json.escapes_escaped c
    rw [List.flatMap_cons, List.append_assoc]
    generalize Json.escaped c = cs at hc ⊢
    cases hc with
    | plain hquote _ _ => simp [beginsLiteral, hquote]
    | letter _ => rfl
    | number _ => rfl

/-- **Inside quotes no quote comes after a space.** -/
theorem splitLiteral?_flatMap_escaped (s : List Char) :
    splitLiteral? (s.flatMap Json.escaped ++ ['"']) = none := by
  induction s with
  | nil => rfl
  | cons c s ih =>
    rw [List.flatMap_cons, List.append_assoc]
    rcases (Json.escapes_escaped c).eq_or_lt_toNat with ⟨hc, -⟩ | hlt
    · rw [hc, List.singleton_append, splitLiteral?, ih]
      simp [beginsLiteral_flatMap_escaped]
    · exact splitLiteral?_append_of_ne (fun h ↦ absurd (hlt _ h) (by decide)) ih

/-- A quotation after a space is found, since it is the last one. -/
theorem splitLiteral?_append_quotedChars (front s : List Char) :
    splitLiteral? (front ++ ' ' :: Json.quotedChars s) =
      some (front ++ [' '], Json.quotedChars s) := by
  induction front with
  | nil =>
    have hnone : splitLiteral? (Json.quotedChars s) = none := by
      rw [Json.quotedChars, List.cons_append, splitLiteral?, splitLiteral?_flatMap_escaped]
      rfl
    have hbegins : beginsLiteral (Json.quotedChars s) = true := by
      rw [Json.quotedChars]
      rcases s.flatMap Json.escaped with - | ⟨c, cs⟩ <;> rfl
    rw [List.nil_append, splitLiteral?, hnone, hbegins]
    rfl
  | cons c front ih => rw [List.cons_append, splitLiteral?, ih, List.cons_append]

theorem identity?_append (isPage : Bool) (identity : List Char) :
    identity? isPage ((opening isPage).toList ++ (identity ++ (closing isPage).toList)) =
      some (.ofList identity) := by
  have hsuffix : (identity ++ (closing isPage).toList).dropSuffix? (closing isPage).toList =
      some identity :=
    List.dropSuffix?_eq_some_iff.2 ⟨_, rfl, beq_self_eq_true _⟩
  rw [identity?, List.dropPrefix?_append_of_beq _ (beq_self_eq_true _), Option.bind_some, hsuffix,
    Option.map_some]

/-- In an assignment, what is in front of the quoted source is all the rest. -/
theorem splitLiteral?_text (r : Registration) :
    splitLiteral? r.text.toList =
      some ((opening r.isPage).toList ++ (r.identity.toList ++ (closing r.isPage).toList),
        r.literal.toList) := by
  have hclosing : ∃ cs, (closing r.isPage).toList = cs ++ [' '] := by
    cases r.isPage
    · exact ⟨"'] = () =>".toList, by decide⟩
    · exact ⟨" = () =>".toList, by decide⟩
  obtain ⟨cs, hcs⟩ := hclosing
  have hliteral : r.literal.toList = Json.quotedChars r.source.toList := by
    rw [literal, Json.quoted, String.toList_ofList]
  have hfound := splitLiteral?_append_quotedChars
    ((opening r.isPage).toList ++ (r.identity.toList ++ cs)) r.source.toList
  simpa [text, hcs, hliteral] using hfound

/-- **An assignment is read back**, whatever its identity and its source are. -/
theorem read?_text (r : Registration) : read? r.text = some r := by
  have hsplit := splitLiteral?_text r
  have hparse : Json.parse? r.literal.toList = some (.string r.source) := Json.parse?_quoted _
  have hidentity := identity?_append r.isPage r.identity.toList
  rw [String.ofList_toList] at hidentity
  obtain ⟨isPage, identity, source⟩ := r
  cases isPage with
  | true => simp [read?, hsplit, hparse, hidentity]
  | false =>
    -- a text that opens as that of a component does not open as that of a page
    have hother : identity? true
        ((opening false).toList ++ (identity.toList ++ (closing false).toList)) = none := rfl
    simp [read?, hsplit, hparse, hidentity, hother]

end Registration

/-! ### The markup of a bundle -/

/-- `firsts` are the assets among `as` that come first with their identity, in their order. -/
structure Packagers.AreFirsts (firsts as : List Asset) : Prop where
  sublist : firsts.Sublist as
  nodup : (firsts.map Asset.identity).Nodup
  mem_iff : ∀ a, a ∈ firsts ↔ as.find? (fun b ↦ b.identity == a.identity) = some a

theorem Packagers.areFirsts_firstsOfIdentity (as : List Asset) :
    AreFirsts (firstsOfIdentity as) as where
  sublist := sublist_firstsOfIdentity as
  nodup := (firstsOfIdentity_spec as).1
  mem_iff _ := mem_firstsOfIdentity_iff

/-- `text` is cut at blank lines into the assignments `rs` and nothing, and is decoded to them. -/
structure DecodesTo (text : String) (rs : List Registration) : Prop where
  parts : blankLineParts text = rs.map Registration.text ++ [""]
  /-- The quoted source of each is its source for a reader of JSON. -/
  sources : ∀ r ∈ rs, Json.parse? r.literal.toList = some (.string r.source)
  decoded : (blankLineParts text).filterMap Registration.read? = rs

/-- **Assignments on one line each are decoded from their bundle.** -/
theorem decodesTo_joined {rs : List Registration} (h : ∀ r ∈ rs, '\n' ∉ r.identity.toList) :
    DecodesTo (Registration.joined rs) rs := by
  have hlines : ∀ part ∈ rs.map Registration.text, '\n' ∉ part.toList := by
    intro part hpart
    obtain ⟨r, hr, rfl⟩ := List.mem_map.1 hpart
    exact Registration.newline_not_mem_text (h r hr)
  have hparts := blankLineParts_join hlines
  rw [List.map_map] at hparts
  refine ⟨hparts, fun r _ ↦ Json.parse?_quoted r.source, ?_⟩
  have hread : (rs.map Registration.text).filterMap Registration.read? = rs := by
    rw [List.filterMap_map]
    simp [Registration.read?_text]
  have hempty : [""].filterMap Registration.read? = [] := rfl
  rw [Registration.joined]
  exact hparts ▸ by rw [List.filterMap_append, hread, hempty, List.append_nil]

/-- The assignment that makes the markup of a component known. -/
def Asset.remote? (a : Asset) : Option Registration :=
  a.siblings.markup.map fun m ↦ ⟨false, a.identity, m.source⟩

theorem registration_of_isComponent {a : Asset} (h : a.IsComponent) (source : String) :
    registration a ("() => " ++ Json.quoted source) =
      (⟨false, a.identity, source⟩ : Registration).text ++ "\n\n" := by
  obtain ⟨tag, hk⟩ := h
  simp [registration, hk, Registration.text, Registration.opening, Registration.closing,
    Registration.literal, String.ext_iff]

theorem registration_of_isPage {a : Asset} (h : a.IsPage) (source : String) :
    registration a ("() => " ++ Json.quoted source) =
      (⟨true, a.identity, source⟩ : Registration).text ++ "\n\n" := by
  obtain ⟨route, hk⟩ := h
  simp [registration, hk, Registration.text, Registration.opening, Registration.closing,
    Registration.literal, String.ext_iff]

namespace Packagers

/-- The output of the markup of an asset itself. -/
theorem markup_ownOutput {c : Config} {a : Asset} (h : (ofConfig c).Packages a) :
    ((ofConfig c).ownOutput a).get .markup =
      (a.siblings.markup.map fun m ↦
        registration a ("() => " ++ Json.quoted m.source)).getD "" := by
  obtain ⟨own, hown, hout⟩ := h
  rw [← hout]
  obtain ⟨markup, script, style, hmarkup, -, -, rfl⟩ := packageOwn_eq_ok hown
  show markup = _
  rw [markupPart] at hmarkup
  rcases hm : a.siblings.markup with - | m
  · rw [hm] at hmarkup
    exact (Except.ok.inj hmarkup).symm
  · rw [hm] at hmarkup
    obtain ⟨compiled, hcompiled, rfl⟩ := Outcome.map_eq_ok.1 (Outcome.inStep_eq_ok.1 hmarkup)
    cases hcompiled
    rfl

/-- The markup in the output of a page is that of the registrations below it and of its own. -/
theorem markup_bundleOutput {c : Config} {page : Asset} {below : List Asset}
    (h : (ofConfig c).PackagesPage page below) {m : SourceModule}
    (hm : page.siblings.markup = some m) :
    ((ofConfig c).bundleOutput page below).get .markup =
      Registration.joined ((firstsOfIdentity below).filterMap Asset.remote? ++
        [⟨true, page.identity, m.source⟩]) := by
  have hremote : ∀ a ∈ firstsOfIdentity below, ((ofConfig c).ownOutput a).get .markup =
      (a.remote?.map fun r ↦ r.text ++ "\n\n").getD "" := by
    intro a ha
    obtain ⟨hcomponent, hpackages⟩ := h.below a ((firstsOfIdentity_spec below).2.1 ha)
    rw [markup_ownOutput hpackages, Asset.remote?, Option.map_map]
    simp only [registration_of_isComponent hcomponent]
    rfl
  have hown : ((ofConfig c).ownOutput page).get .markup =
      (⟨true, page.identity, m.source⟩ : Registration).text ++ "\n\n" := by
    rw [markup_ownOutput h.own, hm, Option.map_some, Option.getD_some,
      registration_of_isPage h.isPage]
  rw [get_bundleOutput, hown, List.map_congr_left hremote, join_map_getD, Registration.joined,
    List.map_append, String.join_append, List.map_singleton, String.join_cons, String.join_nil,
    String.append_empty]

end Packagers

namespace AssetGraph

open Packagers (AreFirsts areFirsts_firstsOfIdentity firstsOfIdentity firstsOfIdentity_spec)

/-- A page of a valid graph has markup. -/
theorem exists_markup_of_validate {g : AssetGraph} (hv : g.validate = .ok ()) {id : AssetId}
    {page : Asset} (hpage : g.get? id = some page) (hk : page.IsPage) :
    ∃ m, page.siblings.markup = some m := by
  rcases hroot : g.root with - | root
  · rw [validate, hroot] at hv
    cases hv
  · exact Option.isSome_iff_exists.1
      ((checkPlace_page_iff hk).1 (placed_of_validate hroot hv id page hpage)).2

/-- **The markup of a page is decoded** to one assignment for every identity below the page, if the
first asset with it has markup, in the order of the bundle, and to the page's own. -/
theorem package_markup_decodes {g : AssetGraph} (hg : g.Built)
    (hlines : ∀ a ∈ g.nodes, '\n' ∉ a.identity.toList) {c : Config} {σ : Type} {w : Writer σ}
    {outDir : Path} {context : BuildContext} {s : σ}
    (h : (g.package (.ofConfig c) w outDir context s).result = .ok ()) {id : AssetId} {page : Asset}
    (hpage : g.get? id = some page) (hk : page.IsPage) :
    ∃ ts m o, g.Unfolds page.children.values ts ∧ page.siblings.markup = some m ∧
      (g.package (.ofConfig c) w outDir context s).graph.outputOf? id = some o ∧
      AreFirsts (firstsOfIdentity (postOrderAll ts)) (postOrderAll ts) ∧
      DecodesTo (o.get .markup)
        ((firstsOfIdentity (postOrderAll ts)).filterMap Asset.remote? ++
          [⟨true, page.identity, m.source⟩]) := by
  obtain ⟨ts, -, hts⟩ := hg.linked.exists_tree?_eq hpage
  obtain ⟨m, hm⟩ := exists_markup_of_validate (package_eq_ok h).1 hpage hk
  refine ⟨ts, m, _, hts, hm, (hg.outputOf?_page h hpage hk hts).1, areFirsts_firstsOfIdentity _, ?_⟩
  have hmarkup := Packagers.markup_bundleOutput (hg.packagesPage h hpage hk hts) hm
  have hidentities : ∀ r ∈ (firstsOfIdentity (postOrderAll ts)).filterMap Asset.remote? ++
      [⟨true, page.identity, m.source⟩], '\n' ∉ r.identity.toList := by
    intro r hr
    rcases List.mem_append.1 hr with hr | hr
    · obtain ⟨a, ha, hr⟩ := List.mem_filterMap.1 hr
      obtain ⟨n, -, rfl⟩ := Option.map_eq_some_iff.1 hr
      have hbelow := (firstsOfIdentity_spec _).2.1 ha
      exact hlines a (List.mem_of_getElem? (hts.get?_id_of_mem hg.linked hbelow))
    · rw [List.mem_singleton.1 hr]
      exact hlines page (List.mem_of_getElem? hpage)
  exact hmarkup ▸ decodesTo_joined hidentities

/-! ### A page with a component twice -/

/-- A module of markup only. -/
def marked (html : String) : SiblingModules :=
  { SiblingModules.empty with markup := some ⟨⟨"a.html"⟩, html⟩ }

/-- A page whose markup holds a quote, a blank line, a backslash and a control character. -/
def menuPage : Asset :=
  ⟨1, .page "/", "menu", ⟨"menu"⟩, marked "<a b=\"c\">\n\n\\ \x01",
    (OrderedMap.empty.insert "dish" 2).insert "side" 3, some 0, .empty, .empty⟩

/-- A component with its markup, which may hold what stands around quotations. -/
def menuDish (id parent : AssetId) (html : String) : Asset :=
  ⟨id, .component "dish", "dish", ⟨"dish"⟩, marked html, .empty, some parent, .empty, .empty⟩

/-- A component without markup. -/
def menuSide : Asset :=
  ⟨3, .component "side", "side", ⟨"side"⟩, .empty, OrderedMap.empty.insert "dish" 4, some 1, .empty,
    .empty⟩

/-- A page that holds a dish, and the same dish again in a side. -/
def menuGraph : AssetGraph where
  nodes :=
    [⟨0, .app, "inn", ⟨"inn"⟩, .empty, OrderedMap.empty.insert "menu" 1, none, .empty, .empty⟩,
     menuPage, menuDish 2 1 "'] = () => \"\"\n\n", menuSide, menuDish 4 3 "again"]
  root := some 0

theorem built_menuGraph : menuGraph.Built := by
  have hinn := Built.addApp .empty
    (rfl : AssetGraph.empty.addApp "inn" ⟨"inn"⟩ .empty = .ok (0, _))
  have hmenu := hinn.addChild
    (rfl : addChild _ 0 menuPage.kind "menu" ⟨"menu"⟩ menuPage.siblings = .ok (1, _))
  have hdish := hmenu.addChild
    (rfl : addChild _ 1 (.component "dish") "dish" ⟨"dish"⟩
      (marked "'] = () => \"\"\n\n") = .ok (2, _))
  have hside := hdish.addChild
    (rfl : addChild _ 1 menuSide.kind "side" ⟨"side"⟩ .empty = .ok (3, _))
  exact hside.addChild
    (rfl : addChild _ 3 (.component "dish") "dish" ⟨"dish"⟩ (marked "again") =
      .ok (4, menuGraph))

theorem unfolds_menuPage : menuGraph.Unfolds menuPage.children.values
    [.node (menuDish 2 1 "'] = () => \"\"\n\n") [],
     .node menuSide [.node (menuDish 4 3 "again") []]] :=
  .cons rfl .nil (.cons rfl (.cons rfl .nil .nil) .nil)

/-- The dish is registered once, with the markup that it has where it comes first. -/
theorem package_markup_decodes_menu :
    let run := menuGraph.package (.ofConfig .standard) memoryWriter ⟨"out"⟩ .empty []
    run.result = .ok () ∧ ∃ o, run.graph.outputOf? 1 = some o ∧
      DecodesTo (o.get .markup)
        [⟨false, "dish", "'] = () => \"\"\n\n"⟩, ⟨true, "menu", "<a b=\"c\">\n\n\\ \x01"⟩] := by
  intro run
  have h : run.result = .ok () := by decide +kernel
  have hlines : ∀ a ∈ menuGraph.nodes, '\n' ∉ a.identity.toList := by decide +kernel
  obtain ⟨ts, m, o, hts, hm, ho, -, hdecodes⟩ :=
    package_markup_decodes built_menuGraph hlines h (rfl : menuGraph.get? 1 = some menuPage)
      ⟨"/", rfl⟩
  obtain rfl := hts.unique unfolds_menuPage
  cases hm
  exact ⟨h, o, ho, hdecodes⟩

end AssetGraph

end AppletBundle
