import AppletBundle.Proofs.Ordered.Map
import AppletBundle.Proofs.Script.FirstDeclaration
import AppletBundle.Proofs.Text.Bytes

/-!
# Annotated modules are well formed

Annotation fills in what statements declare and what the module exports in two passes, over all
kinds of items. What comes of it is `WellAnnotated`: whatever declares a name or is exported can be
part of the output. So links to other modules and lists of exports declare nothing, and what is
exported is selected (`WellAnnotated.mem_statements`).

* `Program.LaidOut` is what is assumed of the places in a source; it is true of every source that is
  read (`laidOut_of_parseScript`). `Program.Placed.laidOut` gets the part of it that is about names
  from the places of the declarations alone: a symbol has the name and the place of a declaration
  (`comesFrom_foldl_step`).
* `wellAnnotated_recordExport` is the step through the exports, and
  `wellAnnotated_foldl_recordExport` goes through all of them.
* `isSome_assemble?` says that what stands between two cuts can be put together.

The main result is `annotate_wellFormed`.
-/

namespace AppletBundle.Script

/-! ### Symbols and declarations -/

/-- Every symbol has a name and a place that are allowed. -/
def ComesFrom (allowed : Binding → Prop) (symbols : Array Symbol) : Prop :=
  ∀ (k : ℕ) (y : Symbol), symbols[k]? = some y → allowed ⟨y.name, y.offset⟩

namespace ComesFrom

variable {allowed : Binding → Prop} {symbols : Array Symbol}

theorem modify (h : ComesFrom allowed symbols) (i : ℕ) {f : Symbol → Symbol}
    (hf : ∀ y, (f y).name = y.name ∧ (f y).offset = y.offset) :
    ComesFrom allowed (symbols.modify i f) := by
  intro k y hy
  rw [Array.getElem?_modify] at hy
  split at hy
  · obtain ⟨z, hz, rfl⟩ := Option.map_eq_some_iff.1 hy
    rw [(hf z).1, (hf z).2]
    exact h k z hz
  · exact h k y hy

theorem push (h : ComesFrom allowed symbols) {y : Symbol} (hy : allowed ⟨y.name, y.offset⟩) :
    ComesFrom allowed (symbols.push y) := by
  intro k z hz
  rw [Array.getElem?_push] at hz
  split at hz
  · exact Option.some.inj hz ▸ hy
  · exact h k z hz

end ComesFrom

namespace Scoping

variable {allowed : Binding → Prop} {st : Scoping}

theorem comesFrom_declareIn (h : ComesFrom allowed st.symbols) (s : OpenScope)
    (kind : DeclarationKind) {b : Binding} (hb : allowed b) :
    ComesFrom allowed (st.declareIn s kind b).1.symbols := by
  rw [declareIn]
  split
  · refine h.modify _ ?_
    exact fun y ↦ ⟨rfl, rfl⟩
  · exact h.push hb

theorem comesFrom_hoistInto (h : ComesFrom allowed st.symbols) (s : OpenScope) (name : String)
    (k : ℕ) : ComesFrom allowed (st.hoistInto s name k).1.symbols := by
  rw [hoistInto]
  split
  · exact h
  · refine h.modify _ ?_
    exact fun y ↦ ⟨rfl, rfl⟩

theorem comesFrom_declareVar {b : Binding} (hb : allowed b) (found : Option ℕ)
    (scopes : List OpenScope) (h : ComesFrom allowed st.symbols) :
    ComesFrom allowed (declareVar b found st scopes).1.symbols := by
  induction scopes generalizing found st with
  | nil => exact h
  | cons s outer ih =>
    by_cases hs : s.kind.holdsVars
    · rw [declareVar_cons_of_holdsVars _ _ _ _ hs]
      cases found with
      | some k => exact comesFrom_hoistInto h s b.name k
      | none => exact comesFrom_declareIn h s .var hb
    · rw [declareVar_cons_of_not_holdsVars _ _ _ _ hs]
      refine ih _ ?_
      split <;> exact h

theorem comesFrom_step {e : ScopeEvent} (he : ∀ kind b, e = .declare kind b → allowed b)
    (h : ComesFrom allowed st.symbols) : ComesFrom allowed (st.step e).symbols := by
  cases e with
  | item => exact h
  | enter kind => exact h
  | adopt =>
    rw [step]
    split <;> exact h
  | leave => exact (symbols_settle st).symm ▸ h
  | settle => exact (symbols_settle st).symm ▸ h
  | declare kind b =>
    have hb := he kind b rfl
    rw [step, declare]
    split
    · exact comesFrom_declareVar hb none st.scopes h
    · split
      · exact h
      · exact comesFrom_declareIn h _ kind hb
  | refer n =>
    rw [step]
    split <;> exact h

/-- **Symbols have the names and the places of declarations.** -/
theorem comesFrom_foldl_step {es : List ScopeEvent}
    (hes : ∀ kind b, .declare kind b ∈ es → allowed b) (h : ComesFrom allowed st.symbols) :
    ComesFrom allowed (es.foldl step st).symbols := by
  induction es generalizing st with
  | nil => exact h
  | cons e es ih =>
    refine ih (fun kind b hb ↦ hes kind b (List.mem_cons_of_mem _ hb)) (comesFrom_step ?_ h)
    rintro kind b rfl
    exact hes kind b List.mem_cons_self

theorem exists_declare_of_mem_rootBindings_ofEvents {es : List ScopeEvent} {b : Binding}
    (hb : b ∈ (ofEvents es).rootBindings) : ∃ kind, .declare kind b ∈ es := by
  rw [ofEvents, rootBindings, symbols_settle] at hb
  obtain ⟨y, hy, rfl⟩ := List.mem_map.1 hb
  obtain ⟨k, hk⟩ := List.mem_iff_getElem?.1 (List.mem_of_mem_filter hy)
  have hinitial : ComesFrom (fun b ↦ ∃ kind, .declare kind b ∈ es) initial.symbols := by
    intro k y hy
    cases hy
  exact comesFrom_foldl_step (fun kind b hmem ↦ ⟨kind, hmem⟩) hinitial k y
    (by rwa [Array.getElem?_toList] at hk)

end Scoping

/-! ### Places in a source -/

/-- The name that an event declares, in whatever scope. -/
def ScopeEvent.declaredName? : ScopeEvent → Option String
  | .declare _ b => some b.name
  | _ => none

/-- The names that an item declares, in whatever scope. -/
def Item.declaredNames (item : Item) : List String :=
  item.node.events.filterMap ScopeEvent.declaredName?

/-- Where the declaration or the value begins that a statement of a kind wraps. -/
def StatementKind.wrappedFrom? : StatementKind → Option ℕ
  | .exportWrapper start => some start
  | .defaultExpression start => some start
  | _ => none

/-- Where items and names stand in a source: items one after the other and between cuts, what they
wrap from a cut on, and every name of the module in an item that declares it. -/
structure Program.LaidOut (p : Program) (source : String) : Prop where
  ordered : (p.items.map Item.span).Pairwise fun s t ↦ s.stop ≤ t.start
  proper : ∀ item ∈ p.items, item.start ≤ item.stop
  cut : ∀ item ∈ p.items,
    Text.IsCut source.toList item.start ∧ Text.IsCut source.toList item.stop
  wrapped : ∀ item ∈ p.items, ∀ start ∈ (item.node.classify item.innerStart).1.wrappedFrom?,
    Text.IsCut source.toList start
  held : ∀ b ∈ (Scoping.ofEvents p.events).rootBindings,
    ∃ item ∈ p.items, item.span.contains b.offset = true ∧ b.name ∈ item.declaredNames

/-- If items hold their declarations, they hold the names of the module. -/
theorem Program.Placed.laidOut {p : Program} (hplaced : p.Placed) {source : String}
    (hcut : ∀ item ∈ p.items,
      Text.IsCut source.toList item.start ∧ Text.IsCut source.toList item.stop)
    (hwrapped : ∀ item ∈ p.items, ∀ start ∈ (item.node.classify item.innerStart).1.wrappedFrom?,
      Text.IsCut source.toList start) : p.LaidOut source where
  ordered := hplaced.ordered
  proper := hplaced.proper
  cut := hcut
  wrapped := hwrapped
  held := by
    intro b hb
    obtain ⟨kind, hdeclare⟩ := Scoping.exists_declare_of_mem_rootBindings_ofEvents hb
    obtain ⟨item, hitem, hmem⟩ := List.mem_flatMap.1 hdeclare
    have hmem' : .declare kind b ∈ item.node.events :=
      (List.mem_cons.1 hmem).resolve_left (fun h ↦ by cases h)
    exact ⟨item, hitem, hplaced.inside item hitem _ hmem',
      List.mem_filterMap.2 ⟨_, hmem', rfl⟩⟩

/-! ### Shapes of exports -/

/-- A list of exports declares nothing. -/
theorem Node.declaredName?_of_classify {innerStart : ℕ} (n : Node)
    (h : (n.classify innerStart).1 = .exportList) :
    n.events.filterMap ScopeEvent.declaredName? = [] := by
  fun_induction Node.classify innerStart n with
  | case1 comments statement ih => exact ih h
  | case6 specifiers =>
    show (specifiers.map fun s ↦ ScopeEvent.refer s.localName.text).filterMap _ = []
    simp [ScopeEvent.declaredName?]
  | _ => simp_all

/-- What exports names that it declares, or the default, can be part of the output. -/
theorem Node.isEmittable_of_classify {innerStart : ℕ} (n : Node)
    (h : (n.classify innerStart).2 = .named ∨ (n.classify innerStart).2 = .default) :
    (n.classify innerStart).1.isEmittable = true := by
  fun_induction Node.classify innerStart n <;> simp_all [StatementKind.isEmittable]

namespace ScriptModule

/-! ### Filling in exports -/

/-- Whatever declares a name or is exported can be part of the output. -/
structure WellAnnotated (m : ScriptModule) : Prop where
  defines : ∀ i name, m.DefinesAt i name → m.EmittableAt i
  exports : ∀ i ∈ m.exports.values, m.EmittableAt i

variable {m m' : ScriptModule} {i : ℕ}

theorem emittableAt_iff : m.EmittableAt i ↔
    ∃ kind, (m.statements.map Statement.kind)[i]? = some kind ∧ kind.isEmittable = true := by
  rw [List.getElem?_map, EmittableAt]
  cases m.statements[i]? <;> simp

theorem emittableAt_congr (h : m'.outlines = m.outlines) : m'.EmittableAt i ↔ m.EmittableAt i := by
  rw [emittableAt_iff, emittableAt_iff, map_kind_eq_of_outlines_eq h]

theorem mem_values_insert {es : OrderedMap String ℕ} {name : String} {v : ℕ}
    (h : i ∈ (es.insert name v).values) : i = v ∨ i ∈ es.values := by
  obtain ⟨e, he, rfl⟩ := List.mem_map.1 h
  have hget : (es.insert name v).get? e.1 = some e.2 :=
    OrderedMap.lookup_eq_some_of_mem (es.insert name v).nodup he
  rw [OrderedMap.get?_insert] at hget
  split at hget
  · exact .inl (Option.some.inj hget).symm
  · obtain ⟨l₁, l₂, hsplit, -⟩ := List.lookup_eq_some_iff.1 hget
    refine .inr (List.mem_map.2 ⟨(e.1, e.2), ?_, rfl⟩)
    rw [hsplit]
    exact List.mem_append_right _ List.mem_cons_self

namespace WellAnnotated

theorem addExport (h : m.WellAnnotated) (name : String) (hi : m.EmittableAt i) :
    (m.addExport name i).WellAnnotated where
  defines := h.defines
  exports j hj := (mem_values_insert hj).elim (fun hji ↦ hji ▸ hi) (h.exports j)

theorem define (h : m.WellAnnotated) (name : String) (hi : m.EmittableAt i) :
    (m.define i name).WellAnnotated where
  defines j n hj := by
    rw [emittableAt_congr (outlines_define m i name)]
    rcases (definesAt_define m i name j n).1 hj with hj | ⟨rfl, -⟩
    · exact h.defines j n hj
    · exact hi
  exports j hj := (emittableAt_congr (outlines_define m i name)).2 (h.exports j hj)

theorem addExports (h : m.WellAnnotated) (names : List String) (hi : m.EmittableAt i) :
    (names.foldl (fun m name ↦ m.addExport name i) m).WellAnnotated := by
  induction names generalizing m with
  | nil => exact h
  | cons name names ih => exact ih (h.addExport name hi) hi

/-- A name that is exported by its name in the module is declared by some statement. -/
theorem exportLocal (h : m.WellAnnotated) (pair : String × String) :
    (m.exportLocal pair).WellAnnotated := by
  rw [ScriptModule.exportLocal]
  split
  · rename_i i hdefiner
    rw [definer?, List.findIdx?_eq_some_iff_getElem] at hdefiner
    obtain ⟨hlt, hdefines, -⟩ := hdefiner
    refine h.addExport pair.2 (h.defines i pair.1 ⟨_, List.getElem?_eq_getElem hlt, ?_⟩)
    simpa [OrderedSet.contains] using hdefines
  · exact h

theorem exportLocals (h : m.WellAnnotated) (pairs : List (String × String)) :
    (pairs.foldl ScriptModule.exportLocal m).WellAnnotated := by
  induction pairs generalizing m with
  | nil => exact h
  | cons pair pairs ih => exact ih (h.exportLocal pair)

end WellAnnotated

/-- **The record of an export leaves the module well annotated** if it fits the statement. -/
theorem wellAnnotated_recordExport (h : m.WellAnnotated) {shape : ExportShape}
    (hshape : shape = .named ∨ shape = .default → m.EmittableAt i) :
    (m.recordExport i shape).WellAnnotated := by
  cases shape with
  | none => exact h
  | named =>
    rw [recordExport]
    split
    · exact h.addExports _ (hshape (.inl rfl))
    · exact h
  | default =>
    have hi := hshape (.inr rfl)
    rw [recordExport]
    split
    · exact (h.define _ hi).addExport "default" ((emittableAt_congr (outlines_define m i _)).2 hi)
    · exact h.addExport "default" hi
  | list pairs => exact h.exportLocals pairs

theorem wellAnnotated_foldl_recordExport (h : m.WellAnnotated) {shapes : List (ExportShape × ℕ)}
    (hshapes : ∀ q ∈ shapes, q.1 = .named ∨ q.1 = .default → m.EmittableAt q.2) :
    (shapes.foldl (fun m (shape, i) ↦ m.recordExport i shape) m).WellAnnotated := by
  induction shapes generalizing m with
  | nil => exact h
  | cons q shapes ih =>
    obtain ⟨hq, hshapes⟩ := List.forall_mem_cons.1 hshapes
    refine ih (wellAnnotated_recordExport h hq) fun r hr hr' ↦ ?_
    rw [emittableAt_congr (outlines_recordExport m q.2 q.1)]
    exact hshapes r hr hr'

/-! ### The module of a program -/

section annotated

variable {p : Program} (path : Path) {source : String}

/-- The item whose statement holds a name of the module declares the name, so it is no list of
exports. -/
theorem not_exportList_of_held (hlaid : p.LaidOut source) {item : Item}
    (hi : p.items[i]? = some item) {b : Binding}
    (hb : b ∈ (Scoping.ofEvents p.events).rootBindings)
    (hholder : containingStatement? (p.items.map Item.span) b.offset = some i) :
    (item.node.classify item.innerStart).1 ≠ .exportList := by
  obtain ⟨item', hitem', hcontains, hname⟩ := hlaid.held b hb
  obtain ⟨j, hj⟩ := List.mem_iff_getElem?.1 hitem'
  have hproper : ∀ t ∈ p.items.map Item.span, t.start ≤ t.stop := by
    intro t ht
    obtain ⟨item, hitem, rfl⟩ := List.mem_map.1 ht
    exact hlaid.proper item hitem
  have hspan : (p.items.map Item.span)[j]? = some item'.span := by
    rw [List.getElem?_map, hj]
    rfl
  rw [containingStatement?_eq_some hlaid.ordered hproper hspan hcontains] at hholder
  obtain rfl := Option.some.inj hholder
  obtain rfl := Option.some.inj (hi.symm.trans hj)
  intro hlist
  rw [Item.declaredNames, Node.declaredName?_of_classify item.node hlist] at hname
  exact absurd hname List.not_mem_nil

/-- The statement of an item. -/
theorem emittableAt_annotated {item : Item} (hi : p.items[i]? = some item) :
    (p.annotated path source).EmittableAt i ↔
      (item.node.classify item.innerStart).1.isEmittable = true := by
  obtain ⟨s, hs, hkind, -⟩ :=
    exists_statement_ofProgram path source p (Scoping.ofEvents p.events) hi
  rw [← hkind, EmittableAt, Program.annotated, hs]
  simp

/-- What declares a name can be part of the output. -/
theorem emittableAt_of_definesAt (hlaid : p.LaidOut source) {name : String}
    (h : (p.annotated path source).DefinesAt i name) :
    (p.annotated path source).EmittableAt i := by
  obtain ⟨s, hs, hname⟩ := h
  have hlt : i < p.items.length := by
    rw [← length_statements_annotated p path source]
    exact (List.getElem?_eq_some_iff.1 hs).1
  have hi := List.getElem?_eq_getElem hlt
  obtain ⟨t, ht, hkind, -, -, hdefines⟩ :=
    exists_statement_ofProgram path source p (Scoping.ofEvents p.events) hi
  obtain rfl := Option.some.inj (hs.symm.trans ht)
  rw [emittableAt_annotated path hi, ← hkind]
  rcases (hdefines name).1 hname with ⟨hlink, b, hb, hholder, -⟩ | ⟨⟨start, hstart⟩, -⟩
  · have hlist := not_exportList_of_held hlaid hi hb hholder
    rw [← hkind] at hlist
    cases hk : s.kind <;> simp_all [StatementKind.isEmittable]
  · rw [hstart]
    rfl

/-- Items bring no exports and leave the source as it is. -/
theorem foldl_addItem_exports (m : ScriptModule) (scoping : Scoping) (items : List (Item × ℕ)) :
    (items.foldl (fun m (item, i) ↦ m.addItem item (scoping.freeNames i)) m).exports = m.exports ∧
      (items.foldl (fun m (item, i) ↦ m.addItem item (scoping.freeNames i)) m).source =
        m.source := by
  have hadd : ∀ (m : ScriptModule) (q : Item × ℕ),
      ((m.addItem q.1 (scoping.freeNames q.2)).exports,
        (m.addItem q.1 (scoping.freeNames q.2)).source) = (m.exports, m.source) := fun m q ↦
    apply_foldl (fun m ↦ (m.exports, m.source))
      (f := fun m (b : String × ImportBinding) ↦ m.addImport b.1 b.2) (fun _ _ ↦ rfl)
      q.1.node.importBindings m
  exact Prod.mk.inj (apply_foldl (fun m ↦ (m.exports, m.source)) hadd items m)

theorem exports_foldl_assignBinding (m : ScriptModule) (bs : List Binding) :
    (bs.foldl assignBinding m).exports = m.exports := by
  refine apply_foldl exports (fun m b ↦ ?_) bs m
  rw [assignBinding]
  split <;> rfl

theorem source_annotated (p : Program) (path : Path) (source : String) :
    (p.annotated path source).source = source := by
  rw [Program.annotated, apply_ofProgram ScriptModule.source (fun _ _ _ ↦ rfl) (fun _ _ _ ↦ rfl),
    (foldl_addItem_exports _ _ _).2]
  rfl

/-- **The module of a program is well annotated.** -/
theorem wellAnnotated_annotated (hlaid : p.LaidOut source) :
    (p.annotated path source).WellAnnotated := by
  refine ⟨fun i name ↦ emittableAt_of_definesAt path hlaid, ?_⟩
  have hdefines : ∀ i name, (p.annotated path source).DefinesAt i name →
      (p.annotated path source).EmittableAt i := fun i name ↦ emittableAt_of_definesAt path hlaid
  have hitems : ∀ i (item : Item), p.items[i]? = some item →
      ((p.annotated path source).EmittableAt i ↔
        (item.node.classify item.innerStart).1.isEmittable = true) :=
    fun i item ↦ emittableAt_annotated path
  rw [Program.annotated, ofProgram] at hdefines hitems ⊢
  have hexports := (exports_foldl_assignBinding _ (Scoping.ofEvents p.events).rootBindings).trans
    (foldl_addItem_exports (empty path source) (Scoping.ofEvents p.events) p.items.zipIdx).1
  generalize (Scoping.ofEvents p.events).rootBindings.foldl assignBinding
    (p.items.zipIdx.foldl (fun m (item, i) ↦
        m.addItem item ((Scoping.ofEvents p.events).freeNames i))
      (empty path source)) = m at hdefines hitems hexports ⊢
  obtain ⟨houtlines, hgrow⟩ := foldl_recordExport_spec m
    (p.items.map fun item ↦ (item.node.classify item.innerStart).2).zipIdx
  simp only [hgrow, emittableAt_congr houtlines] at hdefines hitems
  refine (wellAnnotated_foldl_recordExport
    ⟨fun i name hi ↦ hdefines i name (.inl hi), ?_⟩ ?_).exports
  · rw [hexports]
    exact fun i hi ↦ absurd hi List.not_mem_nil
  · rintro ⟨shape, i⟩ hq hshape
    rw [List.mem_zipIdx_iff_getElem?, List.getElem?_map, Option.map_eq_some_iff] at hq
    obtain ⟨item, hi, rfl⟩ := hq
    exact (hitems i item hi).2 (item.node.isEmittable_of_classify hshape)

end annotated

/-! ### What is exported is selected -/

/-- **What is exported is never dropped.** -/
theorem WellAnnotated.mem_statements (h : m.WellAnnotated) {globals : KnownGlobals}
    {selection : Selection} (hselect : m.select ⟨.reachability, globals⟩ = .ok selection)
    (hi : i ∈ m.exports.values) : i ∈ selection.statements := by
  have hemit := h.exports i hi
  obtain ⟨s, hs, hkind⟩ := id hemit
  have hlink : s.kind ≠ .importLink := by
    intro hlink
    rw [hlink] at hkind
    cases hkind
  exact (mem_statements_iff hselect).2 ⟨hemit, .start ⟨s, hs, hlink, .inl hi⟩⟩

/-! ### Putting statements together -/

/-- A statement is kept from a cut to a cut. -/
def CutAt (m : ScriptModule) (s : Statement) : Prop :=
  s.span.start ≤ s.span.stop ∧
    Text.IsCut m.source.toList s.span.start ∧ Text.IsCut m.source.toList s.span.stop ∧
    ∀ start ∈ s.kind.wrappedFrom?, Text.IsCut m.source.toList start

theorem isSome_of_mem_retainedText? {s : Statement} (h : m.CutAt s) {range : Option (List Char)}
    (hrange : range ∈ m.retainedText? s) : range.isSome = true := by
  obtain ⟨hproper, hstart, hstop, hwrapped⟩ := h
  obtain ⟨start, hfrom, rfl⟩ := Option.map_eq_some_iff.1 hrange
  -- what a statement wraps is looked for between its ends
  have hclamp : ∀ inner, Text.IsCut m.source.toList inner →
      max s.span.start (min inner s.span.stop) ≤ s.span.stop ∧
        Text.IsCut m.source.toList (max s.span.start (min inner s.span.stop)) := by
    intro inner hinner
    refine ⟨max_le hproper (min_le_right _ _), ?_⟩
    rcases Nat.le_total (min inner s.span.stop) s.span.start with hle | hle
    · rwa [Nat.max_eq_left hle]
    · rw [Nat.max_eq_right hle]
      rcases Nat.le_total inner s.span.stop with hle | hle
      · rwa [Nat.min_eq_left hle]
      · rwa [Nat.min_eq_right hle]
  have hkept : start ≤ s.span.stop ∧ Text.IsCut m.source.toList start := by
    rw [Statement.retainedFrom?] at hfrom
    cases hkind : s.kind with
    | importLink => simp [hkind] at hfrom
    | exportList => simp [hkind] at hfrom
    | plain =>
      rw [hkind] at hfrom
      exact Option.some.inj hfrom ▸ ⟨hproper, hstart⟩
    | exportWrapper inner =>
      rw [hkind] at hfrom hwrapped
      exact Option.some.inj hfrom ▸ hclamp inner (hwrapped inner rfl)
    | defaultExpression inner =>
      rw [hkind] at hfrom hwrapped
      exact Option.some.inj hfrom ▸ hclamp inner (hwrapped inner rfl)
  have hslice := Text.isSome_slice? hkept.1 hkept.2 hstop
  rw [if_pos hproper]
  cases s.kind <;> first | exact hslice | exact Option.isSome_map.trans hslice

/-- **Statements between cuts can be put together**, in whatever order. -/
theorem isSome_assemble? (h : ∀ s ∈ m.statements, m.CutAt s) (positions : List ℕ) :
    (m.assemble? positions).isSome = true := by
  have hall : ∀ text ∈ m.retainedTexts positions, text.isSome = true := by
    intro text htext
    obtain ⟨s, hs, hretained⟩ := List.mem_filterMap.1 htext
    obtain ⟨k, -, hk⟩ := List.mem_filterMap.1 hs
    exact isSome_of_mem_retainedText? (h s (List.mem_of_getElem? hk)) hretained
  rw [assemble?, Option.isSome_map]
  generalize m.retainedTexts positions = texts at hall
  induction texts with
  | nil => rfl
  | cons text texts ih =>
    obtain ⟨htext, htexts⟩ := List.forall_mem_cons.1 hall
    obtain ⟨t, rfl⟩ := Option.isSome_iff_exists.1 htext
    obtain ⟨ts, hts⟩ := Option.isSome_iff_exists.1 (ih htexts)
    rw [List.mapM_cons, hts]
    rfl

theorem cutAt_annotated {p : Program} {path : Path} {source : String} (hlaid : p.LaidOut source) :
    ∀ s ∈ (p.annotated path source).statements, (p.annotated path source).CutAt s := by
  intro s hs
  obtain ⟨i, hs⟩ := List.mem_iff_getElem?.1 hs
  have hlt : i < p.items.length := by
    rw [← length_statements_annotated p path source]
    exact (List.getElem?_eq_some_iff.1 hs).1
  have hi := List.getElem?_eq_getElem hlt
  obtain ⟨t, ht, hkind, hspan, -⟩ :=
    exists_statement_ofProgram path source p (Scoping.ofEvents p.events) hi
  obtain rfl := Option.some.inj (hs.symm.trans ht)
  have hitem := List.mem_of_getElem? hi
  rw [CutAt, hspan, hkind, source_annotated]
  exact ⟨hlaid.proper _ hitem, (hlaid.cut _ hitem).1, (hlaid.cut _ hitem).2,
    hlaid.wrapped _ hitem⟩

/-! ### The result -/

/-- **Annotation is well formed.** In the module of a source, links to other modules and lists of
exports declare nothing, and every exported name stands for a statement that can be part of the
output. Selection by reachability keeps all these statements, and whatever is asked for can be put
together. -/
theorem annotate_wellFormed {path : Path} {source : String} {m : ScriptModule} {p : Program}
    (hp : parseScript source = .ok p) (hlaid : p.LaidOut source)
    (hm : annotate path source = .ok m) :
    (∀ s ∈ m.statements, s.kind = .importLink ∨ s.kind = .exportList → s.defines.toList = []) ∧
      (∀ i ∈ m.exports.values, m.EmittableAt i) ∧
      (∀ globals selection, m.select ⟨.reachability, globals⟩ = .ok selection →
        ∀ i ∈ m.exports.values, i ∈ selection.statements) ∧
      ∀ positions, (m.assemble? positions).isSome = true := by
  obtain ⟨-, rfl⟩ := (annotate_eq_ok_iff hp).1 hm
  have hwell := wellAnnotated_annotated path hlaid
  refine ⟨fun s hs hkind ↦ ?_, hwell.exports, fun globals selection hselect i hi ↦ ?_,
    isSome_assemble? (cutAt_annotated hlaid)⟩
  · obtain ⟨i, hs⟩ := List.mem_iff_getElem?.1 hs
    rw [List.eq_nil_iff_forall_not_mem]
    intro name hname
    obtain ⟨t, ht, hemit⟩ := hwell.defines i name ⟨s, hs, hname⟩
    obtain rfl := Option.some.inj (hs.symm.trans ht)
    rcases hkind with hkind | hkind <;> rw [hkind] at hemit <;> cases hemit
  · exact hwell.mem_statements hselect hi

/-- Imports and exports of all forms, and a name that is exported but not declared. -/
def formsSource : String :=
  "import q, \x7b r as s \x7d from './x';\nexport * from './y';\n" ++
  "export \x7b z \x7d from './z';\nexport let a = 'é';\nlet kept = s, dead = q;\n" ++
  "export \x7b kept as other, q as lost \x7d;\nexport default kept + 1;"

def formsModule : ScriptModule :=
  (programOf formsSource).annotated ⟨"app.js"⟩ formsSource

theorem annotate_wellFormed_forms :
    annotate ⟨"app.js"⟩ formsSource = .ok formsModule ∧
      formsModule.exports.entries = [("a", 3), ("other", 4), ("default", 6)] ∧
      formsModule.select ⟨.reachability, ⟨[]⟩⟩ = .ok ⟨[3, 4, 6], .ofList
        [⟨"s", "r", "./x"⟩, ⟨"q", "default", "./x"⟩]⟩ ∧
      6 ∈ [3, 4, 6] ∧ (formsModule.assemble? [6, 3, 4, 0, 9]).isSome = true := by
  have hsource : (parseScript formsSource).toOption.isSome = true ∧
      (Scoping.ofEvents (programOf formsSource).events).clash = false ∧
      (programOf formsSource).Placed ∧
      (∀ item ∈ (programOf formsSource).items, Text.IsCut formsSource.toList item.start ∧
        Text.IsCut formsSource.toList item.stop) ∧
      (∀ item ∈ (programOf formsSource).items,
        ∀ start ∈ (item.node.classify item.innerStart).1.wrappedFrom?,
          Text.IsCut formsSource.toList start) ∧
      formsModule.exports.entries = [("a", 3), ("other", 4), ("default", 6)] ∧
      formsModule.select ⟨.reachability, ⟨[]⟩⟩ = .ok ⟨[3, 4, 6], .ofList
        [⟨"s", "r", "./x"⟩, ⟨"q", "default", "./x"⟩]⟩ := by
    decide +kernel
  obtain ⟨hparse, hclash, hplaced, hcut, hwrapped, hexports, hselect⟩ := hsource
  have hp := parseScript_eq_ok hparse
  have hm : annotate ⟨"app.js"⟩ formsSource = .ok formsModule :=
    (annotate_eq_ok_iff hp).2 ⟨hclash, rfl⟩
  obtain ⟨-, -, hselected, hassembled⟩ :=
    annotate_wellFormed hp (hplaced.laidOut hcut hwrapped) hm
  refine ⟨hm, hexports, hselect, hselected _ _ hselect 6 ?_, hassembled _⟩
  rw [OrderedMap.values, hexports]
  decide

end ScriptModule

end AppletBundle.Script
