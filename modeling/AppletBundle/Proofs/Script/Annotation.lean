import AppletBundle.Script.Annotation
import Mathlib.Data.List.Basic

/-!
# Annotated statements

What an annotated module holds for each statement. The statements are those of the program, in
order; all that is done to them afterwards is to let them declare names. So the kinds, the places
and the names that are used stay as they were (`outlines`), and `DefinesAt` collects the names that
are declared: those of the module whose declaration stands in the statement, and the default binding
for a default export of a value.

`exists_statement_ofProgram` puts this together.
-/

namespace AppletBundle.Script

/-- The range of an item. -/
def Item.span (item : Item) : Span :=
  ⟨item.start, item.stop⟩

/-- A default export of a value is recorded as a default export. -/
theorem Node.classify_eq_default {innerStart start : ℕ} (n : Node)
    (h : (n.classify innerStart).1 = .defaultExpression start) :
    (n.classify innerStart).2 = .default := by
  fun_induction Node.classify innerStart n <;> simp_all

namespace ScriptModule

/-- What stays of the statements when names are declared. -/
def outlines (m : ScriptModule) : List (StatementKind × Span × OrderedSet String) :=
  m.statements.map fun s ↦ (s.kind, s.span, s.depends)

/-- The statement at a position declares a name. -/
def DefinesAt (m : ScriptModule) (i : ℕ) (name : String) : Prop :=
  ∃ s, m.statements[i]? = some s ∧ name ∈ s.defines.toList

/-- The statement at a position may declare names. -/
def DeclaringAt (m : ScriptModule) (i : ℕ) : Prop :=
  ∃ s, m.statements[i]? = some s ∧ s.kind ≠ .importLink

variable {m m' : ScriptModule}

theorem map_kind_eq_of_outlines_eq (h : m'.outlines = m.outlines) :
    m'.statements.map Statement.kind = m.statements.map Statement.kind := by
  have hmap := congrArg (List.map Prod.fst) h
  rwa [outlines, outlines, List.map_map, List.map_map] at hmap

theorem map_span_eq_of_outlines_eq (h : m'.outlines = m.outlines) :
    m'.statements.map Statement.span = m.statements.map Statement.span := by
  have hmap := congrArg (List.map fun o ↦ o.2.1) h
  rwa [outlines, outlines, List.map_map, List.map_map] at hmap

theorem declaringAt_iff (i : ℕ) :
    m.DeclaringAt i ↔ ∃ kind, (m.statements.map Statement.kind)[i]? = some kind ∧
      kind ≠ .importLink := by
  simp only [DeclaringAt, List.getElem?_map, Option.map_eq_some_iff]
  constructor
  · rintro ⟨s, hs, hk⟩
    exact ⟨_, ⟨s, hs, rfl⟩, hk⟩
  · rintro ⟨_, ⟨s, hs, rfl⟩, hk⟩
    exact ⟨s, hs, hk⟩

theorem declaringAt_congr (h : m'.outlines = m.outlines) (i : ℕ) :
    m'.DeclaringAt i ↔ m.DeclaringAt i := by
  rw [declaringAt_iff, declaringAt_iff, map_kind_eq_of_outlines_eq h]

/-! ### One name -/

theorem outlines_define (m : ScriptModule) (i : ℕ) (name : String) :
    (m.define i name).outlines = m.outlines := by
  refine List.ext_getElem? fun j ↦ ?_
  rw [outlines, outlines, define, List.getElem?_map, List.getElem?_map, List.getElem?_modify]
  cases m.statements[j]? with
  | none => rfl
  | some s =>
    rw [Option.map_eq_map, Option.map_some, Option.map_some, Option.map_some]
    split
    · split <;> rfl
    · rfl

theorem definesAt_define (m : ScriptModule) (i : ℕ) (name : String) (j : ℕ) (n : String) :
    (m.define i name).DefinesAt j n ↔
      m.DefinesAt j n ∨ i = j ∧ n = name ∧ m.DeclaringAt j := by
  by_cases hij : i = j
  · subst hij
    simp only [DefinesAt, DeclaringAt, define, List.getElem?_modify, if_true]
    cases m.statements[i]? with
    | none => simp
    | some s =>
      by_cases hs : s.kind = .importLink
      · simp [hs]
      · simp [hs, OrderedSet.mem_insert]
  · simp [DefinesAt, define, hij]

/-! ### The names of the module -/

/-- The statement that holds a declaration. -/
def holderOf (m : ScriptModule) (b : Binding) : Option ℕ :=
  containingStatement? (m.statements.map Statement.span) b.offset

theorem assignBinding_eq (m : ScriptModule) (b : Binding) :
    m.assignBinding b = match m.holderOf b with
      | some i => m.define i b.name
      | none => m := rfl

theorem outlines_assignBinding (m : ScriptModule) (b : Binding) :
    (m.assignBinding b).outlines = m.outlines := by
  rw [assignBinding_eq]
  split
  · exact outlines_define m _ _
  · rfl

theorem definesAt_assignBinding (m : ScriptModule) (b : Binding) (i : ℕ) (name : String) :
    (m.assignBinding b).DefinesAt i name ↔
      m.DefinesAt i name ∨ m.holderOf b = some i ∧ name = b.name ∧ m.DeclaringAt i := by
  rw [assignBinding_eq]
  cases h : m.holderOf b with
  | none => simp
  | some j => simp [definesAt_define]

theorem outlines_foldl_assignBinding (m : ScriptModule) (bs : List Binding) :
    (bs.foldl assignBinding m).outlines = m.outlines := by
  induction bs generalizing m with
  | nil => rfl
  | cons b bs ih => rw [List.foldl_cons, ih, outlines_assignBinding]

theorem definesAt_foldl_assignBinding (m : ScriptModule) (bs : List Binding) (i : ℕ)
    (name : String) :
    (bs.foldl assignBinding m).DefinesAt i name ↔
      m.DefinesAt i name ∨ (∃ b ∈ bs, m.holderOf b = some i ∧ b.name = name) ∧ m.DeclaringAt i := by
  induction bs generalizing m with
  | nil => simp
  | cons b bs ih =>
    have houtlines := outlines_assignBinding m b
    have hholder : ∀ c, (m.assignBinding b).holderOf c = m.holderOf c := fun c ↦ by
      rw [holderOf, holderOf, map_span_eq_of_outlines_eq houtlines]
    rw [List.foldl_cons, ih, definesAt_assignBinding, declaringAt_congr houtlines]
    simp only [hholder, List.exists_mem_cons_iff, eq_comm (a := name)]
    tauto

/-! ### Exports -/

theorem statements_foldl_addExport (m : ScriptModule) (names : List String) (i : ℕ) :
    (names.foldl (fun m name ↦ m.addExport name i) m).statements = m.statements := by
  induction names generalizing m with
  | nil => rfl
  | cons name names ih => rw [List.foldl_cons, ih, addExport]

theorem statements_foldl_exportLocal (m : ScriptModule) (pairs : List (String × String)) :
    (pairs.foldl exportLocal m).statements = m.statements := by
  induction pairs generalizing m with
  | nil => rfl
  | cons pair pairs ih =>
    rw [List.foldl_cons, ih, exportLocal]
    split <;> rfl

theorem defaultBinding_congr (h : m'.path = m.path) : m'.defaultBinding = m.defaultBinding := by
  rw [defaultBinding, defaultBinding, h]

theorem path_foldl_addExport (m : ScriptModule) (names : List String) (i : ℕ) :
    (names.foldl (fun m name ↦ m.addExport name i) m).path = m.path := by
  induction names generalizing m with
  | nil => rfl
  | cons name names ih => rw [List.foldl_cons, ih, addExport]

theorem path_foldl_exportLocal (m : ScriptModule) (pairs : List (String × String)) :
    (pairs.foldl exportLocal m).path = m.path := by
  induction pairs generalizing m with
  | nil => rfl
  | cons pair pairs ih =>
    rw [List.foldl_cons, ih, exportLocal]
    split <;> rfl

/-- A default export of a value stands at a position. -/
def DefaultValueAt (m : ScriptModule) (i : ℕ) : Prop :=
  ∃ start, (m.statements.map Statement.kind)[i]? = some (.defaultExpression start)

/-- What the record of an export does to the statements: it lets a default export of a value declare
the default binding, and nothing else. -/
theorem recordExport_cases (m : ScriptModule) (i : ℕ) (shape : ExportShape) :
    (m.recordExport i shape).path = m.path ∧
      ((m.recordExport i shape).statements = m.statements ∧
          ¬ (shape = .default ∧ m.DefaultValueAt i) ∨
        (m.recordExport i shape).statements = (m.define i m.defaultBinding).statements ∧
          shape = .default ∧ m.DefaultValueAt i) := by
  cases shape with
  | none => exact ⟨rfl, Or.inl ⟨rfl, by simp⟩⟩
  | named =>
    rw [recordExport]
    split
    · exact ⟨path_foldl_addExport m _ i, Or.inl ⟨statements_foldl_addExport m _ i, by simp⟩⟩
    · exact ⟨rfl, Or.inl ⟨rfl, by simp⟩⟩
  | default =>
    rw [recordExport]
    split
    · rename_i start hkind
      refine ⟨rfl, Or.inr ⟨rfl, rfl, start, ?_⟩⟩
      rw [List.getElem?_map, hkind]
    · rename_i hkind
      refine ⟨rfl, Or.inl ⟨rfl, ?_⟩⟩
      rintro ⟨-, start, hstart⟩
      rw [List.getElem?_map] at hstart
      exact hkind start hstart
  | list pairs =>
    exact ⟨path_foldl_exportLocal m pairs, Or.inl ⟨statements_foldl_exportLocal m pairs, by simp⟩⟩

theorem outlines_recordExport (m : ScriptModule) (i : ℕ) (shape : ExportShape) :
    (m.recordExport i shape).outlines = m.outlines := by
  obtain ⟨-, ⟨h, -⟩ | ⟨h, -⟩⟩ := m.recordExport_cases i shape
  · rw [outlines, h, outlines]
  · rw [outlines, h]
    exact outlines_define m _ _

theorem defaultValueAt_congr (h : m'.outlines = m.outlines) (i : ℕ) :
    m'.DefaultValueAt i ↔ m.DefaultValueAt i := by
  rw [DefaultValueAt, DefaultValueAt, map_kind_eq_of_outlines_eq h]

theorem DefaultValueAt.declaringAt {i : ℕ} (h : m.DefaultValueAt i) : m.DeclaringAt i := by
  obtain ⟨start, hstart⟩ := h
  exact (declaringAt_iff i).2 ⟨_, hstart, by simp⟩

theorem definesAt_recordExport (m : ScriptModule) (i : ℕ) (shape : ExportShape) (j : ℕ)
    (name : String) :
    (m.recordExport i shape).DefinesAt j name ↔ m.DefinesAt j name ∨
      i = j ∧ shape = .default ∧ m.DefaultValueAt j ∧ name = m.defaultBinding := by
  obtain ⟨-, ⟨h, hnot⟩ | ⟨h, hshape, hdefault⟩⟩ := m.recordExport_cases i shape
  · rw [DefinesAt, h]
    refine ⟨Or.inl, fun hor ↦ hor.resolve_right ?_⟩
    rintro ⟨rfl, hs, hd, -⟩
    exact hnot ⟨hs, hd⟩
  · rw [DefinesAt, h]
    refine (definesAt_define m i m.defaultBinding j name).trans (or_congr Iff.rfl ?_)
    constructor
    · rintro ⟨rfl, hn, -⟩
      exact ⟨rfl, hshape, hdefault, hn⟩
    · rintro ⟨rfl, -, hd, hn⟩
      exact ⟨rfl, hn, hd.declaringAt⟩

/-- The records of all exports. -/
theorem foldl_recordExport_spec (m : ScriptModule) (shapes : List (ExportShape × ℕ)) :
    (shapes.foldl (fun m (shape, i) ↦ m.recordExport i shape) m).outlines = m.outlines ∧
      ∀ i name, (shapes.foldl (fun m (shape, i) ↦ m.recordExport i shape) m).DefinesAt i name ↔
        m.DefinesAt i name ∨
          (.default, i) ∈ shapes ∧ m.DefaultValueAt i ∧ name = m.defaultBinding := by
  induction shapes generalizing m with
  | nil => exact ⟨rfl, fun i name ↦ by simp⟩
  | cons p shapes ih =>
    obtain ⟨shape, k⟩ := p
    have houtlines := outlines_recordExport m k shape
    obtain ⟨hall, hdefines⟩ := ih (m.recordExport k shape)
    rw [List.foldl_cons]
    refine ⟨hall.trans houtlines, fun i name ↦ ?_⟩
    rw [hdefines, definesAt_recordExport, defaultValueAt_congr houtlines,
      defaultBinding_congr (m.recordExport_cases k shape).1, List.mem_cons, Prod.mk.injEq,
      eq_comm (a := i), eq_comm (a := ExportShape.default)]
    tauto

/-! ### The statements of a program -/

/-- The statement of an item before it declares names. -/
def bareStatement (scoping : Scoping) (item : Item) (i : ℕ) : Statement :=
  ⟨(item.node.classify item.innerStart).1, item.span, .empty, .ofList (scoping.freeNames i)⟩

theorem addItem_eq (m : ScriptModule) (item : Item) (scoping : Scoping) (i : ℕ) :
    (m.addItem item (scoping.freeNames i)).statements =
        m.statements ++ [bareStatement scoping item i] ∧
      (m.addItem item (scoping.freeNames i)).path = m.path := by
  have himports : ∀ (bs : List (String × ImportBinding)) (m : ScriptModule),
      (bs.foldl (fun m b ↦ m.addImport b.1 b.2) m).statements = m.statements ∧
        (bs.foldl (fun m b ↦ m.addImport b.1 b.2) m).path = m.path := by
    intro bs
    induction bs with
    | nil => exact fun m ↦ ⟨rfl, rfl⟩
    | cons b bs ih => exact fun m ↦ ih (m.addImport b.1 b.2)
  obtain ⟨hs, hp⟩ := himports item.node.importBindings m
  rw [addItem, pushStatement, hs, hp]
  exact ⟨rfl, rfl⟩

theorem foldl_addItem_eq (m : ScriptModule) (scoping : Scoping) (items : List (Item × ℕ)) :
    (items.foldl (fun m (item, i) ↦ m.addItem item (scoping.freeNames i)) m).statements =
        m.statements ++ items.map (fun (item, i) ↦ bareStatement scoping item i) ∧
      (items.foldl (fun m (item, i) ↦ m.addItem item (scoping.freeNames i)) m).path = m.path := by
  induction items generalizing m with
  | nil => exact ⟨(List.append_nil _).symm, rfl⟩
  | cons q items ih =>
    obtain ⟨hs, hp⟩ := addItem_eq m q.1 scoping q.2
    obtain ⟨hs', hp'⟩ := ih (m.addItem q.1 (scoping.freeNames q.2))
    rw [List.foldl_cons, hs', hp', hs, hp, List.map_cons, List.append_assoc]
    exact ⟨rfl, rfl⟩

theorem path_foldl_recordExport (m : ScriptModule) (shapes : List (ExportShape × ℕ)) :
    (shapes.foldl (fun m (shape, i) ↦ m.recordExport i shape) m).path = m.path := by
  induction shapes generalizing m with
  | nil => rfl
  | cons p shapes ih => rw [List.foldl_cons, ih, (m.recordExport_cases p.2 p.1).1]

variable (path : Path) (source : String) (p : Program) (scoping : Scoping)

theorem outlines_ofProgram :
    (ofProgram path source p scoping).outlines = p.items.zipIdx.map fun (item, i) ↦
      ((item.node.classify item.innerStart).1, item.span, .ofList (scoping.freeNames i)) := by
  rw [ofProgram, (foldl_recordExport_spec _ _).1, outlines_foldl_assignBinding, outlines,
    (foldl_addItem_eq _ _ _).1, List.map_append, List.map_map]
  rfl

theorem definesAt_ofProgram (i : ℕ) (name : String) :
    (ofProgram path source p scoping).DefinesAt i name ↔
      (∃ b ∈ scoping.rootBindings,
          containingStatement? (p.items.map Item.span) b.offset = some i ∧ b.name = name) ∧
        (ofProgram path source p scoping).DeclaringAt i ∨
      (.default, i) ∈ (p.items.map fun item ↦ (item.node.classify item.innerStart).2).zipIdx ∧
        (ofProgram path source p scoping).DefaultValueAt i ∧
        name = (ofProgram path source p scoping).defaultBinding := by
  rw [ofProgram]
  obtain ⟨hitems, -⟩ := foldl_addItem_eq (empty path source) scoping p.items.zipIdx
  generalize p.items.zipIdx.foldl (fun m (item, i) ↦ m.addItem item (scoping.freeNames i))
    (empty path source) = m₁ at hitems ⊢
  have hempty : ¬ m₁.DefinesAt i name := by
    rintro ⟨s, hs, hname⟩
    have hmem := List.mem_of_getElem? hs
    rw [hitems, empty, List.nil_append] at hmem
    obtain ⟨q, -, rfl⟩ := List.mem_map.1 hmem
    exact absurd hname List.not_mem_nil
  have hholder : ∀ b, m₁.holderOf b = containingStatement? (p.items.map Item.span) b.offset := by
    intro b
    rw [holderOf, hitems, empty, List.nil_append, List.map_map]
    congr 1
    exact List.ext_getElem? fun j ↦ by simp [bareStatement, Function.comp_def]
  have hdefines := definesAt_foldl_assignBinding m₁ scoping.rootBindings i name
  have houtlines := outlines_foldl_assignBinding m₁ scoping.rootBindings
  simp only [hempty, false_or, hholder, ← declaringAt_congr houtlines] at hdefines
  generalize scoping.rootBindings.foldl assignBinding m₁ = m₂ at hdefines ⊢
  obtain ⟨houtlines', hdefines'⟩ := foldl_recordExport_spec m₂
    (p.items.map fun item ↦ (item.node.classify item.innerStart).2).zipIdx
  have hpath := path_foldl_recordExport m₂
    (p.items.map fun item ↦ (item.node.classify item.innerStart).2).zipIdx
  rw [hdefines', hdefines, declaringAt_congr houtlines', defaultValueAt_congr houtlines',
    defaultBinding_congr hpath]

/-- **The statement of an item**: its kind and place are those of the item, it uses the names that
are free in it, and it declares the names of the module whose declaration it holds, and the default
binding if it is a default export of a value. -/
theorem exists_statement_ofProgram {i : ℕ} {item : Item} (hi : p.items[i]? = some item) :
    ∃ s, (ofProgram path source p scoping).statements[i]? = some s ∧
      s.kind = (item.node.classify item.innerStart).1 ∧ s.span = item.span ∧
      s.depends = .ofList (scoping.freeNames i) ∧
      ∀ name, name ∈ s.defines.toList ↔
        s.kind ≠ .importLink ∧ (∃ b ∈ scoping.rootBindings,
          containingStatement? (p.items.map Item.span) b.offset = some i ∧ b.name = name) ∨
        (∃ start, s.kind = .defaultExpression start) ∧
          name = (ofProgram path source p scoping).defaultBinding := by
  have houtline : (ofProgram path source p scoping).outlines[i]? =
      some ((item.node.classify item.innerStart).1, item.span, .ofList (scoping.freeNames i)) := by
    simp [outlines_ofProgram, hi]
  rw [outlines, List.getElem?_map] at houtline
  obtain ⟨s, hs, heq⟩ := Option.map_eq_some_iff.1 houtline
  rw [Prod.mk.injEq, Prod.mk.injEq] at heq
  refine ⟨s, hs, heq.1, heq.2.1, heq.2.2, fun name ↦ ?_⟩
  have hdefines : (ofProgram path source p scoping).DefinesAt i name ↔ name ∈ s.defines.toList := by
    simp [DefinesAt, hs]
  have hdeclaring : (ofProgram path source p scoping).DeclaringAt i ↔ s.kind ≠ .importLink := by
    simp [DeclaringAt, hs]
  have hdefault : (ofProgram path source p scoping).DefaultValueAt i ↔
      ∃ start, s.kind = .defaultExpression start := by
    simp [DefaultValueAt, hs]
  have hshape : (∃ start, s.kind = .defaultExpression start) → (ExportShape.default, i) ∈
      (p.items.map fun item ↦ (item.node.classify item.innerStart).2).zipIdx := by
    rintro ⟨start, hstart⟩
    rw [heq.1] at hstart
    rw [List.mem_zipIdx_iff_getElem?, List.getElem?_map, hi, Option.map_some,
      item.node.classify_eq_default hstart]
  rw [← hdefines, definesAt_ofProgram, hdeclaring, hdefault]
  exact or_congr and_comm ⟨fun h ↦ h.2, fun h ↦ ⟨hshape h.1, h⟩⟩

end ScriptModule

end AppletBundle.Script
