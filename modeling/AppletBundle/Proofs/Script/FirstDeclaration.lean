import AppletBundle.Proofs.Script.FirstSymbol
import AppletBundle.Proofs.Script.Reannotation

/-!
# The first declaration of a name

A name of the module belongs to the statement that holds its first declaration. So that statement is
selected when the name is needed, while a statement that declares the name again, with a second
`var`, is not selected for it.

* `exists_rootBinding_of_first` finds the binding of a name in the first item that declares it.
* `imports_ofProgram` says that the names of import declarations are among the imports of the
  module, so that an item which declares a name that is not imported can be part of the output.

The main result is `select_keeps_first_declaration`.
-/

namespace AppletBundle.Script

/-! ### Declarations for the module -/

/-- The item at a position declares a name for the module. -/
def Program.Declares (p : Program) (i : ℕ) (name : String) : Prop :=
  ∃ item, p.items[i]? = some item ∧ name ∈ moduleNames [] item.node.events

instance (p : Program) (i : ℕ) (name : String) : Decidable (p.Declares i name) :=
  inferInstanceAs (Decidable (∃ item ∈ p.items[i]?, name ∈ moduleNames [] item.node.events))

/-- **The module has its binding of a name where the name is declared first.** -/
theorem Program.exists_rootBinding_of_first (p : Program) {i : ℕ} {item : Item} {name : String}
    (hitem : p.items[i]? = some item) (hname : name ∈ moduleNames [] item.node.events)
    (hfirst : ∀ k < i, ¬ p.Declares k name) :
    ∃ b ∈ (Scoping.ofEvents p.events).rootBindings, b.name = name ∧
      ∃ kind c, .declare kind c ∈ item.node.events ∧ c.offset = b.offset := by
  have hi := getElem?_itemEvents hitem
  obtain ⟨hlt, hget⟩ := List.getElem?_eq_some_iff.1 hi
  have hsplit : p.itemEvents = p.itemEvents.take i ++ item.node.events ::
      p.itemEvents.drop (i + 1) := by
    rw [← hget, ← List.drop_eq_getElem_cons hlt, List.take_append_drop]
  have hess := p.nested_itemEvents
  rw [p.events_eq]
  rw [hsplit] at hess ⊢
  refine Scoping.exists_rootBinding_of_first hess hname fun fs hfs hn ↦ ?_
  obtain ⟨k, hk⟩ := List.mem_iff_getElem?.1 hfs
  rw [List.getElem?_take] at hk
  split at hk
  · rename_i hki
    rw [Program.itemEvents, List.getElem?_map] at hk
    obtain ⟨item', hitem', rfl⟩ := Option.map_eq_some_iff.1 hk
    exact hfirst k hki ⟨item', hitem', hn⟩
  · cases hk

/-! ### Imported names -/

theorem moduleNames_declareAll (kind : DeclarationKind) (bs : List Binding) :
    moduleNames [] (declareAll kind bs) = bs.map Binding.name := by
  induction bs with
  | nil => rfl
  | cons b bs ih => exact congrArg (b.name :: ·) ih

theorem moduleNames_referAll (specifiers : List ExportSpecifier) :
    moduleNames [] (specifiers.map fun s ↦ .refer s.localName.text) = [] := by
  induction specifiers with
  | nil => rfl
  | cons s specifiers ih => exact ih

/-- An item that declares a name which it does not import can be part of the output. -/
theorem Node.isEmittable_classify {n : Node} {innerStart : ℕ} {name : String}
    (hname : name ∈ moduleNames [] n.events) (himport : name ∉ n.importBindings.map Prod.fst) :
    (n.classify innerStart).1.isEmittable = true := by
  fun_induction Node.classify innerStart n with
  | case1 comments statement ih => exact ih hname himport
  | case2 specifiers source attributes =>
    cases specifiers with
    | none => exact absurd hname List.not_mem_nil
    | some specifiers =>
      have hdeclared : name ∈ moduleNames []
          (declareAll .imported (specifiers.map ImportSpecifier.binding)) := hname
      rw [moduleNames_declareAll, List.map_map] at hdeclared
      have hnames : (importFrom (some specifiers) source attributes).importBindings.map Prod.fst =
          specifiers.map (Binding.name ∘ ImportSpecifier.binding) := List.map_map
      exact absurd (hnames ▸ hdeclared) himport
  | case3 => exact absurd hname List.not_mem_nil
  | case4 => exact absurd hname List.not_mem_nil
  | case6 specifiers =>
    have hdeclared : name ∈ moduleNames [] (specifiers.map fun s ↦ .refer s.localName.text) :=
      hname
    rw [moduleNames_referAll] at hdeclared
    exact absurd hdeclared List.not_mem_nil
  | _ => rfl

namespace ScriptModule

/-- What no step changes is not changed by all of them. -/
theorem apply_foldl {α β : Type} (g : ScriptModule → β) {f : ScriptModule → α → ScriptModule}
    (hf : ∀ m a, g (f m a) = g m) (as : List α) (m : ScriptModule) :
    g (as.foldl f m) = g m := by
  induction as generalizing m with
  | nil => rfl
  | cons a as ih => rw [List.foldl_cons, ih, hf]

/-- What stays when names are declared and exported stays when an export is recorded. -/
theorem apply_recordExport {β : Type} {g : ScriptModule → β}
    (hdefine : ∀ m i name, g (define m i name) = g m)
    (hexport : ∀ m name i, g (addExport m name i) = g m) (m : ScriptModule) (i : ℕ)
    (shape : ExportShape) : g (m.recordExport i shape) = g m := by
  cases shape with
  | none => rfl
  | named =>
    rw [recordExport]
    split
    · exact apply_foldl g (fun m name ↦ hexport m name i) _ m
    · rfl
  | default =>
    rw [recordExport]
    split
    · exact (hexport _ _ _).trans (hdefine _ _ _)
    · exact hexport _ _ _
  | list pairs =>
    refine apply_foldl g (fun m pair ↦ ?_) pairs m
    rw [exportLocal]
    split
    · exact hexport _ _ _
    · rfl

/-- What stays when names are declared and exported is settled once the items are there. -/
theorem apply_ofProgram {β : Type} (g : ScriptModule → β)
    (hdefine : ∀ m i name, g (define m i name) = g m)
    (hexport : ∀ m name i, g (addExport m name i) = g m) (path : Path) (source : String)
    (p : Program) (scoping : Scoping) :
    g (ofProgram path source p scoping) =
      g (p.items.zipIdx.foldl (fun m (item, i) ↦ m.addItem item (scoping.freeNames i))
        (empty path source)) := by
  have hrecord : ∀ (m : ScriptModule) (q : ExportShape × ℕ), g (m.recordExport q.2 q.1) = g m :=
    fun m q ↦ apply_recordExport hdefine hexport m q.2 q.1
  have hassign : ∀ (m : ScriptModule) (b : Binding), g (m.assignBinding b) = g m := by
    intro m b
    rw [assignBinding]
    split
    · exact hdefine _ _ _
    · rfl
  exact (apply_foldl g hrecord _ _).trans (apply_foldl g hassign _ _)

/-- A name is among the imports. -/
def Imports (m : ScriptModule) (name : String) : Prop :=
  (m.imports.get? name).isSome = true

theorem imports_addImports {m : ScriptModule} {name : String} {bs : List (String × ImportBinding)}
    (h : name ∈ bs.map Prod.fst ∨ m.Imports name) :
    (bs.foldl (fun m b ↦ m.addImport b.1 b.2) m).Imports name := by
  induction bs generalizing m with
  | nil => exact h.resolve_left List.not_mem_nil
  | cons b bs ih =>
    refine ih ?_
    rw [List.map_cons, List.mem_cons, or_comm (a := name = b.1), or_assoc] at h
    refine h.imp_right fun h ↦ ?_
    show ((m.imports.insert b.1 b.2).get? name).isSome = true
    rw [OrderedMap.get?_insert]
    split
    · rfl
    · exact h.resolve_left ‹_›

theorem imports_addItems {m : ScriptModule} {name : String} {scoping : Scoping}
    {items : List (Item × ℕ)}
    (h : (∃ q ∈ items, name ∈ q.1.node.importBindings.map Prod.fst) ∨ m.Imports name) :
    (items.foldl (fun m (item, i) ↦ m.addItem item (scoping.freeNames i)) m).Imports name := by
  induction items generalizing m with
  | nil => exact h.resolve_left (by simp)
  | cons q items ih =>
    refine ih ?_
    rw [List.exists_mem_cons_iff, or_comm (a := name ∈ _), or_assoc] at h
    exact h.imp_right imports_addImports

/-- **The module imports what its items import.** -/
theorem imports_ofProgram (path : Path) (source : String) {p : Program} (scoping : Scoping)
    {item : Item} (hitem : item ∈ p.items) {name : String}
    (hname : name ∈ item.node.importBindings.map Prod.fst) :
    (ofProgram path source p scoping).Imports name := by
  obtain ⟨i, hi⟩ := List.mem_iff_getElem?.1 hitem
  rw [Imports, apply_ofProgram imports (fun _ _ _ ↦ rfl) (fun _ _ _ ↦ rfl)]
  exact imports_addItems (Or.inl ⟨(item, i), List.mem_zipIdx_iff_getElem?.2 hi, hname⟩)

/-! ### Selection -/

/-- The statement of the item that declares a name first declares the name, and can be part of the
output. -/
theorem declares_ofProgram {path : Path} {source : String} {p : Program} (hplaced : p.Placed)
    {name : String} (himport : (p.annotated path source).imports.get? name = none) {i : ℕ}
    (hi : p.Declares i name) (hfirst : ∀ k < i, ¬ p.Declares k name) :
    (p.annotated path source).EmittableAt i ∧ (p.annotated path source).Declares i name := by
  obtain ⟨item, hitem, hname⟩ := hi
  obtain ⟨s, hs, hkind, -, -, hdefines⟩ :=
    exists_statement_ofProgram path source p (Scoping.ofEvents p.events) hitem
  have hnew : name ∉ item.node.importBindings.map Prod.fst := by
    intro hmem
    have h := imports_ofProgram path source (Scoping.ofEvents p.events)
      (List.mem_of_getElem? hitem) hmem
    rw [Imports, ← Program.annotated, himport] at h
    cases h
  have hemit : s.kind.isEmittable = true := hkind ▸ Node.isEmittable_classify hname hnew
  have hlink : s.kind ≠ .importLink := by
    intro hlink
    rw [hlink] at hemit
    cases hemit
  obtain ⟨b, hb, hbname, kind, c, hc, hoffset⟩ := p.exists_rootBinding_of_first hitem hname hfirst
  have hholder := hoffset ▸ hplaced.containingStatement?_eq hitem hc
  exact ⟨⟨s, hs, hemit⟩, s, hs, hlink,
    (hdefines name).2 (Or.inl ⟨hlink, b, hb, hholder, hbname⟩)⟩

/-- **Selection keeps the first declaration of every name that is needed.** If a live statement uses
a name that is not imported, the first statement that declares the name for the module is selected:
with `let`, `const`, `class` or `function` outside all scopes, or with `var` outside functions. -/
theorem select_keeps_first_declaration {path : Path} {source : String} {m : ScriptModule}
    {p : Program} (hp : parseScript source = .ok p) (hplaced : p.Placed)
    (hm : annotate path source = .ok m) {globals : KnownGlobals} {selection : Selection}
    (hselect : m.select ⟨.reachability, globals⟩ = .ok selection) {name : String}
    (himport : m.imports.get? name = none) {j : ℕ} (hlive : m.Live j) (huse : m.Uses j name) {i : ℕ}
    (hi : p.Declares i name) (hfirst : ∀ k < i, ¬ p.Declares k name) :
    i ∈ selection.statements := by
  obtain ⟨-, rfl⟩ := (annotate_eq_ok_iff hp).1 hm
  obtain ⟨hemittable, hdeclares⟩ := declares_ofProgram hplaced himport hi hfirst
  rw [(select_eq_ok hselect).1, mem_emitted_iff]
  exact ⟨hemittable, (marked_reachable_iff _).2 (hlive.use huse hdeclares)⟩

/-- A variable that is declared in a block, used, and declared again. -/
def againSource : String :=
  "import './x'\n\x7b var a = f; \x7d\nexport const b = a;\nvar a = 2;"

def againModule : ScriptModule :=
  (programOf againSource).annotated ⟨"app.js"⟩ againSource

theorem select_keeps_first_declaration_again :
    againModule.select ⟨.reachability, ⟨["f"]⟩⟩ = .ok ⟨[1, 2], .empty⟩ ∧
      (programOf againSource).Declares 1 "a" ∧ 1 ∈ [1, 2] := by
  have hsource : (parseScript againSource).toOption.isSome = true ∧
      (programOf againSource).Placed ∧
      (Scoping.ofEvents (programOf againSource).events).clash = false ∧
      againModule.select ⟨.reachability, ⟨["f"]⟩⟩ = .ok ⟨[1, 2], .empty⟩ ∧
      againModule.imports.get? "a" = none ∧ againModule.reachable[2]? = some true ∧
      (∃ s ∈ againModule.statements[2]?, "a" ∈ s.depends.toList) ∧
      (programOf againSource).Declares 1 "a" ∧
      ∀ k < 1, ¬ (programOf againSource).Declares k "a" := by
    decide +kernel
  obtain ⟨hparse, hplaced, hclash, hselect, himport, hlive, ⟨s, hs, huse⟩, hi, hfirst⟩ := hsource
  have hp := parseScript_eq_ok hparse
  refine ⟨hselect, hi, ?_⟩
  exact select_keeps_first_declaration hp hplaced ((annotate_eq_ok_iff hp).2 ⟨hclash, rfl⟩) hselect
    himport (live_of_marked_reachable _ hlive) ⟨s, hs, huse⟩ hi hfirst

/-- The second declaration is part of no output, though it is one of a name that is needed. -/
example : (programOf againSource).Declares 3 "a" ∧
    ∀ s ∈ againModule.statements[3]?, "a" ∉ s.defines.toList := by
  decide +kernel

end ScriptModule

end AppletBundle.Script
