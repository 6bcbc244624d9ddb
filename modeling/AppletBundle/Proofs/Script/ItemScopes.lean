import AppletBundle.Ordered.Map
import AppletBundle.Proofs.Script.OpenReferences
import Mathlib.Data.List.Induction

/-!
# Scopes item by item

The scopes of a module are those of its items, each looked at alone, if no name is declared for the
module by two items: the symbols of the module follow one another, and the free names of an item are
those that it has when it stands alone. So the items that are left when others are dropped declare
and use the same names as before.

* `joined_runItems` is the invariant of the run through the items, by induction on their number.
* `rootBindings_ofEvents`, `freeNames_ofEvents` and `clash_ofEvents` read the three results off it.
-/

namespace AppletBundle.Script.Scoping

/-- The run through the events of one item, as if there were no other. -/
def alone (es : List ScopeEvent) : Scoping :=
  es.foldl step initial

/-- The names that an item uses freely. -/
def namesUsed (es : List ScopeEvent) : List String :=
  (uses (alone es).symbols (alone es).references).map Prod.snd

/-- The run through the events of all items. -/
def runItems (ess : List (List ScopeEvent)) : Scoping :=
  (ess.flatMap fun es ↦ .item :: es).foldl step initial

/-- Every name is declared for the module by one item at most. -/
def Separate (ess : List (List ScopeEvent)) : Prop :=
  ess.Pairwise fun es fs ↦ ∀ name ∈ moduleNames [] es, name ∉ moduleNames [] fs

/-- What the run through items has come to. -/
structure Joined (ess : List (List ScopeEvent)) (st : Scoping) : Prop where
  sound : Sound st
  root : ∃ root, st.scopes = [root] ∧ root.kind = .root ∧ root.passing = [] ∧
    ∀ name ∈ root.names.map Prod.fst, ∃ es ∈ ess, name ∈ moduleNames [] es
  items : st.items = ess.length
  symbols : st.symbols.toList = ess.flatMap fun es ↦ (alone es).symbols.toList
  uses : ∀ i, ((Scoping.uses st.symbols st.references).filter fun u ↦ u.1 == i).map Prod.snd =
    ((ess[i]?).map namesUsed).getD []
  clash : st.clash = ess.any fun es ↦ (alone es).clash

/-! ### One item more -/

theorem runItems_concat (ess : List (List ScopeEvent)) (es : List ScopeEvent) :
    runItems (ess ++ [es]) = es.foldl step ((runItems ess).step .item) := by
  rw [runItems, List.flatMap_append, List.foldl_append, List.flatMap_singleton]
  rfl

theorem onto_initial (move : ℕ → ℕ) {base : Scoping} {root : OpenScope}
    (hscopes : base.scopes = [root]) (hkind : root.kind = .root) (hpassing : root.passing = []) :
    onto move base root initial = base := by
  obtain ⟨kind, names, passing, waiting⟩ := root
  obtain rfl : kind = .root := hkind
  obtain rfl : passing = [] := hpassing
  obtain ⟨scopes, symbols, references, items, clash⟩ := base
  obtain rfl : scopes = _ := hscopes
  simp [onto, initial, scopesOnto, OpenScope.shift, OpenScope.over]

theorem freeIn_append {symbols : Array Symbol} (later : Array Symbol) {r : Reference}
    (hvalid : ∀ k, r.symbol = some k → Known symbols True k) :
    freeIn (symbols ++ later) r = freeIn symbols r := by
  rw [freeIn, freeIn]
  cases hk : r.symbol with
  | none => rfl
  | some k =>
    obtain ⟨c, hc, -⟩ := hvalid k hk
    obtain ⟨y, hy, -⟩ := Option.map_eq_some_iff.1 hc
    rw [Option.all_some, Option.all_some, Array.getElem?_append,
      if_pos (Array.getElem?_eq_some_iff.1 hy).1]

theorem freeIn_shift (move : ℕ → ℕ) (earlier symbols : Array Symbol) (item : ℕ) (r : Reference) :
    freeIn (earlier ++ symbols.map (Symbol.moved move)) (r.shift earlier.size item) =
      freeIn symbols r := by
  rw [freeIn, freeIn, Reference.shift]
  cases r.symbol with
  | none => rfl
  | some k =>
    rw [Option.map_some, Option.all_some, Option.all_some, Array.getElem?_append,
      if_neg (Nat.not_lt.2 (Nat.le_add_right _ _)), Nat.add_sub_cancel_left, Array.getElem?_map]
    cases symbols[k]? <;> rfl

/-- The free names of an item follow those before it. -/
theorem uses_onto (move : ℕ → ℕ) {base : Scoping} (root : OpenScope) (st : Scoping)
    (hbase : ∀ i k, StandsFor base.references i k → Known base.symbols True k) :
    uses (onto move base root st).symbols (onto move base root st).references =
      uses base.symbols base.references ++
        (uses st.symbols st.references).map fun u ↦ (base.items - 1, u.2) := by
  change uses (base.symbols ++ st.symbols.map (Symbol.moved move)) (base.references ++
    st.references.map (Reference.shift base.symbols.size (base.items - 1))) = _
  simp only [uses, Array.toList_append, List.filterMap_append, Array.toList_map,
    List.filterMap_map, List.map_filterMap]
  congr 1
  · refine List.filterMap_congr fun r hr ↦ ?_
    obtain ⟨i, hi⟩ := List.mem_iff_getElem?.1 hr
    rw [Array.getElem?_toList] at hi
    rw [freeIn_append _ fun k hk ↦ hbase i k ⟨r, hi, hk⟩]
  · refine List.filterMap_congr fun r _ ↦ ?_
    rw [Function.comp_apply, freeIn_shift]
    split <;> rfl

theorem map_kind_initial : initial.scopes.map OpenScope.kind = [] ++ [.root] := rfl

/-- The run through one item more is the run through it alone, on top of what has been. -/
theorem foldl_step_eq_onto (move : ℕ → ℕ) (base : Scoping) {root : OpenScope} {es : List ScopeEvent}
    (hes : Nested es) (hscopes : base.scopes = [root]) (hkind : root.kind = .root)
    (hpassing : root.passing = [])
    (hnew : ∀ name ∈ moduleNames [] es, name ∉ root.names.map Prod.fst) :
    (es.map (ScopeEvent.moved move)).foldl step base = onto move base root (alone es) := by
  have h := foldl_step_onto move base root map_kind_initial (hes []) fun name hn ↦
    lookup_eq_none_iff_not_mem.2 (hnew name hn)
  rwa [onto_initial move hscopes hkind hpassing] at h

/-- The root scope after the run through one item. -/
theorem exists_root_alone {es : List ScopeEvent} (hes : Nested es) :
    ∃ s, (alone es).scopes = [s] ∧ s.kind = .root ∧ s.passing = [] ∧
      ∀ name ∈ s.names.map Prod.fst, name ∈ moduleNames [] es := by
  have hkinds : (alone es).scopes.map OpenScope.kind = [] ++ [.root] :=
    map_kind_foldl_step map_kind_initial (hes [])
  obtain ⟨s, hs, hkind⟩ := List.map_eq_singleton_iff.1 hkinds
  have hapart := (sound_initial.foldl_step map_kind_initial (hes [])).apart
  change Apart _ (alone es).scopes at hapart
  rw [hs] at hapart
  refine ⟨s, hs, hkind, hapart.2.1, fun name hname ↦ ?_⟩
  rcases rootNames_foldl_step map_kind_initial (hes []) name
    (by change name ∈ rootNames (alone es).scopes; rw [hs]; exact hname) with hn | hn
  · cases hn
  · exact hn

/-- The uses of one item more, read off for one item. -/
theorem filter_uses_concat {ess : List (List ScopeEvent)} {es : List ScopeEvent}
    {us : List (ℕ × String)} {i : ℕ}
    (h : (us.filter fun u ↦ u.1 == i).map Prod.snd = ((ess[i]?).map namesUsed).getD []) :
    ((us ++ (uses (alone es).symbols (alone es).references).map fun u ↦ (ess.length, u.2)).filter
        fun u ↦ u.1 == i).map Prod.snd = (((ess ++ [es])[i]?).map namesUsed).getD [] := by
  rw [List.filter_append, List.map_append, h, List.filter_map, List.map_map]
  by_cases hi : ess.length = i
  · subst hi
    simp [namesUsed, Function.comp_def]
  · have hlast : (ess ++ [es])[i]? = ess[i]? := by
      rw [List.getElem?_append]
      split
      · rfl
      · rw [List.getElem?_eq_none (by simp; omega), List.getElem?_eq_none (by omega)]
    have hne : ((fun u : ℕ × String ↦ u.1 == i) ∘
        fun u : ℕ × String ↦ (ess.length, u.2)) = fun _ ↦ false := by
      funext u
      simpa using hi
    rw [hlast, hne, List.filter_false, List.map_nil, List.append_nil]

theorem joined_nil : Joined [] initial where
  sound := sound_initial
  root := ⟨_, rfl, rfl, rfl, by simp⟩
  items := rfl
  symbols := rfl
  uses _ := rfl
  clash := rfl

/-- One item more, which declares for the module no name that is there already. -/
theorem Joined.concat {ess : List (List ScopeEvent)} {st : Scoping} (h : Joined ess st)
    {es : List ScopeEvent} (hes : Nested es)
    (hnew : ∀ fs ∈ ess, ∀ name ∈ moduleNames [] fs, name ∉ moduleNames [] es) :
    Joined (ess ++ [es]) (es.foldl step (st.step .item)) := by
  obtain ⟨root, hscopes, hkind, hpassing, hnames⟩ := h.root
  have hsound : Sound (st.step .item) :=
    ⟨h.sound.apart, h.sound.valid, h.sound.nodup, h.sound.isOpen⟩
  have hscopes' : (st.step .item).scopes = [root] := hscopes
  have hkinds : (st.step .item).scopes.map OpenScope.kind = [] ++ [.root] := by
    rw [hscopes', List.map_singleton, hkind, List.nil_append]
  have honto : es.foldl step (st.step .item) = onto id (st.step .item) root (alone es) := by
    rw [← foldl_step_eq_onto id _ hes hscopes' hkind hpassing, ScopeEvent.map_moved_id]
    intro name hn hroot
    obtain ⟨fs, hfs, hname⟩ := hnames name hroot
    exact hnew fs hfs name hname hn
  refine ⟨hsound.foldl_step hkinds (hes []), ?_, ?_, ?_, fun i ↦ ?_, ?_⟩
  · obtain ⟨s, hs, hskind, hspassing, hsnames⟩ := exists_root_alone hes
    refine ⟨(s.shift st.symbols.size st.references.size).over root, ?_, hskind, ?_,
      fun name hname ↦ ?_⟩
    · rw [honto, onto, hs]
      rfl
    · rw [OpenScope.over, OpenScope.shift, hspassing, List.map_nil]
    · rw [OpenScope.over, OpenScope.shift, List.map_append, List.map_map] at hname
      rcases List.mem_append.1 hname with hname | hname
      · exact ⟨es, List.mem_append_right _ (List.mem_singleton_self es), hsnames name hname⟩
      · obtain ⟨fs, hfs, hn⟩ := hnames name hname
        exact ⟨fs, List.mem_append_left _ hfs, hn⟩
  · rw [honto, List.length_append, List.length_singleton, ← h.items]
    rfl
  · rw [honto, List.flatMap_append, List.flatMap_singleton, ← h.symbols, onto,
      Symbol.map_moved_id]
    exact Array.toList_append
  · have hitems : (st.step .item).items - 1 = ess.length := h.items
    rw [honto, uses_onto _ _ _ hsound.valid, hitems]
    exact filter_uses_concat (h.uses i)
  · rw [honto, List.any_append, ← h.clash]
    simp [onto, step]

/-- **The run through items joins the runs through each of them.** -/
theorem joined_runItems {ess : List (List ScopeEvent)} (hess : ∀ es ∈ ess, Nested es)
    (hsep : Separate ess) : Joined ess (runItems ess) := by
  induction ess using List.reverseRecOn with
  | nil => exact joined_nil
  | append_singleton ess es ih =>
    rw [Separate, List.pairwise_append] at hsep
    rw [runItems_concat]
    exact (ih (fun fs hfs ↦ hess fs (List.mem_append_left _ hfs)) hsep.1).concat
      (hess es (List.mem_append_right _ (List.mem_singleton_self es)))
      fun fs hfs ↦ hsep.2.2 fs hfs es (List.mem_singleton_self es)

/-! ### The scopes of a module -/

variable {ess : List (List ScopeEvent)}

theorem ofEvents_flatMap (ess : List (List ScopeEvent)) :
    ofEvents (ess.flatMap fun es ↦ .item :: es) = (runItems ess).settle := rfl

/-- The names of a module are those of its items, one item after the other. -/
theorem rootBindings_ofEvents (hess : ∀ es ∈ ess, Nested es) (hsep : Separate ess) :
    (ofEvents (ess.flatMap fun es ↦ .item :: es)).rootBindings =
      ess.flatMap fun es ↦ (alone es).rootBindings := by
  have h := joined_runItems hess hsep
  obtain ⟨root, hscopes, -⟩ := h.root
  rw [ofEvents_flatMap, settle_cons hscopes]
  simp only [rootBindings, h.symbols, List.filter_flatMap, List.map_flatMap]

/-- The free names of an item of a module are those that it uses freely when it stands alone. -/
theorem freeNames_ofEvents (hess : ∀ es ∈ ess, Nested es) (hsep : Separate ess) {i : ℕ}
    {es : List ScopeEvent} (hi : ess[i]? = some es) :
    (ofEvents (ess.flatMap fun es ↦ .item :: es)).freeNames i = namesUsed es := by
  have h := joined_runItems hess hsep
  obtain ⟨root, hscopes, -⟩ := h.root
  rw [ofEvents_flatMap, freeNames_settle h.sound hscopes, freeNames_eq, h.uses, hi]
  rfl

/-- A module has a clash if one of its items has. -/
theorem clash_ofEvents (hess : ∀ es ∈ ess, Nested es) (hsep : Separate ess) :
    (ofEvents (ess.flatMap fun es ↦ .item :: es)).clash = ess.any fun es ↦ (alone es).clash := by
  have h := joined_runItems hess hsep
  obtain ⟨root, hscopes, -⟩ := h.root
  rw [ofEvents_flatMap, settle_cons hscopes]
  exact h.clash

/-! ### An item somewhere else -/

/-- The names that an item declares for the module. -/
def namesDeclared (es : List ScopeEvent) : List String :=
  (alone es).rootBindings.map Binding.name

theorem rootBindings_onto (move : ℕ → ℕ) (base : Scoping) (root : OpenScope) (st : Scoping) :
    (onto move base root st).rootBindings =
      base.rootBindings ++ st.rootBindings.map (Binding.moved move) := by
  have hmoved : ∀ ys : List Symbol,
      ((ys.map (Symbol.moved move)).filter Symbol.atRoot).map
          (fun s ↦ (⟨s.name, s.offset⟩ : Binding)) =
        ((ys.filter Symbol.atRoot).map fun s ↦ (⟨s.name, s.offset⟩ : Binding)).map
          (Binding.moved move) := by
    intro ys
    rw [List.filter_map, List.map_map, List.map_map]
    rfl
  rw [rootBindings, onto]
  simp only [Array.toList_append, Array.toList_map, List.filter_append, List.map_append, hmoved]
  rfl

variable {es : List ScopeEvent}

theorem alone_map_moved (move : ℕ → ℕ) (hes : Nested es) :
    alone (es.map (ScopeEvent.moved move)) = onto move initial ⟨.root, [], [], []⟩ (alone es) :=
  foldl_step_eq_onto move initial hes rfl rfl rfl (by simp)

/-- The state after a single declaration outside all scopes. -/
def declared (b : Binding) : Scoping :=
  initial.step (.declare .lexical b)

theorem alone_declare_cons (move : ℕ → ℕ) (hes : Nested es) {b : Binding}
    (hb : b.name ∉ moduleNames [] es) :
    alone (.declare .lexical b :: es.map (ScopeEvent.moved move)) =
      onto move (declared b) ⟨.root, [(b.name, 0)], [], []⟩ (alone es) := by
  refine foldl_step_eq_onto move (declared b) hes rfl rfl rfl fun name hn hmem ↦ ?_
  rw [List.mem_singleton.1 hmem] at hn
  exact hb hn

/-- An item declares and uses the same names wherever it stands. -/
theorem namesUsed_map_moved (move : ℕ → ℕ) (hes : Nested es) :
    namesUsed (es.map (ScopeEvent.moved move)) = namesUsed es := by
  rw [namesUsed, alone_map_moved move hes, uses_onto _ _ _ sound_initial.valid, namesUsed,
    List.map_append, List.map_map]
  rfl

theorem namesDeclared_map_moved (move : ℕ → ℕ) (hes : Nested es) :
    namesDeclared (es.map (ScopeEvent.moved move)) = namesDeclared es := by
  rw [namesDeclared, alone_map_moved move hes, rootBindings_onto, namesDeclared, List.map_append,
    List.map_map]
  rfl

theorem clash_map_moved (move : ℕ → ℕ) (hes : Nested es) :
    (alone (es.map (ScopeEvent.moved move))).clash = (alone es).clash := by
  rw [alone_map_moved move hes]
  exact Bool.false_or _

/-- A declaration in front of an item that does not declare the name itself adds the name and
changes nothing else. -/
theorem namesUsed_declare_cons (move : ℕ → ℕ) (hes : Nested es) {b : Binding}
    (hb : b.name ∉ moduleNames [] es) :
    namesUsed (.declare .lexical b :: es.map (ScopeEvent.moved move)) = namesUsed es := by
  have hvalid : ∀ i k, StandsFor (declared b).references i k →
      Known (declared b).symbols True k := by
    rintro i k ⟨r, hr, -⟩
    cases hr
  rw [namesUsed, alone_declare_cons move hes hb, uses_onto _ _ _ hvalid, namesUsed,
    List.map_append, List.map_map]
  rfl

theorem namesDeclared_declare_cons (move : ℕ → ℕ) (hes : Nested es) {b : Binding}
    (hb : b.name ∉ moduleNames [] es) :
    namesDeclared (.declare .lexical b :: es.map (ScopeEvent.moved move)) =
      b.name :: namesDeclared es := by
  rw [namesDeclared, alone_declare_cons move hes hb, rootBindings_onto, namesDeclared,
    List.map_append, List.map_map]
  rfl

theorem clash_declare_cons (move : ℕ → ℕ) (hes : Nested es) {b : Binding}
    (hb : b.name ∉ moduleNames [] es) :
    (alone (.declare .lexical b :: es.map (ScopeEvent.moved move))).clash = (alone es).clash := by
  rw [alone_declare_cons move hes hb]
  exact Bool.false_or _

/-- The place of a symbol is that of a declaration: moving everything but the declarations moves no
symbol. -/
theorem exists_declare_of_mem_rootBindings (hes : Nested es) {b : Binding}
    (hb : b ∈ (alone es).rootBindings) :
    ∃ kind c, ScopeEvent.declare kind c ∈ es ∧ c.offset = b.offset := by
  classical
  by_contra hnone
  -- This moves the offset in question, at which no declaration stands, and no other.
  let move : ℕ → ℕ := fun o ↦ if o = b.offset then o + 1 else o
  have hmap : es.map (ScopeEvent.moved move) = es := by
    refine (List.map_congr_left fun e he ↦ ?_).trans (List.map_id es)
    cases e with
    | declare kind c =>
      have hc : c.offset ≠ b.offset := fun h ↦ hnone ⟨kind, c, he, h⟩
      simp [ScopeEvent.moved, Binding.moved, move, hc]
    | _ => rfl
  have hroot : (alone es).rootBindings = (alone es).rootBindings.map (Binding.moved move) := by
    conv_lhs => rw [← hmap, alone_map_moved move hes, rootBindings_onto]
    rfl
  rw [hroot] at hb
  obtain ⟨c, -, hc⟩ := List.mem_map.1 hb
  have hmove : move c.offset = b.offset := congrArg Binding.offset hc
  simp only [move] at hmove
  split at hmove
  · omega
  · contradiction

end AppletBundle.Script.Scoping
