import AppletBundle.Proofs.Script.Nesting

/-!
# Scopes on top of others

What happens to the names of one item of a module depends neither on the items before it, except for
where its symbols and references are numbered from, nor on where the item stands, except for the
places of its declarations. `onto move base root st` is the state `st` of a run that began with
nothing, with its declarations moved and its numbers following on `base`, whose root scope is
`root`.

* `step_onto` moves one event from the run that begins with nothing to the run that goes on, unless
  it declares for the module a name that the root has already.
* `foldl_step_onto` does so for all the events of a part.
-/

namespace AppletBundle.Script

/-! ### Scopes that let a variable pass -/

/-- A `var` in the innermost scope is one of the outermost. -/
def OpenToRoot (scopes : List OpenScope) : Prop :=
  ∀ k ∈ (scopes.map OpenScope.kind).dropLast, ¬ k.holdsVars

theorem OpenToRoot.tail {s : OpenScope} {outer : List OpenScope} (h : OpenToRoot (s :: outer)) :
    OpenToRoot outer := by
  cases outer with
  | nil => exact fun _ hu ↦ absurd hu List.not_mem_nil
  | cons t rest => exact fun u hu ↦ h u (List.mem_cons_of_mem _ hu)

theorem openToRoot_cons_iff {s : OpenScope} (hs : ¬ s.kind.holdsVars) (outer : List OpenScope) :
    OpenToRoot (s :: outer) ↔ OpenToRoot outer := by
  refine ⟨OpenToRoot.tail, fun h ↦ ?_⟩
  cases outer with
  | nil => exact fun _ hu ↦ absurd hu List.not_mem_nil
  | cons t rest =>
    intro u hu
    rcases List.mem_cons.1 hu with rfl | hu
    · exact hs
    · exact h u hu

theorem not_openToRoot_cons {s : OpenScope} (hs : s.kind.holdsVars) {outer : List OpenScope}
    (h : outer ≠ []) : ¬ OpenToRoot (s :: outer) := by
  cases outer with
  | nil => exact absurd rfl h
  | cons t rest => exact fun hall ↦ hall s.kind List.mem_cons_self hs

/-- Scopes of the same kinds are open to the root together. -/
theorem openToRoot_congr {scopes scopes' : List OpenScope}
    (h : scopes.map OpenScope.kind = scopes'.map OpenScope.kind) :
    OpenToRoot scopes ↔ OpenToRoot scopes' := by
  rw [OpenToRoot, OpenToRoot, h]

/-! ### Moved declarations -/

/-- A declaration whose place is somewhere else. -/
def Binding.moved (move : ℕ → ℕ) (b : Binding) : Binding :=
  ⟨b.name, move b.offset⟩

/-- A symbol whose first declaration is somewhere else. -/
def Symbol.moved (move : ℕ → ℕ) (y : Symbol) : Symbol :=
  { y with offset := move y.offset }

/-- An event that happens somewhere else. -/
def ScopeEvent.moved (move : ℕ → ℕ) : ScopeEvent → ScopeEvent
  | .declare kind b => .declare kind (b.moved move)
  | e => e

theorem Symbol.map_moved_id (symbols : Array Symbol) : symbols.map (Symbol.moved id) = symbols :=
  Array.map_id symbols

theorem ScopeEvent.map_moved_id (es : List ScopeEvent) : es.map (ScopeEvent.moved id) = es := by
  have h : ∀ e : ScopeEvent, e.moved id = e := fun e ↦ by cases e <;> rfl
  exact (List.map_congr_left fun e _ ↦ h e).trans (List.map_id es)

theorem ScopeEvent.track_moved (move : ℕ → ℕ) (kinds : List ScopeKind) (e : ScopeEvent) :
    (e.moved move).track kinds = e.track kinds := by
  cases e <;> rfl

theorem ScopeEvent.reaching?_moved (move : ℕ → ℕ) (kinds : List ScopeKind) (e : ScopeEvent) :
    (e.moved move).reaching? kinds = e.reaching? kinds := by
  cases e <;> rfl

/-- Where names are declared does not matter for which are declared for the module. -/
theorem moduleNames_map_moved (move : ℕ → ℕ) (kinds : List ScopeKind) (es : List ScopeEvent) :
    moduleNames kinds (es.map (ScopeEvent.moved move)) = moduleNames kinds es := by
  induction es generalizing kinds with
  | nil => rfl
  | cons e es ih =>
    rw [List.map_cons, moduleNames, moduleNames, ScopeEvent.track_moved,
      ScopeEvent.reaching?_moved, ih]

/-! ### Renumbered scopes -/

/-- A scope whose symbols and references are numbered from a later number on. -/
def OpenScope.shift (symbols references : ℕ) (s : OpenScope) : OpenScope where
  kind := s.kind
  names := s.names.map fun p ↦ (p.1, symbols + p.2)
  passing := s.passing.map fun p ↦ (p.1, symbols + p.2)
  waiting := s.waiting.map (references + ·)

/-- A scope that goes on where another one stood. -/
def OpenScope.over (s root : OpenScope) : OpenScope :=
  { s with names := s.names ++ root.names, waiting := s.waiting ++ root.waiting }

/-- A reference of an item of the module whose symbol is numbered from a later number on. -/
def Reference.shift (symbols item : ℕ) (r : Reference) : Reference :=
  ⟨item, r.name, r.symbol.map (symbols + ·)⟩

theorem lookup_map_add (names : List (String × ℕ)) (k : ℕ) (name : String) :
    (names.map fun p ↦ (p.1, k + p.2)).lookup name = (names.lookup name).map (k + ·) := by
  induction names with
  | nil => rfl
  | cons p names ih =>
    rw [List.map_cons, List.lookup_cons, List.lookup_cons]
    cases name == p.1
    · exact ih
    · rfl

theorem modify_append_add {α : Type} (xs ys : Array α) (k : ℕ) (f : α → α) :
    (xs ++ ys).modify (xs.size + k) f = xs ++ ys.modify k f := by
  apply Array.ext_getElem?
  intro i
  simp only [Array.getElem?_modify, Array.getElem?_append]
  split_ifs <;> first | omega | rfl

theorem modify_map {α β : Type} (xs : Array α) (k : ℕ) (g : α → β) {f : α → α} {f' : β → β}
    (h : ∀ a, f' (g a) = g (f a)) : (xs.map g).modify k f' = (xs.modify k f).map g := by
  apply Array.ext_getElem?
  intro i
  simp only [Array.getElem?_modify, Array.getElem?_map]
  split
  · simp [Function.comp_def, h]
  · rfl

theorem OpenScope.find?_shift (s : OpenScope) (m r : ℕ) (name : String) :
    (s.shift m r).find? name = (s.find? name).map (m + ·) := by
  rw [find?, find?, shift]
  simp only [lookup_map_add]
  cases s.names.lookup name <;> rfl

namespace Scoping

section onto

variable (move : ℕ → ℕ) (base : Scoping) (root : OpenScope)

/-- Scopes on top of a root: the last of them goes on where the root stood. -/
def scopesOnto : List OpenScope → List OpenScope
  | [] => []
  | [s] => [(s.shift base.symbols.size base.references.size).over root]
  | s :: t :: rest => s.shift base.symbols.size base.references.size :: scopesOnto (t :: rest)

/-- What has happened to names before an item, `base`, and then in the item as it would have
happened somewhere else without anything before. -/
def onto (st : Scoping) : Scoping where
  scopes := scopesOnto base root st.scopes
  symbols := base.symbols ++ st.symbols.map (Symbol.moved move)
  references := base.references ++
    st.references.map (Reference.shift base.symbols.size (base.items - 1))
  items := base.items
  clash := base.clash || st.clash

variable {move base root} {st : Scoping}

theorem check_onto (kind : DeclarationKind) (k : ℕ) :
    (onto move base root st).check kind (base.symbols.size + k) =
      onto move base root (st.check kind k) := by
  have hk : ¬ base.symbols.size + k < base.symbols.size := Nat.not_lt.2 (Nat.le_add_right _ _)
  have hget : (base.symbols ++ st.symbols.map (Symbol.moved move))[base.symbols.size + k]? =
      (st.symbols[k]?).map (Symbol.moved move) := by
    rw [Array.getElem?_append, if_neg hk, Nat.add_sub_cancel_left, Array.getElem?_map]
  rw [check, check]
  simp only [onto, hget, Bool.or_assoc]
  cases st.symbols[k]? <;> rfl

/-- A change of a symbol that does not look at its place. -/
theorem modify_onto (k : ℕ) {f : Symbol → Symbol} (hf : ∀ y, f (y.moved move) = (f y).moved move) :
    (base.symbols ++ st.symbols.map (Symbol.moved move)).modify (base.symbols.size + k) f =
      base.symbols ++ (st.symbols.modify k f).map (Symbol.moved move) := by
  rw [modify_append_add, modify_map _ _ _ hf]

theorem declareIn_shift (s : OpenScope) (kind : DeclarationKind) (b : Binding) :
    (onto move base root st).declareIn (s.shift base.symbols.size base.references.size) kind
        (b.moved move) =
      (onto move base root (st.declareIn s kind b).1,
        (st.declareIn s kind b).2.1.shift base.symbols.size base.references.size,
        base.symbols.size + (st.declareIn s kind b).2.2) := by
  rw [declareIn, declareIn, OpenScope.find?_shift, Binding.moved]
  cases s.find? b.name with
  | some k =>
    simp only [Option.map_some, check_onto]
    simp only [onto]
    rw [modify_onto k]
    exact fun _ ↦ rfl
  | none =>
    simp only [onto, OpenScope.shift, Array.size_append, Array.size_map, Array.push_append,
      Array.map_push, List.map_cons, Option.map_none]
    rfl

theorem declareIn_over (s : OpenScope) (kind : DeclarationKind) (b : Binding)
    (hroot : root.names.lookup b.name = none) :
    (onto move base root st).declareIn
        ((s.shift base.symbols.size base.references.size).over root) kind (b.moved move) =
      (onto move base root (st.declareIn s kind b).1,
        ((st.declareIn s kind b).2.1.shift base.symbols.size base.references.size).over root,
        base.symbols.size + (st.declareIn s kind b).2.2) := by
  have hfind : ((s.shift base.symbols.size base.references.size).over root).find? b.name =
      (s.find? b.name).map (base.symbols.size + ·) := by
    rw [← OpenScope.find?_shift, OpenScope.find?, OpenScope.over, List.lookup_append, hroot,
      Option.or_none]
    rfl
  rw [declareIn, declareIn, Binding.moved, hfind]
  cases s.find? b.name with
  | some k =>
    simp only [Option.map_some, check_onto]
    simp only [onto]
    rw [modify_onto k]
    exact fun _ ↦ rfl
  | none =>
    simp only [onto, OpenScope.shift, OpenScope.over, Array.size_append, Array.size_map,
      Array.push_append, Array.map_push, List.map_cons, Option.map_none, List.cons_append]
    rfl

theorem hoistInto_shift (s : OpenScope) (name : String) (k : ℕ) :
    (onto move base root st).hoistInto (s.shift base.symbols.size base.references.size) name
        (base.symbols.size + k) =
      (onto move base root (st.hoistInto s name k).1,
        (st.hoistInto s name k).2.shift base.symbols.size base.references.size) := by
  rw [hoistInto, hoistInto]
  simp only [OpenScope.shift, lookup_map_add, Option.isSome_map]
  split
  · rfl
  · simp only [onto, List.map_cons]
    rw [modify_onto k]
    · rfl
    · exact fun _ ↦ rfl

theorem hoistInto_over (s : OpenScope) (name : String) (k : ℕ)
    (hroot : root.names.lookup name = none) :
    (onto move base root st).hoistInto
        ((s.shift base.symbols.size base.references.size).over root) name
        (base.symbols.size + k) =
      (onto move base root (st.hoistInto s name k).1,
        ((st.hoistInto s name k).2.shift base.symbols.size base.references.size).over root) := by
  rw [hoistInto, hoistInto]
  simp only [OpenScope.shift, OpenScope.over, List.lookup_append, lookup_map_add, hroot,
    Option.or_none, Option.isSome_map]
  split
  · rfl
  · simp only [onto, List.map_cons, List.cons_append]
    rw [modify_onto k]
    · rfl
    · exact fun _ ↦ rfl

/-- A scope that does not hold a `var` lets it pass. -/
theorem declareVar_cons_of_not_holdsVars (b : Binding) (found : Option ℕ) (st : Scoping)
    {s : OpenScope} (outer : List OpenScope) (hs : ¬ s.kind.holdsVars) :
    declareVar b found st (s :: outer) =
      let here := if found.isSome then none else s.find? b.name
      let r := declareVar b (found.or here)
        (match here with
          | some symbol => st.check .var symbol
          | none => st) outer
      (r.1, { s with passing := (b.name, r.2.2) :: s.passing } :: r.2.1, r.2.2) := by
  cases found <;> exact if_neg hs

/-- A scope that holds a `var` keeps it, as the symbol of an exception that is caught inside or as
one of its own. -/
theorem declareVar_cons_of_holdsVars (b : Binding) (found : Option ℕ) (st : Scoping)
    {s : OpenScope} (outer : List OpenScope) (hs : s.kind.holdsVars) :
    declareVar b found st (s :: outer) =
      match found with
      | some symbol =>
        ((st.hoistInto s b.name symbol).1, (st.hoistInto s b.name symbol).2 :: outer, symbol)
      | none =>
        let r := st.declareIn s .var b
        (r.1, r.2.1 :: outer, r.2.2) := by
  cases found <;> rw [declareVar, if_pos hs]

theorem map_kind_declareVar (b : Binding) (found : Option ℕ) (st : Scoping)
    (scopes : List OpenScope) :
    (declareVar b found st scopes).2.1.map OpenScope.kind = scopes.map OpenScope.kind := by
  induction scopes generalizing found st with
  | nil => rfl
  | cons s outer ih =>
    by_cases hs : s.kind.holdsVars
    · rw [declareVar_cons_of_holdsVars _ _ _ _ hs]
      cases found with
      | some k =>
        simp only [hoistInto]
        split <;> rfl
      | none =>
        simp only [declareIn]
        split <;> rfl
    · rw [declareVar_cons_of_not_holdsVars _ _ _ _ hs]
      simp only [List.map_cons, ih]

theorem declareVar_ne_nil (b : Binding) (found : Option ℕ) (st : Scoping)
    {scopes : List OpenScope} (h : scopes ≠ []) : (declareVar b found st scopes).2.1 ≠ [] := by
  intro hnil
  have hkind := map_kind_declareVar b found st scopes
  rw [hnil] at hkind
  exact h (List.map_eq_nil_iff.1 hkind.symm)

theorem scopesOnto_cons (s : OpenScope) {rest : List OpenScope} (h : rest ≠ []) :
    scopesOnto base root (s :: rest) =
      s.shift base.symbols.size base.references.size :: scopesOnto base root rest := by
  cases rest with
  | nil => exact absurd rfl h
  | cons t rest => rfl

variable (move base st) in
/-- A `var` is declared on top of a root as without it, unless it reaches the root and the root
has the name. -/
theorem declareVar_onto (b : Binding) (scopes : List OpenScope) (found : Option ℕ)
    (hne : scopes ≠ []) (hroot : OpenToRoot scopes → root.names.lookup b.name = none)
    (hlast : ∀ s ∈ scopes.getLast?, s.kind.holdsVars) :
    declareVar (b.moved move) (found.map (base.symbols.size + ·)) (onto move base root st)
        (scopesOnto base root scopes) =
      (onto move base root (declareVar b found st scopes).1,
        scopesOnto base root (declareVar b found st scopes).2.1,
        base.symbols.size + (declareVar b found st scopes).2.2) := by
  have hname : (b.moved move).name = b.name := rfl
  induction scopes generalizing st found with
  | nil => exact absurd rfl hne
  | cons s rest ih =>
    cases rest with
    | nil =>
      -- The root itself, where the name must be new.
      have hs : s.kind.holdsVars := hlast s rfl
      have hr : root.names.lookup b.name = none := hroot fun _ hk ↦ absurd hk List.not_mem_nil
      have hs' : ((s.shift base.symbols.size base.references.size).over root).kind.holdsVars := hs
      rw [scopesOnto, declareVar_cons_of_holdsVars _ _ _ _ hs',
        declareVar_cons_of_holdsVars _ _ _ _ hs]
      cases found with
      | some k => simp only [Option.map_some, hname, hoistInto_over s b.name k hr, scopesOnto]
      | none => simp only [Option.map_none, declareIn_over s .var b hr, scopesOnto]
    | cons t rest =>
      by_cases hs : s.kind.holdsVars
      · have hs' : (s.shift base.symbols.size base.references.size).kind.holdsVars := hs
        rw [scopesOnto, declareVar_cons_of_holdsVars _ _ _ _ hs',
          declareVar_cons_of_holdsVars _ _ _ _ hs]
        cases found with
        | some k => simp only [Option.map_some, hname, hoistInto_shift s b.name k, scopesOnto]
        | none => simp only [Option.map_none, declareIn_shift s .var b, scopesOnto]
      · have hs' : ¬ (s.shift base.symbols.size base.references.size).kind.holdsVars := hs
        -- The scope lets the `var` pass, so the scopes outside are as open to the root as this one.
        have hrest : OpenToRoot (t :: rest) → root.names.lookup b.name = none := fun h ↦
          hroot ((openToRoot_cons_iff hs _).2 h)
        have hout : ∀ found st, (declareVar b found st (t :: rest)).2.1 ≠ [] := fun found st ↦
          declareVar_ne_nil b found st (List.cons_ne_nil t rest)
        rw [scopesOnto, declareVar_cons_of_not_holdsVars _ _ _ _ hs',
          declareVar_cons_of_not_holdsVars _ _ _ _ hs]
        cases found with
        | some k =>
          have h := @ih st (some k) (by simp) hrest hlast
          simp only [Option.map_some, Option.isSome_some, if_true, Option.some_or] at h ⊢
          rw [h, scopesOnto_cons _ (hout _ _)]
          rfl
        | none =>
          simp only [Option.map_none, Option.isSome_none, Bool.false_eq_true, if_false, hname,
            OpenScope.find?_shift, Option.none_or]
          cases hf : s.find? b.name with
          | none =>
            have h := @ih st none (by simp) hrest hlast
            simp only [Option.map_none] at h ⊢
            rw [h, scopesOnto_cons _ (hout _ _)]
            rfl
          | some k =>
            have h := @ih (st.check .var k) (some k) (by simp) hrest hlast
            simp only [Option.map_some, check_onto] at h ⊢
            rw [h, scopesOnto_cons _ (hout _ _)]
            rfl

/-! ### References -/

/-- Settles one reference by the names of a scope, or leaves it to wait further out. -/
def settleOne (names : List (String × ℕ)) (acc : Array Reference × List ℕ) (i : ℕ) :
    Array Reference × List ℕ :=
  match (acc.1[i]?).bind fun r ↦ names.lookup r.name with
  | some symbol => (acc.1.modify i fun r ↦ { r with symbol := some symbol }, acc.2)
  | none => (acc.1, i :: acc.2)

/-- References that go on to wait in the innermost scope. -/
def passOut (left : List ℕ) : List OpenScope → List OpenScope
  | [] => []
  | o :: more => { o with waiting := left ++ o.waiting } :: more

theorem settle_cons {s : OpenScope} {outer : List OpenScope} (h : st.scopes = s :: outer) :
    st.settle =
      let r := s.waiting.foldl (settleOne s.names) (st.references, [])
      { st with
        scopes := { s with waiting := [] } :: passOut r.2 outer
        references := r.1 } := by
  simp only [settle, h]
  rfl

variable (base) in
theorem settleOne_shift (names : List (String × ℕ)) (rs : Array Reference) (left : List ℕ)
    (i : ℕ) :
    settleOne (names.map fun p ↦ (p.1, base.symbols.size + p.2))
        (base.references ++ rs.map (Reference.shift base.symbols.size (base.items - 1)),
          left.map (base.references.size + ·)) (base.references.size + i) =
      (base.references ++ (settleOne names (rs, left) i).1.map
          (Reference.shift base.symbols.size (base.items - 1)),
        (settleOne names (rs, left) i).2.map (base.references.size + ·)) := by
  have hi : ¬ base.references.size + i < base.references.size :=
    Nat.not_lt.2 (Nat.le_add_right _ _)
  have hget : (base.references ++ rs.map
      (Reference.shift base.symbols.size (base.items - 1)))[base.references.size + i]? =
        (rs[i]?).map (Reference.shift base.symbols.size (base.items - 1)) := by
    rw [Array.getElem?_append, if_neg hi, Nat.add_sub_cancel_left, Array.getElem?_map]
  rw [settleOne, settleOne, hget]
  cases hr : rs[i]? with
  | none => simp
  | some r =>
    have hname : (r.shift base.symbols.size (base.items - 1)).name = r.name := rfl
    simp only [Option.map_some, Option.bind_some, hname, lookup_map_add]
    cases names.lookup r.name with
    | none => simp
    | some k =>
      simp only [Option.map_some, modify_append_add]
      rw [modify_map]
      intro a
      rfl

variable (base) in
theorem foldl_settleOne_shift (names : List (String × ℕ)) (waiting : List ℕ)
    (rs : Array Reference) (left : List ℕ) :
    (waiting.map (base.references.size + ·)).foldl
        (settleOne (names.map fun p ↦ (p.1, base.symbols.size + p.2)))
        (base.references ++ rs.map (Reference.shift base.symbols.size (base.items - 1)),
          left.map (base.references.size + ·)) =
      (base.references ++ (waiting.foldl (settleOne names) (rs, left)).1.map
          (Reference.shift base.symbols.size (base.items - 1)),
        (waiting.foldl (settleOne names) (rs, left)).2.map (base.references.size + ·)) := by
  induction waiting generalizing rs left with
  | nil => rfl
  | cons i waiting ih =>
    rw [List.map_cons, List.foldl_cons, List.foldl_cons, settleOne_shift, ih]

/-- A scope inside another settles its references as it does without anything before. -/
theorem settle_onto {s o : OpenScope} {more : List OpenScope} (h : st.scopes = s :: o :: more) :
    (onto move base root st).settle = onto move base root st.settle := by
  have hscopes : (onto move base root st).scopes =
      s.shift base.symbols.size base.references.size :: scopesOnto base root (o :: more) := by
    rw [onto, h]
    rfl
  have hfold := foldl_settleOne_shift base s.names s.waiting st.references []
  rw [settle_cons hscopes, settle_cons h]
  simp only [onto, OpenScope.shift, List.map_nil] at hfold ⊢
  rw [hfold]
  cases more with
  | nil => simp [scopesOnto, passOut, OpenScope.shift, OpenScope.over]
  | cons u more => simp [scopesOnto, passOut, OpenScope.shift]

/-! ### Every event -/

theorem map_kind_passOut (left : List ℕ) (scopes : List OpenScope) :
    (passOut left scopes).map OpenScope.kind = scopes.map OpenScope.kind := by
  cases scopes <;> rfl

theorem map_kind_settle (st : Scoping) :
    st.settle.scopes.map OpenScope.kind = st.scopes.map OpenScope.kind := by
  cases h : st.scopes with
  | nil => simp [settle, h]
  | cons s outer => simp [settle_cons h, map_kind_passOut]

/-- The kinds of the open scopes, the root among them, follow the events. -/
theorem map_kind_step {kinds kinds' : List ScopeKind} {e : ScopeEvent}
    (hk : st.scopes.map OpenScope.kind = kinds ++ [.root]) (ht : e.track kinds = some kinds') :
    (st.step e).scopes.map OpenScope.kind = kinds' ++ [.root] := by
  cases inPlace_of_track hk ht with
  | enter kind s outer hkind hs =>
    rw [ScopeEvent.track, if_neg hkind] at ht
    cases ht
    simp [step, hk]
  | adopt s o more hkind hs =>
    simp only [ScopeEvent.track] at ht
    split at ht
    · cases ht
      simpa [step, hs] using hk
    · cases ht
  | leave s o more hs =>
    cases kinds with
    | nil => cases ht
    | cons k kinds =>
      cases ht
      rw [step, List.map_drop, map_kind_settle, hk]
      rfl
  | settle s o more hs =>
    cases kinds with
    | nil => cases ht
    | cons k kinds =>
      cases ht
      rw [step, map_kind_settle, hk]
  | declare kind b s outer hs =>
    cases ht
    rw [step, declare]
    split
    · exact (map_kind_declareVar b none st st.scopes).trans hk
    · rw [hs] at hk
      simp only [hs, declareIn]
      split <;> exact hk
  | refer name s outer hs =>
    cases ht
    rw [hs] at hk
    simpa [step, hs] using hk

/-- A `var` declares its name for the module if its scopes are open to the root. -/
theorem reaching?_var {scopes : List OpenScope} {kinds : List ScopeKind} (b : Binding)
    (hk : scopes.map OpenScope.kind = kinds ++ [.root]) (h : OpenToRoot scopes) :
    (ScopeEvent.declare .var b).reaching? kinds = some b.name := by
  rw [OpenToRoot, hk, List.dropLast_concat] at h
  have hall : kinds.all (fun k ↦ !k.holdsVars) = true :=
    List.all_eq_true.2 fun k hk ↦ by simpa using h k hk
  simp [ScopeEvent.reaching?, hall]

/-- Outside all scopes every declaration is one for the module. -/
theorem reaching?_root {s : OpenScope} {kinds : List ScopeKind} (kind : DeclarationKind)
    (b : Binding) (hk : [s].map OpenScope.kind = kinds ++ [.root]) :
    (ScopeEvent.declare kind b).reaching? kinds = some b.name := by
  have hnil : kinds = [] := by
    have hdrop := congrArg List.dropLast hk
    rw [List.dropLast_concat] at hdrop
    exact hdrop.symm
  rw [hnil]
  rfl

variable (move base root) in
/-- **One event happens on top of a root as it does alone**, unless it declares for the module a
name that the root has. -/
theorem step_onto {kinds kinds' : List ScopeKind} {e : ScopeEvent}
    (hk : st.scopes.map OpenScope.kind = kinds ++ [.root]) (ht : e.track kinds = some kinds')
    (hn : ∀ name ∈ e.reaching? kinds, root.names.lookup name = none) :
    (onto move base root st).step (e.moved move) = onto move base root (st.step e) := by
  cases inPlace_of_track hk ht with
  | enter kind s outer hkind hs =>
    simp only [step, onto, hs]
    rfl
  | adopt s o more hkind hs =>
    simp only [step, onto, hs]
    rfl
  | leave s o more hs =>
    simp only [step, settle_onto hs, settle_cons hs]
    rfl
  | settle s o more hs => exact settle_onto hs
  | declare kind b s outer hs =>
    have hscopes : (onto move base root st).scopes = scopesOnto base root (s :: outer) := by
      rw [onto, hs]
    rw [ScopeEvent.moved, step, step, declare, declare]
    by_cases hvar : kind = .var
    · subst hvar
      rw [if_pos rfl, if_pos rfl, hscopes, hs]
      have hlast : ∀ u ∈ (s :: outer).getLast?, u.kind.holdsVars := fun u hu ↦ by
        have hlast := congrArg List.getLast? hk
        rw [hs, List.getLast?_map, hu, Option.map_some, List.getLast?_concat] at hlast
        rw [Option.some.inj hlast]
        rfl
      have h := declareVar_onto move base st b (s :: outer) none (by simp)
        (fun hopen ↦ hn b.name (reaching?_var b hk (hs ▸ hopen))) hlast
      simp only [Option.map_none] at h
      simp only [h]
      rfl
    · rw [if_neg hvar, if_neg hvar, hscopes, hs]
      cases outer with
      | nil =>
        have hn' : root.names.lookup b.name = none :=
          hn b.name (reaching?_root kind b (hs ▸ hk))
        simp only [scopesOnto, declareIn_over s kind b hn']
        rfl
      | cons o rest =>
        simp only [scopesOnto_cons s (List.cons_ne_nil o rest), declareIn_shift s kind b]
        simp only [onto, scopesOnto_cons _ (List.cons_ne_nil o rest)]
  | refer name s outer hs =>
    cases outer with
    | nil =>
      simp [ScopeEvent.moved, step, onto, hs, scopesOnto, OpenScope.shift, OpenScope.over,
        Reference.shift]
    | cons o rest =>
      simp [ScopeEvent.moved, step, onto, hs, scopesOnto, OpenScope.shift, Reference.shift]

variable (move base root) in
/-- **Events happen on top of a root as they do alone**, unless they declare for the module a name
that the root has. -/
theorem foldl_step_onto {kinds kinds' : List ScopeKind} {es : List ScopeEvent}
    (hk : st.scopes.map OpenScope.kind = kinds ++ [.root]) (ht : trackAll kinds es = some kinds')
    (hn : ∀ name ∈ moduleNames kinds es, root.names.lookup name = none) :
    (es.map (ScopeEvent.moved move)).foldl step (onto move base root st) =
      onto move base root (es.foldl step st) := by
  induction es generalizing kinds st with
  | nil => rfl
  | cons e es ih =>
    rw [trackAll_cons, Option.bind_eq_some_iff] at ht
    obtain ⟨kinds₁, he, hes⟩ := ht
    have hn' : ∀ name ∈ moduleNames kinds₁ es, root.names.lookup name = none := fun name h ↦
      hn name (List.mem_append_right _ (by rwa [he]))
    have hstep := step_onto move base root hk he fun name h ↦
      hn name (List.mem_append_left _ (Option.mem_toList.2 h))
    rw [List.map_cons, List.foldl_cons, List.foldl_cons, hstep]
    exact ih (map_kind_step hk he) hes hn'

theorem map_kind_foldl_step {kinds kinds' : List ScopeKind} {es : List ScopeEvent}
    (hk : st.scopes.map OpenScope.kind = kinds ++ [.root]) (ht : trackAll kinds es = some kinds') :
    (es.foldl step st).scopes.map OpenScope.kind = kinds' ++ [.root] := by
  induction es generalizing kinds st with
  | nil =>
    cases ht
    exact hk
  | cons e es ih =>
    rw [trackAll_cons, Option.bind_eq_some_iff] at ht
    obtain ⟨kinds₁, he, hes⟩ := ht
    exact ih (map_kind_step hk he) hes

end onto

end Scoping

end AppletBundle.Script
