import AppletBundle.Ordered.Map
import AppletBundle.Proofs.Script.ItemScopes

/-!
# The first symbol of a name

A scope keeps the symbol that it got for a name first, and a symbol keeps the place of the
declaration that made it. So the symbol that the module has for a name stands in the first item that
declares the name for the module, whatever later items declare.

* `Stays` says that symbols keep their names and places through all events.
* `KnowsAt` is the invariant of one item: whatever a scope knows a name by stands in places that are
  allowed, if the events declare names there only. A `var` in a block finds the symbol of a caught
  exception, so it is about the names that pass through a scope too.
* `rootFind?_step` and `isSome_rootFind?_step` say that the root keeps the symbol of a name, and
  that it gets one.
* `BetweenItems` holds between any two items, also where two items declare the same name.

`exists_rootBinding_of_first` puts this together.
-/

namespace AppletBundle.Script

/-! ### Symbols stay -/

/-- Symbols keep their names and places. -/
def Stays (old new : Array Symbol) : Prop :=
  ∀ (k : ℕ) (y : Symbol), old[k]? = some y →
    ∃ y' : Symbol, new[k]? = some y' ∧ y'.name = y.name ∧ y'.offset = y.offset

namespace Stays

theorem refl (symbols : Array Symbol) : Stays symbols symbols :=
  fun _ y hy ↦ ⟨y, hy, rfl, rfl⟩

theorem trans {a b c : Array Symbol} (h : Stays a b) (h' : Stays b c) : Stays a c := by
  intro k y hy
  obtain ⟨y', hy', hname, hoffset⟩ := h k y hy
  obtain ⟨y'', hy'', hname', hoffset'⟩ := h' k y' hy'
  exact ⟨y'', hy'', hname'.trans hname, hoffset'.trans hoffset⟩

theorem modify (symbols : Array Symbol) (i : ℕ) {f : Symbol → Symbol}
    (hf : ∀ y, (f y).name = y.name ∧ (f y).offset = y.offset) :
    Stays symbols (symbols.modify i f) := by
  intro k y hy
  rw [Array.getElem?_modify, hy]
  split
  · exact ⟨f y, rfl, hf y⟩
  · exact ⟨y, rfl, rfl, rfl⟩

theorem push (symbols : Array Symbol) (y : Symbol) : Stays symbols (symbols.push y) := by
  intro k z hz
  refine ⟨z, ?_, rfl, rfl⟩
  rw [Array.getElem?_push, if_neg, hz]
  rintro rfl
  simp at hz

end Stays

/-- The symbol of a number has a name, and stands in a place that is allowed. -/
def StandsAt (symbols : Array Symbol) (name : String) (allowed : ℕ → Prop) (k : ℕ) : Prop :=
  ∃ y : Symbol, symbols[k]? = some y ∧ y.name = name ∧ allowed y.offset

/-- What a scope knows a name by are symbols of the name that stand in places that are allowed. -/
def OpenScope.KnowsAt (s : OpenScope) (symbols : Array Symbol) (name : String)
    (allowed : ℕ → Prop) : Prop :=
  ∀ k, (name, k) ∈ s.names ++ s.passing → StandsAt symbols name allowed k

section stands

variable {old new : Array Symbol} {name : String} {allowed : ℕ → Prop}

theorem StandsAt.stays {k : ℕ} (h : StandsAt old name allowed k) (hs : Stays old new) :
    StandsAt new name allowed k := by
  obtain ⟨y, hy, hname, hoffset⟩ := h
  obtain ⟨y', hy', hname', hoffset'⟩ := hs k y hy
  exact ⟨y', hy', hname'.trans hname, hoffset' ▸ hoffset⟩

theorem OpenScope.KnowsAt.stays {s : OpenScope} (h : s.KnowsAt old name allowed)
    (hs : Stays old new) : s.KnowsAt new name allowed :=
  fun k hk ↦ (h k hk).stays hs

end stands

namespace Scoping

variable {st : Scoping} {name : String} {allowed : ℕ → Prop}

theorem stays_declareIn (st : Scoping) (s : OpenScope) (kind : DeclarationKind) (b : Binding) :
    Stays st.symbols (st.declareIn s kind b).1.symbols := by
  rw [declareIn]
  split
  · refine .modify _ _ ?_
    exact fun y ↦ ⟨rfl, rfl⟩
  · exact .push _ _

theorem stays_hoistInto (st : Scoping) (s : OpenScope) (name : String) (k : ℕ) :
    Stays st.symbols (st.hoistInto s name k).1.symbols := by
  rw [hoistInto]
  split
  · exact .refl _
  · refine .modify _ _ ?_
    exact fun y ↦ ⟨rfl, rfl⟩

theorem stays_declareVar (b : Binding) (found : Option ℕ) (st : Scoping)
    (scopes : List OpenScope) : Stays st.symbols (declareVar b found st scopes).1.symbols := by
  induction scopes generalizing found st with
  | nil => exact .refl _
  | cons s outer ih =>
    by_cases hs : s.kind.holdsVars
    · rw [declareVar_cons_of_holdsVars _ _ _ _ hs]
      cases found with
      | some k => exact stays_hoistInto st s b.name k
      | none => exact stays_declareIn st s .var b
    · rw [declareVar_cons_of_not_holdsVars _ _ _ _ hs]
      refine Stays.trans ?_ (ih _ _)
      split
      · exact .refl _
      · exact .refl _

theorem symbols_settle (st : Scoping) : st.settle.symbols = st.symbols := by
  rw [settle]
  split <;> rfl

theorem stays_step (st : Scoping) (e : ScopeEvent) : Stays st.symbols (st.step e).symbols := by
  cases e with
  | item => exact .refl _
  | enter kind => exact .refl _
  | adopt =>
    rw [step]
    split <;> exact .refl _
  | leave => exact (symbols_settle st).symm ▸ .refl _
  | settle => exact (symbols_settle st).symm ▸ .refl _
  | declare kind b =>
    rw [step, declare]
    split
    · exact stays_declareVar b none st st.scopes
    · split
      · exact .refl _
      · exact stays_declareIn st _ kind b
  | refer n =>
    rw [step]
    split <;> exact .refl _

theorem stays_foldl_step (es : List ScopeEvent) (st : Scoping) :
    Stays st.symbols (es.foldl step st).symbols := by
  induction es generalizing st with
  | nil => exact .refl _
  | cons e es ih => exact (stays_step st e).trans (ih _)

/-! ### Scopes know symbols in allowed places -/

/-- A declaration leaves a scope with what it knew and what is declared. -/
theorem knowsAt_declareIn {s : OpenScope} (kind : DeclarationKind) {b : Binding}
    (hb : b.name = name → allowed b.offset) (h : s.KnowsAt st.symbols name allowed) :
    (st.declareIn s kind b).2.1.KnowsAt (st.declareIn s kind b).1.symbols name allowed ∧
      (b.name = name →
        StandsAt (st.declareIn s kind b).1.symbols name allowed (st.declareIn s kind b).2.2) := by
  have hstays := stays_declareIn st s kind b
  cases hf : s.find? b.name with
  | some i =>
    simp only [declareIn, hf] at hstays ⊢
    refine ⟨h.stays hstays, fun hname ↦ (h i ?_).stays hstays⟩
    exact hname ▸ OpenScope.mem_of_find? hf
  | none =>
    simp only [declareIn, hf] at hstays ⊢
    have hnew : b.name = name → StandsAt
        (st.symbols.push ⟨b.name, b.offset, kind.flags, s.kind = .root⟩) name allowed
        st.symbols.size := fun hname ↦
      ⟨_, Array.getElem?_push_size, hname, hb hname⟩
    refine ⟨fun k hk ↦ ?_, hnew⟩
    rcases List.mem_append.1 hk with hk | hk
    · rcases List.mem_cons.1 hk with heq | hk
      · obtain ⟨hname, rfl⟩ := Prod.mk.inj heq
        exact hnew hname.symm
      · exact (h k (List.mem_append_left _ hk)).stays hstays
    · exact (h k (List.mem_append_right _ hk)).stays hstays

theorem knowsAt_hoistInto {s : OpenScope} {n : String} {k : ℕ}
    (hk : n = name → StandsAt st.symbols name allowed k) (h : s.KnowsAt st.symbols name allowed) :
    (st.hoistInto s n k).2.KnowsAt (st.hoistInto s n k).1.symbols name allowed := by
  have hstays := stays_hoistInto st s n k
  rw [hoistInto] at hstays ⊢
  split
  · exact h
  · rename_i hnew
    rw [if_neg hnew] at hstays
    intro i hi
    rcases List.mem_append.1 hi with hi | hi
    · rcases List.mem_cons.1 hi with heq | hi
      · obtain ⟨hname, rfl⟩ := Prod.mk.inj heq
        exact (hk hname.symm).stays hstays
      · exact (h i (List.mem_append_left _ hi)).stays hstays
    · exact (h i (List.mem_append_right _ hi)).stays hstays

/-- A `var` leaves all scopes with what they knew and what is declared. -/
theorem knowsAt_declareVar {b : Binding} (hb : b.name = name → allowed b.offset)
    {found : Option ℕ} {scopes : List OpenScope} {kinds : List ScopeKind}
    (hkinds : scopes.map OpenScope.kind = kinds ++ [.root])
    (h : ∀ s ∈ scopes, s.KnowsAt st.symbols name allowed)
    (hfound : ∀ k ∈ found, b.name = name → StandsAt st.symbols name allowed k) :
    (∀ s ∈ (declareVar b found st scopes).2.1,
        s.KnowsAt (declareVar b found st scopes).1.symbols name allowed) ∧
      (b.name = name → StandsAt (declareVar b found st scopes).1.symbols name allowed
        (declareVar b found st scopes).2.2) := by
  induction scopes generalizing found st kinds with
  | nil => exact absurd hkinds (by simp)
  | cons s outer ih =>
    obtain ⟨hs, houter⟩ := List.forall_mem_cons.1 h
    by_cases hvars : s.kind.holdsVars
    · rw [declareVar_cons_of_holdsVars _ _ _ _ hvars]
      cases found with
      | some k =>
        have hk := hfound k rfl
        have hstays := stays_hoistInto st s b.name k
        refine ⟨List.forall_mem_cons.2 ⟨knowsAt_hoistInto hk hs, fun t ht ↦ ?_⟩, fun hname ↦ ?_⟩
        · exact (houter t ht).stays hstays
        · exact (hk hname).stays hstays
      | none =>
        obtain ⟨hknows, hstands⟩ := knowsAt_declareIn .var hb hs
        refine ⟨List.forall_mem_cons.2 ⟨hknows, fun t ht ↦ ?_⟩, hstands⟩
        exact (houter t ht).stays (stays_declareIn st s .var b)
    · -- the outermost scope holds a `var`, so this is not it
      obtain ⟨kind, kinds', rfl⟩ : ∃ kind kinds', kinds = kind :: kinds' := by
        cases kinds with
        | nil =>
          obtain ⟨hroot, -⟩ := List.cons.inj hkinds
          exact absurd (by rw [hroot]; rfl) hvars
        | cons kind kinds' => exact ⟨kind, kinds', rfl⟩
      obtain ⟨-, hkinds'⟩ := List.cons.inj hkinds
      rw [declareVar_cons_of_not_holdsVars _ _ _ _ hvars]
      have hpass : ∀ (st₁ : Scoping) (found' : Option ℕ), st₁.symbols = st.symbols →
          (∀ k ∈ found', b.name = name → StandsAt st.symbols name allowed k) →
          (∀ t ∈ { s with
                passing := (b.name, (declareVar b found' st₁ outer).2.2) :: s.passing } ::
              (declareVar b found' st₁ outer).2.1,
            t.KnowsAt (declareVar b found' st₁ outer).1.symbols name allowed) ∧
          (b.name = name → StandsAt (declareVar b found' st₁ outer).1.symbols name allowed
            (declareVar b found' st₁ outer).2.2) := by
        intro st₁ found' hsymbols hfound'
        obtain ⟨hknows, hstands⟩ := @ih st₁ found' kinds' hkinds' (hsymbols ▸ houter)
          (hsymbols ▸ hfound')
        have hstays := stays_declareVar b found' st₁ outer
        rw [hsymbols] at hstays
        refine ⟨List.forall_mem_cons.2 ⟨fun k hk ↦ ?_, hknows⟩, hstands⟩
        rcases List.mem_append.1 hk with hk | hk
        · exact (hs k (List.mem_append_left _ hk)).stays hstays
        · rcases List.mem_cons.1 hk with heq | hk
          · obtain ⟨hname, rfl⟩ := Prod.mk.inj heq
            exact hstands hname.symm
          · exact (hs k (List.mem_append_right _ hk)).stays hstays
      cases found with
      | some k => exact hpass st (some k) rfl hfound
      | none =>
        cases hf : s.find? b.name with
        | none => simpa [hf] using hpass st none rfl (by simp)
        | some k =>
          have hk : b.name = name → StandsAt st.symbols name allowed k := fun hname ↦
            hs k (hname ▸ OpenScope.mem_of_find? hf)
          simpa [hf] using hpass (st.check .var k) (some k) rfl (by simpa using hk)

/-- The scopes around a scope that is closed know what they knew. -/
theorem knowsAt_passOut {symbols : Array Symbol} {left : List ℕ} {scopes : List OpenScope}
    (h : ∀ s ∈ scopes, s.KnowsAt symbols name allowed) :
    ∀ s ∈ passOut left scopes, s.KnowsAt symbols name allowed := by
  cases scopes with
  | nil => exact h
  | cons o more => exact List.forall_mem_cons.2 (List.forall_mem_cons.1 h)

/-- **Every event keeps what scopes know in allowed places** if it declares names there only. -/
theorem knowsAt_step {kinds kinds' : List ScopeKind} {e : ScopeEvent}
    (hk : st.scopes.map OpenScope.kind = kinds ++ [.root]) (ht : e.track kinds = some kinds')
    (he : ∀ kind b, e = .declare kind b → allowed b.offset)
    (h : ∀ s ∈ st.scopes, s.KnowsAt st.symbols name allowed) :
    ∀ s ∈ (st.step e).scopes, s.KnowsAt (st.step e).symbols name allowed := by
  have hempty : ∀ kind, OpenScope.KnowsAt ⟨kind, [], [], []⟩ st.symbols name allowed :=
    fun _ _ hmem ↦ absurd hmem List.not_mem_nil
  cases inPlace_of_track hk ht with
  | enter kind s outer hkind hs => exact List.forall_mem_cons.2 ⟨hempty kind, h⟩
  | adopt s o more hkind hs =>
    rw [hs] at h
    obtain ⟨hs', houter⟩ := List.forall_mem_cons.1 h
    simp only [step, hs]
    refine List.forall_mem_cons.2 ⟨fun k hk ↦ ?_, List.forall_mem_cons.2 ⟨fun k hk ↦ ?_, houter⟩⟩
    · exact hs' k (List.mem_append_left _ (by simpa using hk))
    · exact hs' k (List.mem_append_right _ (by simpa using hk))
  | leave s o more hs =>
    rw [hs] at h
    simp only [step, settle_cons hs, List.drop_one, List.tail_cons]
    exact knowsAt_passOut (List.forall_mem_cons.1 h).2
  | settle s o more hs =>
    rw [hs] at h
    obtain ⟨hs', houter⟩ := List.forall_mem_cons.1 h
    simp only [step, settle_cons hs]
    exact List.forall_mem_cons.2 ⟨hs', knowsAt_passOut houter⟩
  | declare kind b s outer hs =>
    have hb : b.name = name → allowed b.offset := fun _ ↦ he kind b rfl
    rw [step, declare]
    split
    · exact (knowsAt_declareVar hb hk h (by simp)).1
    · rw [hs] at h
      obtain ⟨hs', houter⟩ := List.forall_mem_cons.1 h
      simp only [hs]
      refine List.forall_mem_cons.2 ⟨(knowsAt_declareIn kind hb hs').1, fun t ht ↦ ?_⟩
      exact (houter t ht).stays (stays_declareIn st s kind b)
  | refer n s outer hs =>
    rw [hs] at h
    obtain ⟨hs', houter⟩ := List.forall_mem_cons.1 h
    simp only [step, hs]
    exact List.forall_mem_cons.2 ⟨hs', houter⟩

theorem knowsAt_foldl_step {kinds kinds' : List ScopeKind} {es : List ScopeEvent}
    (hk : st.scopes.map OpenScope.kind = kinds ++ [.root]) (ht : trackAll kinds es = some kinds')
    (hes : ∀ kind b, .declare kind b ∈ es → allowed b.offset)
    (h : ∀ s ∈ st.scopes, s.KnowsAt st.symbols name allowed) :
    ∀ s ∈ (es.foldl step st).scopes, s.KnowsAt (es.foldl step st).symbols name allowed := by
  induction es generalizing kinds st with
  | nil => exact h
  | cons e es ih =>
    rw [trackAll_cons, Option.bind_eq_some_iff] at ht
    obtain ⟨kinds₁, he, hrest⟩ := ht
    have hstep := knowsAt_step hk he (fun kind b hdeclare ↦ hes kind b (by simp [hdeclare])) h
    exact ih (map_kind_step hk he) hrest
      (fun kind b hmem ↦ hes kind b (List.mem_cons_of_mem _ hmem)) hstep

/-! ### Names that the root gets -/

/-- The symbol that the outermost scope has for a name. -/
def rootFind? (scopes : List OpenScope) (name : String) : Option ℕ :=
  scopes.getLast?.bind fun s ↦ s.names.lookup name

theorem rootFind?_eq_none_iff {scopes : List OpenScope} :
    rootFind? scopes name = none ↔ name ∉ rootNames scopes := by
  rw [rootFind?, rootNames]
  cases scopes.getLast? with
  | none => simp
  | some s =>
    rw [Option.bind_some, Option.map_some, Option.getD_some, lookup_eq_none_iff_not_mem]

theorem rootFind?_cons (s : OpenScope) {rest : List OpenScope} (h : rest ≠ []) (name : String) :
    rootFind? (s :: rest) name = rootFind? rest name := by
  cases rest with
  | nil => exact absurd rfl h
  | cons o more => rw [rootFind?, rootFind?, List.getLast?_cons_cons]

theorem rootFind?_passOut (left : List ℕ) (scopes : List OpenScope) (name : String) :
    rootFind? (passOut left scopes) name = rootFind? scopes name := by
  cases scopes with
  | nil => rfl
  | cons o more => cases more <;> rfl

theorem lookup_cons_of_eq_some {names : List (String × ℕ)} {n : String} {k : ℕ}
    (h : names.lookup name = some k) (hn : names.lookup n = none) (i : ℕ) :
    ((n, i) :: names).lookup name = some k := by
  rw [lookup_cons_eq_ite, if_neg, h]
  rintro rfl
  rw [hn] at h
  cases h

theorem lookup_declareIn {s : OpenScope} {k : ℕ} (h : s.names.lookup name = some k)
    (kind : DeclarationKind) (b : Binding) :
    (st.declareIn s kind b).2.1.names.lookup name = some k := by
  rw [declareIn]
  split
  · exact h
  · rename_i hnone
    exact lookup_cons_of_eq_some h (Option.or_eq_none_iff.1 hnone).1 _

theorem lookup_hoistInto {s : OpenScope} {k : ℕ} (h : s.names.lookup name = some k) (n : String)
    (i : ℕ) : (st.hoistInto s n i).2.names.lookup name = some k := by
  rw [hoistInto]
  split
  · exact h
  · rename_i hnone
    exact lookup_cons_of_eq_some h (Option.not_isSome_iff_eq_none.1 hnone) _

/-- A declaration in a scope that nothing passes through makes the scope know the name. -/
theorem isSome_lookup_declareIn {s : OpenScope} (hs : s.passing = []) (kind : DeclarationKind)
    (b : Binding) : ((st.declareIn s kind b).2.1.names.lookup b.name).isSome := by
  rw [declareIn]
  split
  · rename_i k hk
    rw [OpenScope.find?, hs, List.lookup_nil, Option.or_none] at hk
    exact hk ▸ rfl
  · show (((b.name, _) :: s.names).lookup b.name).isSome
    rw [lookup_cons_eq_ite, if_pos rfl]
    rfl

theorem isSome_lookup_hoistInto (st : Scoping) (s : OpenScope) (name : String) (k : ℕ) :
    ((st.hoistInto s name k).2.names.lookup name).isSome := by
  rw [hoistInto]
  split
  · assumption
  · show (((name, k) :: s.names).lookup name).isSome
    rw [lookup_cons_eq_ite, if_pos rfl]
    rfl

theorem rootFind?_declareVar {scopes : List OpenScope} {k : ℕ}
    (h : rootFind? scopes name = some k) (b : Binding) (found : Option ℕ) (st : Scoping) :
    rootFind? (declareVar b found st scopes).2.1 name = some k := by
  induction scopes generalizing found st with
  | nil => exact h
  | cons s outer ih =>
    by_cases hvars : s.kind.holdsVars
    · rw [declareVar_cons_of_holdsVars _ _ _ _ hvars]
      cases outer with
      | nil =>
        cases found with
        | some i => exact lookup_hoistInto h b.name i
        | none => exact lookup_declareIn h .var b
      | cons o more =>
        rw [rootFind?_cons s (List.cons_ne_nil o more)] at h
        cases found <;> exact (rootFind?_cons _ (List.cons_ne_nil o more) name).trans h
    · rw [declareVar_cons_of_not_holdsVars _ _ _ _ hvars]
      cases outer with
      | nil => exact h
      | cons o more =>
        rw [rootFind?_cons s (List.cons_ne_nil o more)] at h
        refine Eq.trans (rootFind?_cons _ ?_ name) (ih h _ _)
        exact declareVar_ne_nil b _ _ (List.cons_ne_nil o more)

/-- **The symbol that the root has for a name stays.** -/
theorem rootFind?_step {kinds kinds' : List ScopeKind} {e : ScopeEvent}
    (hk : st.scopes.map OpenScope.kind = kinds ++ [.root]) (ht : e.track kinds = some kinds')
    {k : ℕ} (h : rootFind? st.scopes name = some k) :
    rootFind? (st.step e).scopes name = some k := by
  cases inPlace_of_track hk ht with
  | enter kind s outer hkind hs =>
    have hne : st.scopes ≠ [] := hs ▸ List.cons_ne_nil s outer
    exact (rootFind?_cons _ hne name).trans h
  | adopt s o more hkind hs =>
    rw [hs, rootFind?_cons s (List.cons_ne_nil o more)] at h
    simp only [step, hs]
    rw [rootFind?_cons _ (List.cons_ne_nil _ _), rootFind?_cons _ (List.cons_ne_nil o more), h]
  | leave s o more hs =>
    rw [hs, rootFind?_cons s (List.cons_ne_nil o more)] at h
    simp only [step, settle_cons hs, List.drop_one, List.tail_cons]
    rw [rootFind?_passOut, h]
  | settle s o more hs =>
    rw [hs, rootFind?_cons s (List.cons_ne_nil o more)] at h
    simp only [step, settle_cons hs]
    rw [rootFind?_cons _ (by simp [passOut]), rootFind?_passOut, h]
  | declare kind b s outer hs =>
    rw [step, declare]
    split
    · exact rootFind?_declareVar h b none st
    · rw [hs] at h
      simp only [hs]
      cases outer with
      | nil => exact lookup_declareIn h kind b
      | cons o more =>
        rw [rootFind?_cons s (List.cons_ne_nil o more)] at h
        rw [rootFind?_cons _ (List.cons_ne_nil o more), h]
  | refer n s outer hs =>
    rw [hs] at h
    simp only [step, hs]
    cases outer with
    | nil => exact h
    | cons o more =>
      rw [rootFind?_cons s (List.cons_ne_nil o more)] at h
      rw [rootFind?_cons _ (List.cons_ne_nil o more), h]

/-- A `var` that all scopes let pass becomes known to the root. -/
theorem isSome_rootFind?_declareVar {scopes : List OpenScope} (hopen : OpenToRoot scopes)
    {kinds : List ScopeKind} (hkinds : scopes.map OpenScope.kind = kinds ++ [.root])
    (hroot : ∀ s ∈ scopes.getLast?, s.passing = []) (b : Binding) (found : Option ℕ)
    (st : Scoping) : (rootFind? (declareVar b found st scopes).2.1 b.name).isSome := by
  induction scopes generalizing found st kinds with
  | nil => exact absurd hkinds (by simp)
  | cons s outer ih =>
    by_cases hvars : s.kind.holdsVars
    · obtain rfl : outer = [] := by
        by_contra hne
        exact not_openToRoot_cons hvars hne hopen
      rw [declareVar_cons_of_holdsVars _ _ _ _ hvars]
      cases found with
      | some k => exact isSome_lookup_hoistInto st s b.name k
      | none => exact isSome_lookup_declareIn (hroot s rfl) .var b
    · obtain ⟨kind, kinds', rfl⟩ : ∃ kind kinds', kinds = kind :: kinds' := by
        cases kinds with
        | nil =>
          obtain ⟨hkind, -⟩ := List.cons.inj hkinds
          exact absurd (by rw [hkind]; rfl) hvars
        | cons kind kinds' => exact ⟨kind, kinds', rfl⟩
      obtain ⟨-, hkinds'⟩ := List.cons.inj hkinds
      have hne : outer ≠ [] := by
        rintro rfl
        simp at hkinds'
      have hroot' : ∀ t ∈ outer.getLast?, t.passing = [] := by
        obtain ⟨o, more, rfl⟩ := List.exists_cons_of_ne_nil hne
        rwa [List.getLast?_cons_cons] at hroot
      rw [declareVar_cons_of_not_holdsVars _ _ _ _ hvars]
      show (rootFind? (_ :: (declareVar b _ _ outer).2.1) b.name).isSome
      rw [rootFind?_cons _ (declareVar_ne_nil b _ _ hne)]
      exact ih hopen.tail hkinds' hroot' _ _

/-- **What is declared for the module becomes known to the root.** -/
theorem isSome_rootFind?_step {kinds : List ScopeKind} {e : ScopeEvent}
    (hk : st.scopes.map OpenScope.kind = kinds ++ [.root])
    (hroot : ∀ s ∈ st.scopes.getLast?, s.passing = []) (h : e.reaching? kinds = some name) :
    (rootFind? (st.step e).scopes name).isSome := by
  cases e with
  | declare kind b =>
    rw [ScopeEvent.reaching?] at h
    split at h
    · rename_i hcond
      obtain rfl := Option.some.inj h
      rw [step, declare]
      split
      · rename_i hvar
        refine isSome_rootFind?_declareVar (fun k hmem ↦ ?_) hk hroot b none st
        rw [hk, List.dropLast_concat] at hmem
        rw [Bool.or_eq_true, Bool.and_eq_true] at hcond
        rcases hcond with hempty | ⟨-, hall⟩
        · rw [List.isEmpty_iff.1 hempty] at hmem
          exact absurd hmem List.not_mem_nil
        · simpa using List.all_eq_true.1 hall k hmem
      · rename_i hvar
        obtain rfl : kinds = [] := by simpa [hvar] using hcond
        obtain ⟨s, hs, -⟩ := List.map_eq_singleton_iff.1 hk
        rw [hs] at hroot
        simp only [hs]
        exact isSome_lookup_declareIn (hroot s rfl) kind b
    · cases h
  | _ => cases h

theorem rootFind?_foldl_step {kinds kinds' : List ScopeKind} {es : List ScopeEvent}
    (hk : st.scopes.map OpenScope.kind = kinds ++ [.root]) (ht : trackAll kinds es = some kinds')
    {k : ℕ} (h : rootFind? st.scopes name = some k) :
    rootFind? (es.foldl step st).scopes name = some k := by
  induction es generalizing kinds st with
  | nil => exact h
  | cons e es ih =>
    rw [trackAll_cons, Option.bind_eq_some_iff] at ht
    obtain ⟨kinds₁, he, hrest⟩ := ht
    exact ih (map_kind_step hk he) hrest (rootFind?_step hk he h)

theorem passing_root {symbols : Array Symbol} {scopes : List OpenScope}
    (h : Apart symbols scopes) : ∀ s ∈ scopes.getLast?, s.passing = [] := by
  induction scopes with
  | nil => simp
  | cons s outer ih =>
    cases outer with
    | nil =>
      rintro t ⟨⟩
      exact h.2.1
    | cons o more =>
      rw [List.getLast?_cons_cons]
      exact ih h.tail

/-- After events that declare a name for the module, the root has a symbol for it. -/
theorem isSome_rootFind?_foldl_step {kinds kinds' : List ScopeKind} {es : List ScopeEvent}
    (hk : st.scopes.map OpenScope.kind = kinds ++ [.root]) (ht : trackAll kinds es = some kinds')
    (hsound : Sound st) (h : name ∈ moduleNames kinds es) :
    (rootFind? (es.foldl step st).scopes name).isSome := by
  induction es generalizing kinds st with
  | nil => exact absurd h List.not_mem_nil
  | cons e es ih =>
    rw [trackAll_cons, Option.bind_eq_some_iff] at ht
    obtain ⟨kinds₁, he, hrest⟩ := ht
    rw [moduleNames, he, Option.getD_some, List.mem_append, Option.mem_toList] at h
    rcases h with h | h
    · obtain ⟨k, hfind⟩ :=
        Option.isSome_iff_exists.1 (isSome_rootFind?_step hk (passing_root hsound.apart) h)
      exact Option.isSome_iff_exists.2 ⟨k, rootFind?_foldl_step (map_kind_step hk he) hrest hfind⟩
    · exact ih (map_kind_step hk he) hrest (hsound.step hk he) h

/-! ### The item that declares a name first -/

/-- Between items only the root is open, and it has no names but those that items declare for the
module. -/
structure BetweenItems (ess : List (List ScopeEvent)) (st : Scoping) : Prop where
  sound : Sound st
  kinds : st.scopes.map OpenScope.kind = [.root]
  names : ∀ name ∈ rootNames st.scopes, ∃ es ∈ ess, name ∈ moduleNames [] es

theorem betweenItems_nil : BetweenItems [] initial where
  sound := sound_initial
  kinds := rfl
  names _ h := absurd h List.not_mem_nil

theorem BetweenItems.kinds_item {ess : List (List ScopeEvent)} (h : BetweenItems ess st) :
    (st.step .item).scopes.map OpenScope.kind = [] ++ [.root] :=
  h.kinds

theorem BetweenItems.concat {ess : List (List ScopeEvent)} (h : BetweenItems ess st)
    {es : List ScopeEvent} (hes : Nested es) :
    BetweenItems (ess ++ [es]) (es.foldl step (st.step .item)) where
  sound := Sound.foldl_step ⟨h.sound.apart, h.sound.valid, h.sound.nodup, h.sound.isOpen⟩
    h.kinds_item (hes [])
  kinds := map_kind_foldl_step h.kinds_item (hes [])
  names n hn := by
    rcases rootNames_foldl_step h.kinds_item (hes []) n hn with hn | hn
    · obtain ⟨fs, hfs, hname⟩ := h.names n hn
      exact ⟨fs, List.mem_append_left _ hfs, hname⟩
    · exact ⟨es, List.mem_append_right _ (List.mem_singleton_self es), hn⟩

theorem betweenItems_runItems {ess : List (List ScopeEvent)} (hess : ∀ es ∈ ess, Nested es) :
    BetweenItems ess (runItems ess) := by
  induction ess using List.reverseRecOn with
  | nil => exact betweenItems_nil
  | append_singleton ess es ih =>
    rw [runItems_concat]
    exact (ih fun fs hfs ↦ hess fs (List.mem_append_left _ hfs)).concat
      (hess es (List.mem_append_right _ (List.mem_singleton_self es)))

/-- The root has a symbol of a name that stands in a place that is allowed. -/
def RootStandsAt (st : Scoping) (name : String) (allowed : ℕ → Prop) : Prop :=
  ∃ k, rootFind? st.scopes name = some k ∧ StandsAt st.symbols name allowed k

/-- The symbol that the root has for a name stays where it is through items that follow. -/
theorem RootStandsAt.foldl_items {ess fss : List (List ScopeEvent)} (hfss : ∀ fs ∈ fss, Nested fs)
    (hst : BetweenItems ess st) (h : RootStandsAt st name allowed) :
    RootStandsAt ((fss.flatMap fun es ↦ .item :: es).foldl step st) name allowed := by
  induction fss generalizing ess st with
  | nil => exact h
  | cons fs fss ih =>
    obtain ⟨hfs, hrest⟩ := List.forall_mem_cons.1 hfss
    obtain ⟨k, hfind, hstands⟩ := h
    rw [List.flatMap_cons, List.foldl_append]
    refine ih hrest (hst.concat hfs) ⟨k, ?_, ?_⟩
    · exact rootFind?_foldl_step hst.kinds_item (hfs []) hfind
    · exact hstands.stays (stays_foldl_step (.item :: fs) st)

/-- **The symbol of a name stands in the item that declares the name first.** -/
theorem rootStandsAt_runItems {pre post : List (List ScopeEvent)} {es : List ScopeEvent}
    (hess : ∀ fs ∈ pre ++ es :: post, Nested fs) (hname : name ∈ moduleNames [] es)
    (hfirst : ∀ fs ∈ pre, name ∉ moduleNames [] fs) :
    RootStandsAt (runItems (pre ++ es :: post)) name
      (fun o ↦ ∃ kind b, .declare kind b ∈ es ∧ b.offset = o) := by
  have hpre : ∀ fs ∈ pre, Nested fs := fun fs hfs ↦ hess fs (List.mem_append_left _ hfs)
  obtain ⟨hes, hpost⟩ := List.forall_mem_cons.1 fun fs hfs ↦ hess fs (List.mem_append_right _ hfs)
  have hbetween := betweenItems_runItems hpre
  have hconcat := hbetween.concat hes
  rw [← runItems_concat] at hconcat
  -- Before the item the root knows nothing by the name.
  have hbefore : ∀ s ∈ ((runItems pre).step .item).scopes,
      s.KnowsAt ((runItems pre).step .item).symbols name
        (fun o ↦ ∃ kind b, .declare kind b ∈ es ∧ b.offset = o) := by
    obtain ⟨root, hscopes, -⟩ := List.map_eq_singleton_iff.1 hbetween.kinds
    have hapart := hbetween.sound.apart
    have hnames := hbetween.names name
    rw [hscopes] at hapart hnames
    change ∀ s ∈ (runItems pre).scopes, _
    rw [hscopes]
    refine List.forall_mem_singleton.2 fun k hk ↦ ?_
    rw [hapart.2.1, List.append_nil] at hk
    obtain ⟨fs, hfs, hn⟩ := hnames (List.mem_map_of_mem hk)
    exact absurd hn (hfirst fs hfs)
  have hafter := knowsAt_foldl_step hbetween.kinds_item (hes [])
    (fun kind b hb ↦ ⟨kind, b, hb, rfl⟩) hbefore
  have hroot : RootStandsAt (runItems (pre ++ [es])) name
      (fun o ↦ ∃ kind b, .declare kind b ∈ es ∧ b.offset = o) := by
    rw [runItems_concat]
    have hsound : Sound ((runItems pre).step .item) :=
      ⟨hbetween.sound.apart, hbetween.sound.valid, hbetween.sound.nodup, hbetween.sound.isOpen⟩
    obtain ⟨k, hk⟩ := Option.isSome_iff_exists.1
      (isSome_rootFind?_foldl_step hbetween.kinds_item (hes []) hsound hname)
    refine ⟨k, hk, ?_⟩
    obtain ⟨s, hs, hlookup⟩ := Option.bind_eq_some_iff.1 hk
    refine hafter s (List.mem_of_getLast? hs) k (OpenScope.mem_of_find? ?_)
    rw [OpenScope.find?, hlookup, Option.some_or]
  have h := hroot.foldl_items hpost hconcat
  rwa [runItems, ← List.foldl_append, ← List.flatMap_append, List.append_assoc,
    List.singleton_append] at h

/-- The module has its binding of a name in the item that declares the name first. -/
theorem exists_rootBinding_of_first {pre post : List (List ScopeEvent)} {es : List ScopeEvent}
    (hess : ∀ fs ∈ pre ++ es :: post, Nested fs) (hname : name ∈ moduleNames [] es)
    (hfirst : ∀ fs ∈ pre, name ∉ moduleNames [] fs) :
    ∃ b ∈ (ofEvents ((pre ++ es :: post).flatMap fun es ↦ .item :: es)).rootBindings,
      b.name = name ∧ ∃ kind c, .declare kind c ∈ es ∧ c.offset = b.offset := by
  obtain ⟨k, hfind, y, hy, hyname, hoffset⟩ := rootStandsAt_runItems hess hname hfirst
  have hbetween := betweenItems_runItems hess
  obtain ⟨root, hscopes, -⟩ := List.map_eq_singleton_iff.1 hbetween.kinds
  have hapart := hbetween.sound.apart
  rw [hscopes] at hapart
  rw [hscopes, rootFind?, List.getLast?_singleton, Option.bind_some] at hfind
  -- What the root knows belongs to the module.
  have hatRoot : y.atRoot = true := by
    obtain ⟨l₁, l₂, hnames, -⟩ := List.lookup_eq_some_iff.1 hfind
    have h := hapart.2.2 (name, k) (hnames ▸ List.mem_append_right _ List.mem_cons_self)
    rw [atRoot?, hy, Option.map_some] at h
    exact Option.some.inj h
  refine ⟨⟨y.name, y.offset⟩, ?_, hyname, hoffset⟩
  rw [ofEvents_flatMap, rootBindings, symbols_settle]
  exact List.mem_map.2 ⟨y, List.mem_filter.2 ⟨List.mem_of_getElem? (Array.getElem?_toList ▸ hy),
    hatRoot⟩, rfl⟩

end Scoping

end AppletBundle.Script
