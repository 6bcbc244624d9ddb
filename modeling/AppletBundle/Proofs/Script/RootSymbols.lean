import AppletBundle.Proofs.Script.Renumbering

/-!
# The symbols of the module

Whether a symbol belongs to the module as a whole is noted with the symbol, and changes when the
name of a caught exception moves to the scope that holds a `var`. It never changes for the names of
the root scope: `Apart` is the invariant that the root knows symbols of the module only, and that a
scope inside a function knows none of them. `rootNames_foldl_step` says which names the root gets.
-/

namespace AppletBundle.Script

/-- Whether a symbol belongs to the module, if there is one of that number. -/
def atRoot? (symbols : Array Symbol) (k : ℕ) : Option Bool :=
  symbols[k]?.map Symbol.atRoot

/-- A number is that of a symbol, and of one of the module only under a condition. -/
def Known (symbols : Array Symbol) (reach : Prop) (k : ℕ) : Prop :=
  ∃ c, atRoot? symbols k = some c ∧ (c = true → reach)

/-- The outermost scope is the root and knows symbols of the module only; the scopes inside it know
some of them only if a `var` in them is one of the root. -/
def Apart (symbols : Array Symbol) : List OpenScope → Prop
  | [] => True
  | [s] => s.kind = .root ∧ s.passing = [] ∧ ∀ p ∈ s.names, atRoot? symbols p.2 = some true
  | s :: t :: rest => s.kind ≠ .root ∧
      (∀ p ∈ s.names ++ s.passing, Known symbols (OpenToRoot (s :: t :: rest)) p.2) ∧
      Apart symbols (t :: rest)

/-- All symbols stay, and none leaves the module; one may come to it only under a condition. -/
def Keeps (reach : Prop) (old new : Array Symbol) : Prop :=
  ∀ k c, atRoot? old k = some c →
    ∃ c', atRoot? new k = some c' ∧ (c = true → c' = true) ∧ (c' = true → c = true ∨ reach)

theorem Keeps.refl (reach : Prop) (symbols : Array Symbol) : Keeps reach symbols symbols :=
  fun _ c hc ↦ ⟨c, hc, id, Or.inl⟩

theorem Known.keeps {reach reach' : Prop} {old new : Array Symbol} {k : ℕ}
    (h : Known old reach k) (hk : Keeps reach' old new) (hr : reach' → reach) :
    Known new reach k := by
  obtain ⟨c, hc, hreach⟩ := h
  obtain ⟨c', hc', -, hback⟩ := hk k c hc
  exact ⟨c', hc', fun ht ↦ (hback ht).elim hreach hr⟩

/-- A name that a scope knows is one of its own or of those that pass through it. -/
theorem OpenScope.mem_of_find? {s : OpenScope} {name : String} {k : ℕ}
    (h : s.find? name = some k) : (name, k) ∈ s.names ++ s.passing := by
  have hmem : ∀ {l : List (String × ℕ)}, l.lookup name = some k → (name, k) ∈ l := fun hl ↦ by
    obtain ⟨l₁, l₂, rfl, -⟩ := List.lookup_eq_some_iff.1 hl
    exact List.mem_append_right _ List.mem_cons_self
  rw [OpenScope.find?, Option.or_eq_some_iff] at h
  rcases h with h | ⟨-, h⟩
  · exact List.mem_append_left _ (hmem h)
  · exact List.mem_append_right _ (hmem h)

namespace Apart

variable {symbols old new : Array Symbol} {s : OpenScope} {outer scopes : List OpenScope}

theorem tail (h : Apart symbols (s :: outer)) : Apart symbols outer := by
  cases outer with
  | nil => exact trivial
  | cons t rest => exact h.2.2

/-- The invariant survives when symbols come to the module that the scopes may know there. -/
theorem keeps {reach : Prop} (h : Apart old scopes) (hk : Keeps reach old new)
    (hr : reach → OpenToRoot scopes) : Apart new scopes := by
  induction scopes with
  | nil => exact trivial
  | cons s outer ih =>
    cases outer with
    | nil =>
      refine ⟨h.1, h.2.1, fun p hp ↦ ?_⟩
      obtain ⟨c', hc', hup, -⟩ := hk p.2 true (h.2.2 p hp)
      rw [hc', hup rfl]
    | cons t rest =>
      exact ⟨h.1, fun p hp ↦ (h.2.1 p hp).keeps hk hr, ih h.2.2 fun hreach ↦ (hr hreach).tail⟩

/-- What a scope knows are symbols. -/
theorem known (h : Apart symbols (s :: outer)) {p : String × ℕ} (hp : p ∈ s.names ++ s.passing) :
    Known symbols (OpenToRoot (s :: outer)) p.2 := by
  cases outer with
  | nil =>
    rw [h.2.1, List.append_nil] at hp
    exact ⟨true, h.2.2 p hp, fun _ _ hu ↦ absurd hu List.not_mem_nil⟩
  | cons t rest => exact h.2.1 p hp

theorem known_of_find? (h : Apart symbols (s :: outer)) {name : String} {k : ℕ}
    (hf : s.find? name = some k) : Known symbols (OpenToRoot (s :: outer)) k :=
  h.known (OpenScope.mem_of_find? hf)

end Apart

namespace Scoping

variable {st : Scoping} {s : OpenScope} {outer : List OpenScope}

theorem atRoot?_modify (symbols : Array Symbol) (i k : ℕ) (f : Symbol → Symbol) :
    atRoot? (symbols.modify i f) k =
      if i = k then symbols[k]?.map fun y ↦ (f y).atRoot else atRoot? symbols k := by
  rw [atRoot?, Array.getElem?_modify]
  split
  · rw [Option.map_map]
    rfl
  · rfl

theorem atRoot?_push (symbols : Array Symbol) (y : Symbol) (k : ℕ) :
    atRoot? (symbols.push y) k = if k = symbols.size then some y.atRoot else atRoot? symbols k := by
  rw [atRoot?, Array.getElem?_push]
  split <;> rfl

theorem atRoot?_size (symbols : Array Symbol) : atRoot? symbols symbols.size = none := by
  simp [atRoot?]

/-- Declaring a name in a scope adds a symbol at most. -/
theorem keeps_declareIn (st : Scoping) (s : OpenScope) (kind : DeclarationKind) (b : Binding) :
    Keeps False st.symbols (st.declareIn s kind b).1.symbols := by
  intro k c hc
  refine ⟨c, ?_, id, Or.inl⟩
  rw [declareIn]
  split
  · rename_i i _
    simp only [check, atRoot?_modify]
    split
    · exact hc
    · exact hc
  · rw [atRoot?_push, if_neg, hc]
    rintro rfl
    simp [atRoot?_size] at hc

/-- A name that is declared in the innermost scope keeps the invariant, and has a symbol that this
scope may know. -/
theorem apart_declareIn (kind : DeclarationKind) (b : Binding) (h : Apart st.symbols (s :: outer)) :
    Apart (st.declareIn s kind b).1.symbols ((st.declareIn s kind b).2.1 :: outer) ∧
      Known (st.declareIn s kind b).1.symbols (OpenToRoot (s :: outer))
        (st.declareIn s kind b).2.2 := by
  have hkeeps := keeps_declareIn st s kind b
  have h' := h.keeps hkeeps False.elim
  cases hf : s.find? b.name with
  | some i =>
    simp only [declareIn, hf] at hkeeps h' ⊢
    exact ⟨h', (h.known_of_find? hf).keeps hkeeps False.elim⟩
  | none =>
    simp only [declareIn, hf] at hkeeps h' ⊢
    have hnew : atRoot? (st.symbols.push ⟨b.name, b.offset, kind.flags, s.kind = .root⟩)
        st.symbols.size = some (decide (s.kind = .root)) := by
      rw [atRoot?_push, if_pos rfl]
    cases outer with
    | nil =>
      refine ⟨⟨h'.1, h'.2.1, List.forall_mem_cons.2 ⟨?_, h'.2.2⟩⟩,
        _, hnew, fun _ _ hu ↦ absurd hu List.not_mem_nil⟩
      rw [hnew, h'.1]
      rfl
    | cons t rest =>
      have hknown : ∀ reach, Known (st.symbols.push ⟨b.name, b.offset, kind.flags, s.kind = .root⟩)
          reach st.symbols.size := fun reach ↦
        ⟨_, hnew, fun hroot ↦ absurd (of_decide_eq_true hroot) h'.1⟩
      exact ⟨⟨h'.1, List.forall_mem_cons.2 ⟨hknown _, h'.2.1⟩, h'.2.2⟩, hknown _⟩

/-- The name of a caught exception that moves to the scope of a `var` keeps the invariant. -/
theorem apart_hoistInto {k : ℕ} (name : String) (h : Apart st.symbols (s :: outer))
    (hs : s.kind.holdsVars) (hk : Known st.symbols (OpenToRoot (s :: outer)) k) :
    Apart (st.hoistInto s name k).1.symbols ((st.hoistInto s name k).2 :: outer) ∧
      Keeps (OpenToRoot (s :: outer)) st.symbols (st.hoistInto s name k).1.symbols := by
  rw [hoistInto]
  split
  · exact ⟨h, Keeps.refl _ _⟩
  · obtain ⟨c, hc, hreach⟩ := hk
    have hat : ∀ i, atRoot? (st.symbols.modify k fun y ↦ { y with atRoot := s.kind = .root }) i =
        if k = i then some (decide (s.kind = .root)) else atRoot? st.symbols i := by
      intro i
      rw [atRoot?_modify]
      split
      · rename_i hi
        subst hi
        obtain ⟨y, hy, -⟩ := Option.map_eq_some_iff.1 hc
        rw [hy]
        rfl
      · rfl
    cases outer with
    | nil =>
      -- At the root the symbol comes to the module, which the scopes inside may know.
      have hkeeps : Keeps (OpenToRoot [s]) st.symbols
          (st.symbols.modify k fun y ↦ { y with atRoot := s.kind = .root }) := by
        intro i d hd
        rw [hat]
        split
        · refine ⟨_, rfl, fun _ ↦ decide_eq_true h.1, fun _ ↦ Or.inr fun _ hu ↦ ?_⟩
          exact absurd hu List.not_mem_nil
        · exact ⟨d, hd, id, Or.inl⟩
      have h' := h.keeps hkeeps id
      refine ⟨⟨h'.1, h'.2.1, List.forall_mem_cons.2 ⟨?_, h'.2.2⟩⟩, hkeeps⟩
      rw [hat, if_pos rfl, h.1]
      rfl
    | cons t rest =>
      -- Inside a function the symbol is none of the module, so to note that again changes nothing.
      have hclosed := not_openToRoot_cons hs (List.cons_ne_nil t rest)
      have hroot : decide (s.kind = .root) = false := decide_eq_false h.1
      have hfalse : c = false := by
        cases c with
        | false => rfl
        | true => exact absurd (hreach rfl) hclosed
      have hkeeps : Keeps (OpenToRoot (s :: t :: rest)) st.symbols
          (st.symbols.modify k fun y ↦ { y with atRoot := s.kind = .root }) := by
        intro i d hd
        rw [hat]
        split
        · rename_i hi
          subst hi
          rw [hc, hfalse] at hd
          exact ⟨_, congrArg some hroot, fun ht ↦ absurd (hd.trans (congrArg some ht)) (by simp),
            fun ht ↦ absurd ht (by simp)⟩
        · exact ⟨d, hd, id, Or.inl⟩
      have h' := h.keeps hkeeps id
      refine ⟨⟨h'.1, List.forall_mem_cons.2 ⟨?_, h'.2.1⟩, h'.2.2⟩, hkeeps⟩
      exact ⟨false, by rw [hat, if_pos rfl, hroot], fun ht ↦ absurd ht (by simp)⟩

/-- The scope that a `var` passes through keeps the invariant if the scopes outside do. -/
theorem apart_passing {new : Array Symbol} {t : OpenScope} {rest outer' : List OpenScope} {k : ℕ}
    (name : String) (hs : ¬ s.kind.holdsVars) (h : Apart st.symbols (s :: t :: rest))
    (hkinds : outer'.map OpenScope.kind = (t :: rest).map OpenScope.kind)
    (hapart : Apart new outer') (hkeeps : Keeps (OpenToRoot (t :: rest)) st.symbols new)
    (hknown : Known new (OpenToRoot (t :: rest)) k) :
    Apart new ({ s with passing := (name, k) :: s.passing } :: outer') := by
  have hopen := openToRoot_cons_iff hs (t :: rest)
  obtain ⟨u, more, rfl⟩ : ∃ u more, outer' = u :: more := by
    cases outer' with
    | nil => simp at hkinds
    | cons u more => exact ⟨u, more, rfl⟩
  have hopen' : OpenToRoot ({ s with passing := (name, k) :: s.passing } :: u :: more) ↔
      OpenToRoot (t :: rest) := by
    rw [← hopen]
    refine openToRoot_congr ?_
    rw [List.map_cons, hkinds]
    rfl
  have hold : ∀ p ∈ s.names ++ s.passing, Known new (OpenToRoot (t :: rest)) p.2 := fun p hp ↦ by
    have hp := h.known hp
    rw [hopen] at hp
    exact hp.keeps hkeeps id
  refine ⟨h.1, fun p hp ↦ ?_, hapart⟩
  rw [hopen']
  rcases List.mem_append.1 hp with hp | hp
  · exact hold p (List.mem_append_left _ hp)
  · rcases List.mem_cons.1 hp with rfl | hp
    · exact hknown
    · exact hold p (List.mem_append_right _ hp)

/-- A `var` keeps the invariant, and has a symbol that the innermost scope may know. -/
theorem apart_declareVar (b : Binding) {scopes : List OpenScope} (found : Option ℕ)
    (hne : scopes ≠ []) (h : Apart st.symbols scopes)
    (hfound : ∀ k ∈ found, Known st.symbols (OpenToRoot scopes) k) :
    Apart (declareVar b found st scopes).1.symbols (declareVar b found st scopes).2.1 ∧
      Keeps (OpenToRoot scopes) st.symbols (declareVar b found st scopes).1.symbols ∧
      Known (declareVar b found st scopes).1.symbols (OpenToRoot scopes)
        (declareVar b found st scopes).2.2 := by
  induction scopes generalizing st found with
  | nil => exact absurd rfl hne
  | cons s outer ih =>
    by_cases hs : s.kind.holdsVars
    · rw [declareVar_cons_of_holdsVars _ _ _ _ hs]
      cases found with
      | some k =>
        have hk := hfound k rfl
        obtain ⟨hapart, hkeeps⟩ := apart_hoistInto b.name h hs hk
        exact ⟨hapart, hkeeps, hk.keeps hkeeps id⟩
      | none =>
        obtain ⟨hapart, hknown⟩ := apart_declareIn .var b h
        refine ⟨hapart, fun k c hc ↦ ?_, hknown⟩
        obtain ⟨c', hc', hup, hback⟩ := keeps_declareIn st s .var b k c hc
        exact ⟨c', hc', hup, fun ht ↦ (hback ht).elim Or.inl False.elim⟩
    · obtain ⟨t, rest, rfl⟩ : ∃ t rest, outer = t :: rest := by
        cases outer with
        | nil => exact absurd (by rw [h.1]; rfl) hs
        | cons t rest => exact ⟨t, rest, rfl⟩
      have hopen := propext (openToRoot_cons_iff hs (t :: rest))
      rw [declareVar_cons_of_not_holdsVars _ _ _ _ hs, hopen]
      -- Whatever the scope adds to what has been found, the scopes outside may know it.
      have hpass : ∀ (st₁ : Scoping) (found' : Option ℕ), st₁.symbols = st.symbols →
          (∀ k ∈ found', Known st.symbols (OpenToRoot (t :: rest)) k) →
          Apart (declareVar b found' st₁ (t :: rest)).1.symbols
              ({ s with
                  passing := (b.name, (declareVar b found' st₁ (t :: rest)).2.2) :: s.passing } ::
                (declareVar b found' st₁ (t :: rest)).2.1) ∧
            Keeps (OpenToRoot (t :: rest)) st.symbols
              (declareVar b found' st₁ (t :: rest)).1.symbols ∧
            Known (declareVar b found' st₁ (t :: rest)).1.symbols (OpenToRoot (t :: rest))
              (declareVar b found' st₁ (t :: rest)).2.2 := by
        intro st₁ found' hsymbols hfound'
        obtain ⟨hapart, hkeeps, hknown⟩ := @ih st₁ found' (List.cons_ne_nil t rest)
          (hsymbols ▸ h.tail) (hsymbols ▸ hfound')
        rw [hsymbols] at hkeeps
        exact ⟨apart_passing b.name hs h (map_kind_declareVar b found' st₁ (t :: rest)) hapart
          hkeeps hknown, hkeeps, hknown⟩
      cases found with
      | some k => exact hpass st (some k) rfl (hopen ▸ hfound)
      | none =>
        cases hf : s.find? b.name with
        | none => simpa [hf] using hpass st none rfl (by simp)
        | some k =>
          have hk := h.known_of_find? hf
          rw [hopen] at hk
          simpa [hf] using hpass (st.check .var k) (some k) rfl (by simpa using hk)

/-! ### The names of the root -/

/-- The names that the outermost scope has. -/
def rootNames (scopes : List OpenScope) : List String :=
  (scopes.getLast?.map fun s ↦ s.names.map Prod.fst).getD []

theorem rootNames_cons (s : OpenScope) {rest : List OpenScope} (h : rest ≠ []) :
    rootNames (s :: rest) = rootNames rest := by
  cases rest with
  | nil => exact absurd rfl h
  | cons o more => rw [rootNames, rootNames, List.getLast?_cons_cons]

theorem rootNames_passOut (left : List ℕ) (scopes : List OpenScope) :
    rootNames (passOut left scopes) = rootNames scopes := by
  cases scopes with
  | nil => rfl
  | cons o more => cases more <;> rfl

theorem names_declareIn (st : Scoping) (s : OpenScope) (kind : DeclarationKind) (b : Binding) :
    (st.declareIn s kind b).2.1.names.map Prod.fst ⊆ b.name :: s.names.map Prod.fst := by
  rw [declareIn]
  split
  · exact List.subset_cons_self _ _
  · exact List.Subset.refl _

theorem names_hoistInto (st : Scoping) (s : OpenScope) (name : String) (k : ℕ) :
    (st.hoistInto s name k).2.names.map Prod.fst ⊆ name :: s.names.map Prod.fst := by
  rw [hoistInto]
  split
  · exact List.subset_cons_self _ _
  · exact List.Subset.refl _

/-- A `var` is new in the outermost scope only if all scopes inside let it pass. -/
theorem rootNames_declareVar (b : Binding) (found : Option ℕ) (st : Scoping)
    {scopes : List OpenScope} {name : String}
    (h : name ∈ rootNames (declareVar b found st scopes).2.1) :
    name ∈ rootNames scopes ∨ OpenToRoot scopes ∧ name = b.name := by
  induction scopes generalizing found st with
  | nil => exact Or.inl h
  | cons s outer ih =>
    by_cases hs : s.kind.holdsVars
    · rw [declareVar_cons_of_holdsVars _ _ _ _ hs] at h
      cases outer with
      | nil =>
        have hmem : name ∈ b.name :: s.names.map Prod.fst := by
          cases found with
          | some k => exact names_hoistInto st s b.name k h
          | none => exact names_declareIn st s .var b h
        rcases List.mem_cons.1 hmem with rfl | hmem
        · exact Or.inr ⟨fun _ hk ↦ absurd hk List.not_mem_nil, rfl⟩
        · exact Or.inl hmem
      | cons o more =>
        refine Or.inl ?_
        rw [rootNames_cons s (List.cons_ne_nil o more)]
        cases found <;> simpa only [rootNames_cons _ (List.cons_ne_nil o more)] using h
    · rw [declareVar_cons_of_not_holdsVars _ _ _ _ hs] at h
      cases outer with
      | nil => exact Or.inl h
      | cons o more =>
        rw [rootNames_cons s (List.cons_ne_nil o more)]
        simp only [rootNames_cons _ (declareVar_ne_nil b _ _ (List.cons_ne_nil o more))] at h
        rcases ih _ _ h with h | ⟨hopen, rfl⟩
        · exact Or.inl h
        · exact Or.inr ⟨(openToRoot_cons_iff hs _).2 hopen, rfl⟩

/-- The outermost scope gets no names but those that are declared for the module. -/
theorem rootNames_step {kinds kinds' : List ScopeKind} {e : ScopeEvent}
    (hk : st.scopes.map OpenScope.kind = kinds ++ [.root]) (ht : e.track kinds = some kinds')
    {name : String} (h : name ∈ rootNames (st.step e).scopes) :
    name ∈ rootNames st.scopes ∨ name ∈ e.reaching? kinds := by
  cases inPlace_of_track hk ht with
  | enter kind s outer hkind hs =>
    simp only [step, hs, rootNames_cons _ (List.cons_ne_nil s outer)] at h ⊢
    exact Or.inl h
  | adopt s o more hkind hs =>
    have hne : ({ s with names := [] } :: o :: more) ≠ [] := List.cons_ne_nil _ _
    simp only [step, hs, rootNames_cons _ hne, rootNames_cons _ (List.cons_ne_nil o more)] at h ⊢
    exact Or.inl h
  | leave s o more hs =>
    simp only [step, settle_cons hs, List.drop_one, List.tail_cons, rootNames_passOut] at h
    rw [hs, rootNames_cons s (List.cons_ne_nil o more)]
    exact Or.inl h
  | settle s o more hs =>
    simp only [step, settle_cons hs] at h
    rw [rootNames_cons _ (by simp [passOut]), rootNames_passOut] at h
    rw [hs, rootNames_cons s (List.cons_ne_nil o more)]
    exact Or.inl h
  | declare kind b s outer hs =>
    rw [step, declare] at h
    by_cases hvar : kind = .var
    · subst hvar
      rw [if_pos rfl] at h
      rcases rootNames_declareVar b none st h with h | ⟨hopen, rfl⟩
      · exact Or.inl h
      · exact Or.inr (reaching?_var b hk hopen)
    · rw [if_neg hvar, hs] at h
      rw [hs]
      cases outer with
      | nil =>
        rcases List.mem_cons.1 (names_declareIn st s kind b h) with rfl | h
        · exact Or.inr (reaching?_root kind b (hs ▸ hk))
        · exact Or.inl h
      | cons o more =>
        rw [rootNames_cons s (List.cons_ne_nil o more)]
        simp only [rootNames_cons _ (List.cons_ne_nil o more)] at h
        exact Or.inl h
  | refer name s outer hs =>
    simp only [step, hs] at h
    rw [hs]
    cases outer with
    | nil => exact Or.inl h
    | cons o more =>
      rw [rootNames_cons _ (List.cons_ne_nil o more)] at h ⊢
      exact Or.inl h

theorem rootNames_foldl_step {kinds kinds' : List ScopeKind} {es : List ScopeEvent}
    (hk : st.scopes.map OpenScope.kind = kinds ++ [.root]) (ht : trackAll kinds es = some kinds')
    (name : String) (h : name ∈ rootNames (es.foldl step st).scopes) :
    name ∈ rootNames st.scopes ∨ name ∈ moduleNames kinds es := by
  induction es generalizing kinds st with
  | nil => exact Or.inl h
  | cons e es ih =>
    rw [trackAll_cons, Option.bind_eq_some_iff] at ht
    obtain ⟨kinds₁, he, hes⟩ := ht
    rcases ih (map_kind_step hk he) hes h with h | h
    · rcases rootNames_step hk he h with h | h
      · exact Or.inl h
      · exact Or.inr (List.mem_append_left _ (Option.mem_toList.2 h))
    · exact Or.inr (List.mem_append_right _ (by rwa [he]))

end Scoping

end AppletBundle.Script
