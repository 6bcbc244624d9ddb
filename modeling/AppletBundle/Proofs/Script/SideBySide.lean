import AppletBundle.Proofs.Script.FirstSymbol
import Mathlib.Data.Option.Basic

/-!
# Runs side by side

Whether a declaration clashes depends on the ways in which its name has been declared before, and on
nothing else that happened: not on the places of declarations, nor on the numbers of symbols, nor on
names that the events leave alone. To say so, the same events are run from two states.

* `Pairing` says which symbols of one run stand for which of the other. It grows with every symbol
  that both make (`Abreast.push`), since the two runs number their symbols differently.
* `Alike` compares the open scopes. Inner scopes are opened by the events themselves and know the
  same names; of the root, only the names that the events declare for the module are compared.
* `Abreast` is the invariant. Its `frame` says that symbols which stand for none are left alone;
  this gives `flagsOf_foldl_step_of_not_mem`, a run being compared with itself.

`abreast_step` is the step and `abreast_foldl_step` the run. `AtTop` holds where no scope but the
root is open, and there `inStep_foldl_step` says it without pairings: by the names of the module.
-/

namespace AppletBundle.Script

/-! ### Symbols that stand for each other -/

/-- The ways in which a symbol has been declared. -/
def flags? (symbols : Array Symbol) (k : ℕ) : Option SymbolFlags :=
  symbols[k]?.map Symbol.flags

theorem flags?_modify (symbols : Array Symbol) (i : ℕ) {f : Symbol → Symbol}
    {u : SymbolFlags → SymbolFlags} (hf : ∀ y, (f y).flags = u y.flags) (k : ℕ) :
    flags? (symbols.modify i f) k =
      if i = k then (flags? symbols k).map u else flags? symbols k := by
  rw [flags?, Array.getElem?_modify]
  split
  · simp [flags?, Function.comp_def, hf]
  · rfl

theorem flags?_push (symbols : Array Symbol) (y : Symbol) (k : ℕ) :
    flags? (symbols.push y) k = if k = symbols.size then some y.flags else flags? symbols k := by
  rw [flags?, Array.getElem?_push]
  split <;> rfl

theorem lt_size_of_flags? {symbols : Array Symbol} {k : ℕ} {f : SymbolFlags}
    (h : flags? symbols k = some f) : k < symbols.size := by
  obtain ⟨y, hy, -⟩ := Option.map_eq_some_iff.1 h
  exact (Array.getElem?_eq_some_iff.1 hy).1

/-- Symbols of one run stand for symbols of another: they have been declared in the same ways, and
each stands for one only. -/
structure Pairing (P : ℕ → ℕ → Prop) (xs ys : Array Symbol) : Prop where
  flags : ∀ {k l}, P k l → ∃ f, flags? xs k = some f ∧ flags? ys l = some f
  unique : ∀ {k l k' l'}, P k l → P k' l' → (k = k' ↔ l = l')

/-- A scope of one run knows the names under consideration as a scope of another does. -/
structure OpenScope.Alike (P : ℕ → ℕ → Prop) (M : String → Prop) (s t : OpenScope) : Prop where
  kind : s.kind = t.kind
  names : ∀ n, M n → Option.Rel P (s.names.lookup n) (t.names.lookup n)
  passing : ∀ n, M n → Option.Rel P (s.passing.lookup n) (t.passing.lookup n)

/-- Open scopes know names alike; of the outermost only some names are under consideration. -/
inductive Alike (P : ℕ → ℕ → Prop) (M : String → Prop) : List OpenScope → List OpenScope → Prop
  | root {s t : OpenScope} (h : s.Alike P M t) : Alike P M [s] [t]
  | inner {s t : OpenScope} {ss ts : List OpenScope} (h : s.Alike P (fun _ ↦ True) t)
      (houter : Alike P M ss ts) : Alike P M (s :: ss) (t :: ts)

section alike

variable {P P' : ℕ → ℕ → Prop} {M : String → Prop}

theorem rel_mono (hP : ∀ k l, P k l → P' k l) {o o' : Option ℕ} (h : Option.Rel P o o') :
    Option.Rel P' o o' := by
  cases h with
  | some h => exact .some (hP _ _ h)
  | none => exact .none

theorem rel_or {o o' q q' : Option ℕ} (h : Option.Rel P o o') (hq : Option.Rel P q q') :
    Option.Rel P (o.or q) (o'.or q') := by
  cases h with
  | some h => exact .some h
  | none => exact hq

theorem isSome_eq_of_rel {o o' : Option ℕ} (h : Option.Rel P o o') : o.isSome = o'.isSome := by
  cases h <;> rfl

/-- A name more that is known by symbols that stand for each other. -/
theorem rel_lookup_cons {names names' : List (String × ℕ)} {n : String}
    (h : Option.Rel P (names.lookup n) (names'.lookup n)) (m : String) {k l : ℕ} (hkl : P k l) :
    Option.Rel P (((m, k) :: names).lookup n) (((m, l) :: names').lookup n) := by
  rw [lookup_cons_eq_ite, lookup_cons_eq_ite]
  split
  · exact .some hkl
  · exact h

namespace OpenScope.Alike

variable {s t : OpenScope}

theorem mono (h : s.Alike P M t) (hP : ∀ k l, P k l → P' k l) : s.Alike P' M t :=
  ⟨h.kind, fun n hn ↦ rel_mono hP (h.names n hn), fun n hn ↦ rel_mono hP (h.passing n hn)⟩

theorem find? (h : s.Alike P M t) {n : String} (hn : M n) :
    Option.Rel P (s.find? n) (t.find? n) :=
  rel_or (h.names n hn) (h.passing n hn)

theorem cons_names (h : s.Alike P M t) (m : String) {k l : ℕ} (hkl : P k l) :
    ({ s with names := (m, k) :: s.names } : OpenScope).Alike P M
      { t with names := (m, l) :: t.names } :=
  ⟨h.kind, fun n hn ↦ rel_lookup_cons (h.names n hn) m hkl, h.passing⟩

theorem cons_passing (h : s.Alike P M t) (m : String) {k l : ℕ} (hkl : P k l) :
    ({ s with passing := (m, k) :: s.passing } : OpenScope).Alike P M
      { t with passing := (m, l) :: t.passing } :=
  ⟨h.kind, h.names, fun n hn ↦ rel_lookup_cons (h.passing n hn) m hkl⟩

end OpenScope.Alike

theorem Alike.mono {ss ts : List OpenScope} (h : Alike P M ss ts) (hP : ∀ k l, P k l → P' k l) :
    Alike P' M ss ts := by
  induction h with
  | root h => exact .root (h.mono hP)
  | inner h _ ih => exact .inner (h.mono hP) ih

end alike

/-! ### Two runs -/

/-- The symbols of two runs, of which the second began with the symbols `ys`; before that, `P₀` said
which symbols stood for each other. What has become a clash in one has become one in the other. -/
structure Abreast (c d : Bool) (P₀ : ℕ → ℕ → Prop) (ys : Array Symbol) (P : ℕ → ℕ → Prop)
    (a b : Scoping) : Prop where
  pairing : Pairing P a.symbols b.symbols
  clash : ∃ x, a.clash = (c || x) ∧ b.clash = (d || x)
  /-- A symbol that stands for none is as it was. -/
  frame : ∀ l, (∀ k, ¬ P k l) → flags? b.symbols l = flags? ys l
  old : ∀ k l, P k l → l < ys.size → P₀ k l
  size : ys.size ≤ b.symbols.size

section steps

variable {c d : Bool} {P₀ P : ℕ → ℕ → Prop} {ys : Array Symbol} {M : String → Prop}
  {a b : Scoping} {s t : OpenScope} {k l : ℕ}

namespace Abreast

theorem congr (h : Abreast c d P₀ ys P a b) {a' b' : Scoping} (ha : a'.symbols = a.symbols)
    (hb : b'.symbols = b.symbols) (hca : a'.clash = a.clash) (hcb : b'.clash = b.clash) :
    Abreast c d P₀ ys P a' b' :=
  ⟨ha ▸ hb ▸ h.pairing, hca ▸ hcb ▸ h.clash, hb ▸ h.frame, h.old, hb ▸ h.size⟩

/-- Symbols that stand for each other are changed alike. -/
theorem modify (h : Abreast c d P₀ ys P a b) (hkl : P k l) {f g : Symbol → Symbol}
    {a' b' : Scoping} (ha : a'.symbols = a.symbols.modify k f)
    (hb : b'.symbols = b.symbols.modify l g) {u : SymbolFlags → SymbolFlags}
    (hf : ∀ y, (f y).flags = u y.flags) (hg : ∀ y, (g y).flags = u y.flags)
    (hclash : ∃ x, a'.clash = (c || x) ∧ b'.clash = (d || x)) : Abreast c d P₀ ys P a' b' where
  pairing := by
    rw [ha, hb]
    refine ⟨fun {k' l'} hP ↦ ?_, h.pairing.unique⟩
    obtain ⟨v, hk, hl⟩ := h.pairing.flags hP
    rw [flags?_modify _ _ hf, flags?_modify _ _ hg, hk, hl]
    by_cases hkk : k = k'
    · rw [if_pos hkk, if_pos ((h.pairing.unique hkl hP).1 hkk)]
      exact ⟨_, rfl, rfl⟩
    · rw [if_neg hkk, if_neg fun hll ↦ hkk ((h.pairing.unique hkl hP).2 hll)]
      exact ⟨v, rfl, rfl⟩
  clash := hclash
  frame l' hl' := by
    rw [hb, flags?_modify _ _ hg, if_neg, h.frame l' hl']
    rintro rfl
    exact hl' k hkl
  old := h.old
  size := by
    rw [hb, Array.size_modify]
    exact h.size

/-- Checks of symbols that stand for each other come to the same. -/
theorem check (h : Abreast c d P₀ ys P a b) (hkl : P k l) (kind : DeclarationKind) :
    Abreast c d P₀ ys P (a.check kind k) (b.check kind l) := by
  obtain ⟨v, hk, hl⟩ := h.pairing.flags hkl
  obtain ⟨x, hx, hx'⟩ := h.clash
  obtain ⟨y, hy, rfl⟩ := Option.map_eq_some_iff.1 hk
  obtain ⟨z, hz, hflags⟩ := Option.map_eq_some_iff.1 hl
  refine ⟨h.pairing, ⟨x || kind.clashes y.flags, ?_, ?_⟩, h.frame, h.old, h.size⟩
  · rw [Scoping.check, hx, hy, Option.any_some, Bool.or_assoc]
  · rw [Scoping.check, hx', hz, Option.any_some, hflags, Bool.or_assoc]

/-- A new symbol of one run stands for the new symbol of the other. -/
theorem push (h : Abreast c d P₀ ys P a b) {x y : Symbol} (hxy : x.flags = y.flags) :
    Abreast c d P₀ ys (fun k l ↦ P k l ∨ k = a.symbols.size ∧ l = b.symbols.size)
      { a with symbols := a.symbols.push x } { b with symbols := b.symbols.push y } where
  pairing := by
    -- The number of a new symbol is the size of its run, so no older symbol has it.
    have hlt : ∀ {k l}, P k l → k ≠ a.symbols.size ∧ l ≠ b.symbols.size := fun hP ↦ by
      obtain ⟨v, hk, hl⟩ := h.pairing.flags hP
      exact ⟨Nat.ne_of_lt (lt_size_of_flags? hk), Nat.ne_of_lt (lt_size_of_flags? hl)⟩
    constructor
    · rintro k l (hP | ⟨rfl, rfl⟩)
      · obtain ⟨v, hk, hl⟩ := h.pairing.flags hP
        refine ⟨v, ?_, ?_⟩
        · rw [flags?_push, if_neg (hlt hP).1, hk]
        · rw [flags?_push, if_neg (hlt hP).2, hl]
      · refine ⟨x.flags, ?_, ?_⟩
        · rw [flags?_push, if_pos rfl]
        · rw [flags?_push, if_pos rfl, hxy]
    · rintro k l k' l' (hP | ⟨rfl, rfl⟩) (hP' | ⟨rfl, rfl⟩)
      · exact h.pairing.unique hP hP'
      · exact iff_of_false (hlt hP).1 (hlt hP).2
      · exact iff_of_false (hlt hP').1.symm (hlt hP').2.symm
      · exact iff_of_true rfl rfl
  clash := h.clash
  frame l hl := by
    have hne : l ≠ b.symbols.size := by
      rintro rfl
      exact hl a.symbols.size (Or.inr ⟨rfl, rfl⟩)
    rw [flags?_push, if_neg hne]
    exact h.frame l fun k hP ↦ hl k (Or.inl hP)
  old k l hP hlt := by
    rcases hP with hP | ⟨rfl, rfl⟩
    · exact h.old k l hP hlt
    · exact absurd hlt (Nat.not_lt.2 h.size)
  size := by
    rw [Array.size_push]
    exact Nat.le_succ_of_le h.size

end Abreast

namespace Scoping

theorem abreast_declareIn (h : Abreast c d P₀ ys P a b) (hs : s.Alike P M t)
    (kind : DeclarationKind) (x : Binding) (move : ℕ → ℕ) (hM : M x.name) :
    ∃ P' : ℕ → ℕ → Prop, (∀ k l, P k l → P' k l) ∧
      Abreast c d P₀ ys P' (a.declareIn s kind x).1 (b.declareIn t kind (x.moved move)).1 ∧
      (a.declareIn s kind x).2.1.Alike P' M (b.declareIn t kind (x.moved move)).2.1 ∧
      P' (a.declareIn s kind x).2.2 (b.declareIn t kind (x.moved move)).2.2 := by
  have hfind := hs.find? hM
  have hname : (x.moved move).name = x.name := rfl
  rw [declareIn, declareIn, hname]
  -- Either both scopes know the name or neither does.
  cases hf : s.find? x.name with
  | some k =>
    cases hf' : t.find? x.name with
    | none =>
      rw [hf, hf'] at hfind
      cases hfind
    | some l =>
      rw [hf, hf'] at hfind
      cases hfind with
      | some hkl =>
        have hcheck := h.check hkl kind
        let f : Symbol → Symbol := fun y ↦ { y with flags := y.flags.union kind.flags }
        exact ⟨P, fun _ _ hP ↦ hP, hcheck.modify hkl (f := f) (g := f) rfl rfl
          (u := fun v ↦ v.union kind.flags) (fun _ ↦ rfl) (fun _ ↦ rfl) hcheck.clash, hs, hkl⟩
  | none =>
    cases hf' : t.find? x.name with
    | some l =>
      rw [hf, hf'] at hfind
      cases hfind
    | none =>
      have hpush := h.push (x := ⟨x.name, x.offset, kind.flags, s.kind = .root⟩)
        (y := ⟨x.name, move x.offset, kind.flags, t.kind = .root⟩) rfl
      have hle : ∀ k l, P k l → P k l ∨ k = a.symbols.size ∧ l = b.symbols.size :=
        fun _ _ hP ↦ Or.inl hP
      exact ⟨_, hle, hpush, (hs.mono hle).cons_names x.name (Or.inr ⟨rfl, rfl⟩),
        Or.inr ⟨rfl, rfl⟩⟩

theorem abreast_hoistInto (h : Abreast c d P₀ ys P a b) (hs : s.Alike P M t) {n : String}
    (hM : M n) (hkl : P k l) :
    Abreast c d P₀ ys P (a.hoistInto s n k).1 (b.hoistInto t n l).1 ∧
      (a.hoistInto s n k).2.Alike P M (b.hoistInto t n l).2 := by
  have hsome := isSome_eq_of_rel (hs.names n hM)
  rw [hoistInto, hoistInto, hsome]
  split
  · exact ⟨h, hs⟩
  · exact ⟨h.modify hkl (f := fun y ↦ { y with atRoot := s.kind = .root })
      (g := fun y ↦ { y with atRoot := t.kind = .root }) rfl rfl (u := id) (fun _ ↦ rfl)
      (fun _ ↦ rfl) h.clash, hs.cons_names n hkl⟩

/-- A `var` is declared alike in scopes that know names alike. -/
theorem abreast_declareVar (x : Binding) (move : ℕ → ℕ) {ss ts : List OpenScope}
    (hs : Alike P M ss ts) (h : Abreast c d P₀ ys P a b) {found found' : Option ℕ}
    (hfound : Option.Rel P found found') (hM : OpenToRoot ss → M x.name)
    (hlast : ∀ s ∈ ss.getLast?, s.kind.holdsVars) :
    ∃ P' : ℕ → ℕ → Prop, (∀ k l, P k l → P' k l) ∧
      Abreast c d P₀ ys P' (declareVar x found a ss).1 (declareVar (x.moved move) found' b ts).1 ∧
      Alike P' M (declareVar x found a ss).2.1 (declareVar (x.moved move) found' b ts).2.1 ∧
      P' (declareVar x found a ss).2.2 (declareVar (x.moved move) found' b ts).2.2 := by
  have hname : (x.moved move).name = x.name := rfl
  induction hs generalizing a b found found' with
  | @root s t hs =>
    have hvars : s.kind.holdsVars := hlast s rfl
    have hvars' : t.kind.holdsVars := hs.kind ▸ hvars
    have hM' : M x.name := hM fun _ hmem ↦ absurd hmem List.not_mem_nil
    rw [declareVar_cons_of_holdsVars _ _ _ _ hvars, declareVar_cons_of_holdsVars _ _ _ _ hvars']
    cases hfound with
    | some hkl =>
      obtain ⟨hh, hs'⟩ := abreast_hoistInto h hs hM' hkl
      exact ⟨P, fun _ _ hP ↦ hP, hh, .root hs', hkl⟩
    | none =>
      obtain ⟨P', hle, hh, hs', hkl⟩ := abreast_declareIn h hs .var x move hM'
      exact ⟨P', hle, hh, .root hs', hkl⟩
  | @inner s t ss ts hs houter ih =>
    by_cases hvars : s.kind.holdsVars
    · have hvars' : t.kind.holdsVars := hs.kind ▸ hvars
      rw [declareVar_cons_of_holdsVars _ _ _ _ hvars, declareVar_cons_of_holdsVars _ _ _ _ hvars']
      cases hfound with
      | some hkl =>
        obtain ⟨hh, hs'⟩ := abreast_hoistInto h hs trivial hkl
        exact ⟨P, fun _ _ hP ↦ hP, hh, .inner hs' houter, hkl⟩
      | none =>
        obtain ⟨P', hle, hh, hs', hkl⟩ := abreast_declareIn h hs .var x move trivial
        exact ⟨P', hle, hh, .inner hs' (houter.mono hle), hkl⟩
    · have hvars' : ¬ t.kind.holdsVars := hs.kind ▸ hvars
      have hne : ss ≠ [] := by cases houter <;> exact List.cons_ne_nil _ _
      have hlast' : ∀ u ∈ ss.getLast?, u.kind.holdsVars := by
        obtain ⟨o, more, rfl⟩ := List.exists_cons_of_ne_nil hne
        rwa [List.getLast?_cons_cons] at hlast
      have hM' : OpenToRoot ss → M x.name := fun hopen ↦ hM ((openToRoot_cons_iff hvars _).2 hopen)
      -- The scope lets the `var` pass, with what it knows the name by itself if it is the first.
      have hpass : ∀ {a' b' : Scoping} {q q' : Option ℕ}, Abreast c d P₀ ys P a' b' →
          Option.Rel P q q' → ∃ P' : ℕ → ℕ → Prop, (∀ k l, P k l → P' k l) ∧
            Abreast c d P₀ ys P' (declareVar x q a' ss).1 (declareVar (x.moved move) q' b' ts).1 ∧
            Alike P' M ({ s with passing := (x.name, (declareVar x q a' ss).2.2) :: s.passing } ::
                (declareVar x q a' ss).2.1)
              ({ t with
                  passing := (x.name, (declareVar (x.moved move) q' b' ts).2.2) :: t.passing } ::
                (declareVar (x.moved move) q' b' ts).2.1) ∧
            P' (declareVar x q a' ss).2.2 (declareVar (x.moved move) q' b' ts).2.2 := by
        intro a' b' q q' hab hq
        obtain ⟨P', hle, hh, hscopes, hkl⟩ := ih hab hq hM' hlast'
        exact ⟨P', hle, hh, .inner ((hs.mono hle).cons_passing x.name hkl) hscopes, hkl⟩
      rw [declareVar_cons_of_not_holdsVars _ _ _ _ hvars,
        declareVar_cons_of_not_holdsVars _ _ _ _ hvars', hname]
      cases hfound with
      | some hkl => exact hpass h (.some hkl)
      | none =>
        have hfind := hs.find? (n := x.name) trivial
        simp only [Option.isSome_none, Bool.false_eq_true, if_false, Option.none_or]
        generalize s.find? x.name = q at hfind ⊢
        generalize t.find? x.name = q' at hfind ⊢
        cases hfind with
        | some hkl => exact hpass (h.check hkl .var) (.some hkl)
        | none => exact hpass h .none

/-- References that go on to wait change nothing of what is known. -/
theorem alike_passOut {ss ts : List OpenScope} (h : Alike P M ss ts) (left left' : List ℕ) :
    Alike P M (passOut left ss) (passOut left' ts) := by
  cases h with
  | root h => exact .root ⟨h.kind, h.names, h.passing⟩
  | inner h houter => exact .inner ⟨h.kind, h.names, h.passing⟩ houter

/-- **One event does the same in both runs.** -/
theorem abreast_step {kinds kinds' : List ScopeKind} {e : ScopeEvent} (move : ℕ → ℕ)
    (hk : a.scopes.map OpenScope.kind = kinds ++ [.root]) (ht : e.track kinds = some kinds')
    (hM : ∀ n ∈ e.reaching? kinds, M n) (h : Abreast c d P₀ ys P a b)
    (hs : Alike P M a.scopes b.scopes) :
    ∃ P' : ℕ → ℕ → Prop, Abreast c d P₀ ys P' (a.step e) (b.step (e.moved move)) ∧
      Alike P' M (a.step e).scopes (b.step (e.moved move)).scopes := by
  cases inPlace_of_track hk ht with
  | enter kind s outer hkind hsc =>
    exact ⟨P, h.congr rfl rfl rfl rfl, .inner ⟨rfl, fun _ _ ↦ .none, fun _ _ ↦ .none⟩ hs⟩
  | adopt s o more hkind hsc =>
    rw [hsc] at hs
    generalize hts : b.scopes = ts at hs
    cases hs with
    | @inner _ t _ us hst houter =>
      simp only [step, hsc, ScopeEvent.moved, hts]
      -- The names go to the new scope, and those that pass stay behind.
      refine ⟨P, h.congr rfl rfl rfl rfl, .inner ⟨rfl, hst.names, fun _ _ ↦ .none⟩ ?_⟩
      exact .inner ⟨hst.kind, fun _ _ ↦ .none, hst.passing⟩ houter
  | leave s o more hsc =>
    rw [hsc] at hs
    generalize hts : b.scopes = ts at hs
    cases hs with
    | @inner _ t _ us hst houter =>
      simp only [step, ScopeEvent.moved, settle_cons hsc, settle_cons hts, List.drop_one,
        List.tail_cons]
      exact ⟨P, h.congr rfl rfl rfl rfl, alike_passOut houter _ _⟩
  | settle s o more hsc =>
    rw [hsc] at hs
    generalize hts : b.scopes = ts at hs
    cases hs with
    | @inner _ t _ us hst houter =>
      simp only [step, ScopeEvent.moved, settle_cons hsc, settle_cons hts]
      exact ⟨P, h.congr rfl rfl rfl rfl,
        .inner ⟨hst.kind, hst.names, hst.passing⟩ (alike_passOut houter _ _)⟩
  | declare kind x s outer hsc =>
    rw [ScopeEvent.moved, step, step, declare, declare]
    by_cases hvar : kind = .var
    · subst hvar
      rw [if_pos rfl, if_pos rfl]
      have hlast : ∀ u ∈ a.scopes.getLast?, u.kind.holdsVars := fun u hu ↦ by
        have hlast := congrArg List.getLast? hk
        rw [List.getLast?_map, hu, Option.map_some, List.getLast?_concat] at hlast
        rw [Option.some.inj hlast]
        rfl
      obtain ⟨P', -, hh, hscopes, -⟩ := abreast_declareVar x move hs h .none
        (fun hopen ↦ hM _ (reaching?_var x hk hopen)) hlast
      exact ⟨P', hh.congr rfl rfl rfl rfl, hscopes⟩
    · rw [if_neg hvar, if_neg hvar, hsc]
      rw [hsc] at hs hk
      generalize hts : b.scopes = ts at hs
      cases hs with
      | @root _ t hst =>
        obtain ⟨P', hle, hh, hscope, -⟩ :=
          abreast_declareIn h hst kind x move (hM _ (reaching?_root kind x hk))
        exact ⟨P', hh.congr rfl rfl rfl rfl, .root hscope⟩
      | @inner _ t _ us hst houter =>
        obtain ⟨P', hle, hh, hscope, -⟩ := abreast_declareIn h hst kind x move trivial
        exact ⟨P', hh.congr rfl rfl rfl rfl, .inner hscope (houter.mono hle)⟩
  | refer n s outer hsc =>
    rw [hsc] at hs
    generalize hts : b.scopes = ts at hs
    cases hs with
    | @root _ t hst =>
      simp only [step, ScopeEvent.moved, hsc, hts]
      exact ⟨P, h.congr rfl rfl rfl rfl, .root ⟨hst.kind, hst.names, hst.passing⟩⟩
    | @inner _ t _ us hst houter =>
      simp only [step, ScopeEvent.moved, hsc, hts]
      exact ⟨P, h.congr rfl rfl rfl rfl, .inner ⟨hst.kind, hst.names, hst.passing⟩ houter⟩

/-- **Events do the same in both runs.** -/
theorem abreast_foldl_step {kinds kinds' : List ScopeKind} {es : List ScopeEvent} (move : ℕ → ℕ)
    (hk : a.scopes.map OpenScope.kind = kinds ++ [.root]) (ht : trackAll kinds es = some kinds')
    (hM : ∀ n ∈ moduleNames kinds es, M n) (h : Abreast c d P₀ ys P a b)
    (hs : Alike P M a.scopes b.scopes) :
    ∃ P' : ℕ → ℕ → Prop,
      Abreast c d P₀ ys P' (es.foldl step a) ((es.map (ScopeEvent.moved move)).foldl step b) ∧
      Alike P' M (es.foldl step a).scopes
        ((es.map (ScopeEvent.moved move)).foldl step b).scopes := by
  induction es generalizing kinds a b P with
  | nil => exact ⟨P, h, hs⟩
  | cons e es ih =>
    rw [trackAll_cons, Option.bind_eq_some_iff] at ht
    obtain ⟨kinds₁, he, hes⟩ := ht
    obtain ⟨P₁, h₁, hs₁⟩ := abreast_step move hk he
      (fun n hn ↦ hM n (List.mem_append_left _ (Option.mem_toList.2 hn))) h hs
    exact ih (map_kind_step hk he) hes
      (fun n hn ↦ hM n (List.mem_append_right _ (by rwa [he]))) h₁ hs₁

end Scoping

end steps

/-! ### Between items -/

namespace Scoping

/-- What is known of a name of the module. -/
def flagsOf (st : Scoping) (name : String) : Option SymbolFlags :=
  (rootFind? st.scopes name).bind (flags? st.symbols)

/-- Only the root is open, and it knows names by symbols of these names. -/
structure AtTop (st : Scoping) : Prop where
  sound : Sound st
  kinds : st.scopes.map OpenScope.kind = [] ++ [.root]
  named : ∀ name, ∀ s ∈ st.scopes, s.KnowsAt st.symbols name fun _ ↦ True

section top

variable {a b st : Scoping} {es : List ScopeEvent} {name : String} {k : ℕ}

theorem atTop_initial : AtTop initial where
  sound := sound_initial
  kinds := rfl
  named _ s hs k hk := by
    rw [List.mem_singleton.1 hs] at hk
    exact absurd hk List.not_mem_nil

theorem AtTop.foldl_step (h : AtTop st) (hes : Nested es) : AtTop (es.foldl step st) where
  sound := h.sound.foldl_step h.kinds (hes [])
  kinds := map_kind_foldl_step h.kinds (hes [])
  named name := knowsAt_foldl_step h.kinds (hes []) (fun _ _ _ ↦ trivial) (h.named name)

theorem AtTop.item (h : AtTop st) : AtTop (st.step .item) :=
  ⟨⟨h.sound.apart, h.sound.valid, h.sound.nodup, h.sound.isOpen⟩, h.kinds, h.named⟩

theorem AtTop.exists_root (h : AtTop st) :
    ∃ root, st.scopes = [root] ∧ root.kind = .root ∧ root.passing = [] := by
  obtain ⟨root, hroot, hkind⟩ := List.map_eq_singleton_iff.1 h.kinds
  have hapart := h.sound.apart
  rw [hroot] at hapart
  exact ⟨root, hroot, hkind, hapart.2.1⟩

/-- The symbol of a name of the module. -/
theorem AtTop.exists_symbol (h : AtTop st) (hk : rootFind? st.scopes name = some k) :
    ∃ y : Symbol, st.symbols[k]? = some y ∧ y.name = name := by
  obtain ⟨root, hroot, hlookup⟩ := Option.bind_eq_some_iff.1 hk
  have hfind : root.find? name = some k := by rw [OpenScope.find?, hlookup, Option.some_or]
  obtain ⟨y, hy, hname, -⟩ :=
    h.named name root (List.mem_of_getLast? hroot) k (OpenScope.mem_of_find? hfind)
  exact ⟨y, hy, hname⟩

theorem AtTop.flagsOf_eq_some (h : AtTop st) (hk : rootFind? st.scopes name = some k) :
    ∃ f, flags? st.symbols k = some f ∧ flagsOf st name = some f := by
  obtain ⟨y, hy, -⟩ := h.exists_symbol hk
  have hf : flags? st.symbols k = some y.flags := by rw [flags?, hy, Option.map_some]
  exact ⟨y.flags, hf, by rw [flagsOf, hk, Option.bind_some, hf]⟩

/-- Names of the module have different symbols. -/
theorem AtTop.name_eq (h : AtTop st) {m : String} (hk : rootFind? st.scopes name = some k)
    (hm : rootFind? st.scopes m = some k) : name = m := by
  obtain ⟨y, hy, rfl⟩ := h.exists_symbol hk
  obtain ⟨z, hz, rfl⟩ := h.exists_symbol hm
  rw [hy] at hz
  rw [Option.some.inj hz]

/-- The symbols of a name of two modules stand for each other. -/
def SameName (M : String → Prop) (a b : Scoping) (k l : ℕ) : Prop :=
  ∃ name, M name ∧ rootFind? a.scopes name = some k ∧ rootFind? b.scopes name = some l

variable {M : String → Prop}

theorem abreast_sameName (ha : AtTop a) (hb : AtTop b)
    (h : ∀ name, M name → flagsOf a name = flagsOf b name) :
    Abreast a.clash b.clash (SameName M a b) b.symbols (SameName M a b) a b where
  pairing := by
    constructor
    · rintro k l ⟨n, hn, hk, hl⟩
      obtain ⟨f, hf, hfa⟩ := ha.flagsOf_eq_some hk
      obtain ⟨g, hg, hgb⟩ := hb.flagsOf_eq_some hl
      have heq := h n hn
      rw [hfa, hgb] at heq
      exact ⟨f, hf, heq ▸ hg⟩
    · rintro k l k' l' ⟨n, -, hk, hl⟩ ⟨n', -, hk', hl'⟩
      constructor
      · rintro rfl
        obtain rfl := ha.name_eq hk hk'
        exact Option.some.inj (hl.symm.trans hl')
      · rintro rfl
        obtain rfl := hb.name_eq hl hl'
        exact Option.some.inj (hk.symm.trans hk')
  clash := ⟨false, (Bool.or_false _).symm, (Bool.or_false _).symm⟩
  frame _ _ := rfl
  old _ _ hkl _ := hkl
  size := Nat.le_refl _

theorem rootFind?_singleton (root : OpenScope) (name : String) :
    rootFind? [root] name = root.names.lookup name := rfl

theorem alike_sameName (ha : AtTop a) (hb : AtTop b)
    (h : ∀ name, M name → flagsOf a name = flagsOf b name) :
    Alike (SameName M a b) M a.scopes b.scopes := by
  obtain ⟨root, hroot, hkind, hpassing⟩ := ha.exists_root
  obtain ⟨root', hroot', hkind', hpassing'⟩ := hb.exists_root
  rw [hroot, hroot']
  refine .root ⟨hkind.trans hkind'.symm, fun n hn ↦ ?_, fun n _ ↦ ?_⟩
  · have hfind : rootFind? a.scopes n = root.names.lookup n := by rw [hroot, rootFind?_singleton]
    have hfind' : rootFind? b.scopes n = root'.names.lookup n := by
      rw [hroot', rootFind?_singleton]
    have heq := h n hn
    rw [← hfind, ← hfind']
    cases hk : rootFind? a.scopes n with
    | none =>
      cases hl : rootFind? b.scopes n with
      | none => exact .none
      | some l =>
        obtain ⟨f, -, hf⟩ := hb.flagsOf_eq_some hl
        rw [hf, flagsOf, hk] at heq
        cases heq
    | some k =>
      obtain ⟨f, -, hf⟩ := ha.flagsOf_eq_some hk
      cases hl : rootFind? b.scopes n with
      | none =>
        rw [hf, flagsOf, hl] at heq
        cases heq
      | some l => exact .some ⟨n, hn, hk, hl⟩
  · rw [hpassing, hpassing']
    exact .none

/-- What two runs have come to that began with what `M` says of the same names. -/
structure InStep (M : String → Prop) (a b a' b' : Scoping) : Prop where
  flags : ∀ name, M name → flagsOf a' name = flagsOf b' name
  clash : ∃ x, a'.clash = (a.clash || x) ∧ b'.clash = (b.clash || x)

/-- A name that events do not declare for the module is known to the root as before. -/
theorem AtTop.rootFind?_foldl_step (h : AtTop st) (hes : Nested es)
    (hname : name ∉ moduleNames [] es) :
    rootFind? (es.foldl step st).scopes name = rootFind? st.scopes name := by
  cases hk : rootFind? st.scopes name with
  | some k => exact Scoping.rootFind?_foldl_step h.kinds (hes []) hk
  | none =>
    rw [rootFind?_eq_none_iff] at hk ⊢
    intro hmem
    exact (rootNames_foldl_step h.kinds (hes []) name hmem).elim hk hname

/-- **What events do to names depends on what is known of the names that they declare for the
module**, and they do nothing to other names. -/
theorem inStep_foldl_step (ha : AtTop a) (hb : AtTop b) (hes : Nested es) (move : ℕ → ℕ)
    (hM : ∀ n ∈ moduleNames [] es, M n) (h : ∀ n, M n → flagsOf a n = flagsOf b n) :
    InStep M a b (es.foldl step a) ((es.map (ScopeEvent.moved move)).foldl step b) := by
  obtain ⟨P, hab, halike⟩ := abreast_foldl_step move ha.kinds (hes []) hM
    (abreast_sameName ha hb h) (alike_sameName ha hb h)
  refine ⟨fun n hn ↦ ?_, hab.clash⟩
  obtain ⟨root, hroot, -⟩ := (ha.foldl_step hes).exists_root
  rw [flagsOf, flagsOf]
  rw [hroot] at halike ⊢
  generalize ((es.map (ScopeEvent.moved move)).foldl step b).scopes = ts at halike ⊢
  cases halike with
  | @root _ t hst =>
    have hlookup := hst.names n hn
    rw [rootFind?_singleton, rootFind?_singleton]
    generalize root.names.lookup n = o at hlookup ⊢
    generalize t.names.lookup n = o' at hlookup ⊢
    cases hlookup with
    | some hkl =>
      obtain ⟨f, hf, hf'⟩ := hab.pairing.flags hkl
      rw [Option.bind_some, Option.bind_some, hf, hf']
    | none => rfl
  | inner _ houter => cases houter

/-- A name that events do not declare for the module stays as it is. -/
theorem flagsOf_foldl_step_of_not_mem (h : AtTop st) (hes : Nested es)
    (hname : name ∉ moduleNames [] es) : flagsOf (es.foldl step st) name = flagsOf st name := by
  -- Only the symbols of declared names stand for themselves in the run beside itself, so that of
  -- `name` is among those that the frame keeps.
  obtain ⟨P, hab, -⟩ := abreast_foldl_step id h.kinds (hes []) (fun _ hn ↦ hn)
    (abreast_sameName h h fun _ _ ↦ rfl) (alike_sameName h h fun _ _ ↦ rfl)
  rw [ScopeEvent.map_moved_id] at hab
  rw [flagsOf, h.rootFind?_foldl_step hes hname, flagsOf]
  cases hl : rootFind? st.scopes name with
  | none => rfl
  | some l =>
    rw [Option.bind_some, Option.bind_some]
    refine hab.frame l fun k hkl ↦ ?_
    obtain ⟨f, hf, -⟩ := h.flagsOf_eq_some hl
    obtain ⟨n, hn, -, hn'⟩ := hab.old k l hkl (lt_size_of_flags? hf)
    exact hname (h.name_eq hl hn' ▸ hn)

end top

end Scoping

end AppletBundle.Script
