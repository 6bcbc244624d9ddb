import AppletBundle.Proofs.Script.RootSymbols

/-!
# References that wait

`Sound` is the invariant of the run through the events of a script: the scopes know the symbols that
they may (`Apart`), a settled reference stands for a symbol, and every reference waits in one scope
at most and has no symbol as long as it waits.

`freeNames_settle` is what the invariant is for: settling the references of the root scope, which
ends the run, makes no name free and takes none away.
-/

namespace AppletBundle.Script

/-- The references that wait in some scope. -/
def waitingIn (scopes : List OpenScope) : List ℕ :=
  scopes.flatMap OpenScope.waiting

/-- A reference has no symbol yet. -/
def IsOpen (references : Array Reference) (i : ℕ) : Prop :=
  ∃ r, references[i]? = some r ∧ r.symbol = none

/-- A reference stands for a symbol. -/
def StandsFor (references : Array Reference) (i k : ℕ) : Prop :=
  ∃ r, references[i]? = some r ∧ r.symbol = some k

namespace Scoping

/-- The invariant of the run. -/
structure Sound (st : Scoping) : Prop where
  apart : Apart st.symbols st.scopes
  valid : ∀ i k, StandsFor st.references i k → Known st.symbols True k
  nodup : (waitingIn st.scopes).Nodup
  isOpen : ∀ i ∈ waitingIn st.scopes, IsOpen st.references i

variable {st : Scoping}

/-! ### One scope settles its references -/

/-- What comes of waiting references and those that wait further out already, when a scope has
settled the former: the latter, those that are left over, and the references with their symbols. -/
structure Settles (names : List (String × ℕ)) (waiting left : List ℕ) (references : Array Reference)
    (result : Array Reference × List ℕ) : Prop where
  nodup : result.2.Nodup
  subset : result.2 ⊆ waiting ++ left
  isOpen : ∀ i ∈ result.2, IsOpen result.1 i
  other : ∀ i ∉ waiting, result.1[i]? = references[i]?
  standsFor : ∀ i k, StandsFor result.1 i k → StandsFor references i k ∨ ∃ name, (name, k) ∈ names

/-- A reference gets the symbol that the scope has for its name, or goes on to wait. -/
theorem settleOne_cases (names : List (String × ℕ)) (references : Array Reference) (left : List ℕ)
    (i : ℕ) :
    settleOne names (references, left) i = (references, i :: left) ∨
      ∃ r k, references[i]? = some r ∧ (r.name, k) ∈ names ∧
        settleOne names (references, left) i =
          (references.modify i fun r ↦ { r with symbol := some k }, left) := by
  rw [settleOne]
  cases hr : references[i]? with
  | none => exact Or.inl rfl
  | some r =>
    cases hk : names.lookup r.name with
    | none =>
      refine Or.inl ?_
      simp [hk]
    | some k =>
      obtain ⟨l₁, l₂, hnames, -⟩ := List.lookup_eq_some_iff.1 hk
      refine Or.inr ⟨r, k, rfl, hnames ▸ List.mem_append_right _ List.mem_cons_self, ?_⟩
      simp [hk]

theorem foldl_settleOne_settles (names : List (String × ℕ)) (waiting left : List ℕ)
    (references : Array Reference) (hnodup : (waiting ++ left).Nodup)
    (hopen : ∀ i ∈ waiting ++ left, IsOpen references i) :
    Settles names waiting left references
      (waiting.foldl (settleOne names) (references, left)) := by
  induction waiting generalizing references left with
  | nil => exact ⟨hnodup, fun _ ↦ id, hopen, fun _ _ ↦ rfl, fun _ _ ↦ Or.inl⟩
  | cons i waiting ih =>
    rw [List.foldl_cons]
    rw [List.cons_append, List.nodup_cons] at hnodup
    obtain ⟨hi, hrest⟩ := hnodup
    rcases settleOne_cases names references left i with heq | ⟨r, k, hr, hk, heq⟩
    · -- The reference is left over and joins those that wait further out.
      have hperm : (i :: (waiting ++ left)).Perm (waiting ++ i :: left) := List.perm_middle.symm
      have h := ih (i :: left) references (hperm.nodup_iff.1 (List.nodup_cons.2 ⟨hi, hrest⟩))
        fun j hj ↦ hopen j (hperm.mem_iff.2 hj)
      rw [heq]
      exact ⟨h.nodup, fun j hj ↦ hperm.mem_iff.2 (h.subset hj), h.isOpen,
        fun j hj ↦ h.other j fun hm ↦ hj (List.mem_cons_of_mem _ hm), h.standsFor⟩
    · -- The reference has its symbol; since no reference waits twice, no other one is touched.
      have hother : ∀ j, j ≠ i →
          (references.modify i fun r ↦ { r with symbol := some k })[j]? = references[j]? := by
        intro j hj
        rw [Array.getElem?_modify, if_neg hj.symm]
      have h := ih left (references.modify i fun r ↦ { r with symbol := some k }) hrest
        fun j hj ↦ by
          obtain ⟨r', hr', hnone⟩ := hopen j (List.mem_cons_of_mem _ hj)
          refine ⟨r', ?_, hnone⟩
          rw [hother j, hr']
          rintro rfl
          exact hi hj
      rw [heq]
      refine ⟨h.nodup, fun j hj ↦ List.mem_cons_of_mem _ (h.subset hj), h.isOpen, fun j hj ↦ ?_,
        fun j k' hjk ↦ ?_⟩
      · rw [List.mem_cons, not_or] at hj
        rw [h.other j hj.2, hother j hj.1]
      · rcases h.standsFor j k' hjk with ⟨r', hr', hk'⟩ | hname
        · by_cases hj : j = i
          · subst hj
            rw [Array.getElem?_modify, if_pos rfl, hr] at hr'
            obtain rfl := Option.some.inj hr'
            obtain rfl := Option.some.inj hk'
            exact Or.inr ⟨_, hk⟩
          · rw [hother j hj] at hr'
            exact Or.inl ⟨r', hr', hk'⟩
        · exact Or.inr hname

/-! ### Every event -/

theorem references_declareIn (st : Scoping) (s : OpenScope) (kind : DeclarationKind)
    (b : Binding) : (st.declareIn s kind b).1.references = st.references := by
  rw [declareIn]
  split <;> rfl

theorem waiting_declareIn (st : Scoping) (s : OpenScope) (kind : DeclarationKind) (b : Binding) :
    (st.declareIn s kind b).2.1.waiting = s.waiting := by
  rw [declareIn]
  split <;> rfl

theorem references_declareVar (b : Binding) (found : Option ℕ) (st : Scoping)
    (scopes : List OpenScope) :
    (declareVar b found st scopes).1.references = st.references := by
  induction scopes generalizing found st with
  | nil => rfl
  | cons s outer ih =>
    by_cases hs : s.kind.holdsVars
    · rw [declareVar_cons_of_holdsVars _ _ _ _ hs]
      cases found with
      | some k =>
        simp only [hoistInto]
        split <;> rfl
      | none => exact references_declareIn st s .var b
    · rw [declareVar_cons_of_not_holdsVars _ _ _ _ hs]
      simp only [ih]
      split <;> rfl

theorem map_waiting_declareVar (b : Binding) (found : Option ℕ) (st : Scoping)
    (scopes : List OpenScope) :
    (declareVar b found st scopes).2.1.map OpenScope.waiting = scopes.map OpenScope.waiting := by
  induction scopes generalizing found st with
  | nil => rfl
  | cons s outer ih =>
    by_cases hs : s.kind.holdsVars
    · rw [declareVar_cons_of_holdsVars _ _ _ _ hs]
      cases found with
      | some k =>
        simp only [hoistInto]
        split <;> rfl
      | none => simp only [List.map_cons, waiting_declareIn]
    · rw [declareVar_cons_of_not_holdsVars _ _ _ _ hs]
      simp only [List.map_cons, ih]

theorem waitingIn_eq_of_map_eq {scopes scopes' : List OpenScope}
    (h : scopes.map OpenScope.waiting = scopes'.map OpenScope.waiting) :
    waitingIn scopes = waitingIn scopes' := by
  rw [waitingIn, waitingIn, List.flatMap_def, List.flatMap_def, h]

/-- The invariant survives a change that touches no reference and keeps the symbols. -/
theorem Sound.of_keeps {st' : Scoping} {reach : Prop} (h : Sound st)
    (hapart : Apart st'.symbols st'.scopes) (hkeeps : Keeps reach st.symbols st'.symbols)
    (hreferences : st'.references = st.references)
    (hwaiting : waitingIn st'.scopes = waitingIn st.scopes) : Sound st' where
  apart := hapart
  valid i k hik := (h.valid i k (hreferences ▸ hik)).keeps hkeeps fun _ ↦ trivial
  nodup := hwaiting ▸ h.nodup
  isOpen := hwaiting ▸ hreferences ▸ h.isOpen

/-- A scope inside another settles its references. -/
theorem Sound.settle (h : Sound st) {s o : OpenScope} {more : List OpenScope}
    (hs : st.scopes = s :: o :: more) : Sound st.settle := by
  have hwaiting : waitingIn st.scopes = s.waiting ++ (o.waiting ++ waitingIn more) := by
    rw [hs]
    rfl
  have hnodup := h.nodup
  have hopen := h.isOpen
  have happart := h.apart
  rw [hwaiting] at hnodup hopen
  rw [hs] at happart
  have hdisjoint := List.nodup_append.1 hnodup
  have hsettles := foldl_settleOne_settles s.names s.waiting [] st.references
    (by simpa using hdisjoint.1) fun i hi ↦ hopen i (List.mem_append_left _ (by simpa using hi))
  rw [settle_cons hs]
  generalize s.waiting.foldl (settleOne s.names) (st.references, []) = result at hsettles ⊢
  have hsub : ∀ i ∈ result.2, i ∈ s.waiting := fun i hi ↦ by simpa using hsettles.subset hi
  have hout : ∀ i ∈ o.waiting ++ waitingIn more, i ∉ s.waiting := fun i hi his ↦
    hdisjoint.2.2 i his i hi rfl
  have hwaiting' : waitingIn ({ s with waiting := [] } :: passOut result.2 (o :: more)) =
      result.2 ++ (o.waiting ++ waitingIn more) := by
    simp [waitingIn, passOut]
  refine ⟨?_, fun i k hik ↦ ?_, ?_, fun i hi ↦ ?_⟩
  · cases more with
    | nil => exact happart
    | cons u more => exact happart
  · rcases hsettles.standsFor i k hik with hik | ⟨name, hname⟩
    · exact h.valid i k hik
    · obtain ⟨c, hc, -⟩ := happart.known (List.mem_append_left _ hname)
      exact ⟨c, hc, fun _ ↦ trivial⟩
  · simp only [hwaiting']
    exact List.nodup_append.2 ⟨hsettles.nodup, hdisjoint.2.1, fun i hi j hj hij ↦
      hout j hj (hij ▸ hsub i hi)⟩
  · simp only [hwaiting'] at hi
    rcases List.mem_append.1 hi with hi | hi
    · exact hsettles.isOpen i hi
    · obtain ⟨r, hr, hnone⟩ := hopen i (List.mem_append_right _ hi)
      exact ⟨r, (hsettles.other i (hout i hi)).trans hr, hnone⟩

/-- A new reference waits in the innermost scope. -/
theorem Sound.refer (h : Sound st) (name : String) {s : OpenScope} {outer : List OpenScope}
    (hs : st.scopes = s :: outer) : Sound (st.step (.refer name)) := by
  have hwaiting : waitingIn st.scopes = s.waiting ++ waitingIn outer := by
    rw [hs]
    rfl
  have hfresh : st.references.size ∉ waitingIn st.scopes := fun hi ↦ by
    obtain ⟨r, hr, -⟩ := h.isOpen _ hi
    simp at hr
  have hget : ∀ (i : ℕ) (r : Reference),
      (st.references.push ⟨st.items - 1, name, none⟩)[i]? = some r →
      st.references[i]? = some r ∨ r.symbol = none := fun i r hr ↦ by
    rw [Array.getElem?_push] at hr
    split at hr
    · cases hr
      exact Or.inr rfl
    · exact Or.inl hr
  have hpush : ∀ i r, st.references[i]? = some r →
      (st.references.push ⟨st.items - 1, name, none⟩)[i]? = some r := fun i r hr ↦ by
    rw [Array.getElem?_push, if_neg, hr]
    rintro rfl
    simp at hr
  have hstep : st.step (.refer name) = { st with
      references := st.references.push ⟨st.items - 1, name, none⟩
      scopes := { s with waiting := st.references.size :: s.waiting } :: outer } := by
    simp only [Scoping.step, hs]
  rw [hstep]
  have happart := h.apart
  rw [hs] at happart
  refine ⟨?_, fun i k hik ↦ ?_, ?_, ?_⟩
  · cases outer with
    | nil => exact happart
    | cons o rest => exact happart
  · obtain ⟨r, hr, hk⟩ := hik
    rcases hget i r hr with hr | hnone
    · exact h.valid i k ⟨r, hr, hk⟩
    · rw [hnone] at hk
      cases hk
  · have hnodup := h.nodup
    rw [hwaiting] at hnodup hfresh
    exact List.nodup_cons.2 ⟨hfresh, hnodup⟩
  · have hall : ∀ i ∈ st.references.size :: waitingIn st.scopes,
        IsOpen (st.references.push ⟨st.items - 1, name, none⟩) i := by
      refine List.forall_mem_cons.2 ⟨⟨_, Array.getElem?_push_size, rfl⟩, fun i hi ↦ ?_⟩
      obtain ⟨r, hr, hnone⟩ := h.isOpen i hi
      exact ⟨r, hpush i r hr, hnone⟩
    rwa [hwaiting] at hall

/-- **Every event keeps the invariant.** -/
theorem Sound.step {kinds kinds' : List ScopeKind} {e : ScopeEvent} (h : Sound st)
    (hk : st.scopes.map OpenScope.kind = kinds ++ [.root]) (ht : e.track kinds = some kinds') :
    Sound (st.step e) := by
  cases inPlace_of_track hk ht with
  | enter kind s outer hkind hs =>
    have happart := h.apart
    refine h.of_keeps ?_ (Keeps.refl False _) rfl ?_
    · rw [hs] at happart
      simp only [Scoping.step, hs]
      exact ⟨hkind, by simp, happart⟩
    · simp [Scoping.step, waitingIn]
  | adopt s o more hkind hs =>
    have happart := h.apart
    rw [hs] at happart
    have hstep : st.step .adopt = { st with
        scopes := ⟨.block, s.names, [], []⟩ :: { s with names := [] } :: o :: more } := by
      simp only [Scoping.step, hs]
    have hopen : OpenToRoot (⟨.block, s.names, [], []⟩ :: { s with names := [] } :: o :: more) ↔
        OpenToRoot (s :: o :: more) :=
      openToRoot_cons_iff (by simp [ScopeKind.holdsVars]) _
    rw [hstep]
    refine h.of_keeps ?_ (Keeps.refl False _) rfl ?_
    · refine ⟨by simp, fun p hp ↦ ?_, happart.1, fun p hp ↦ ?_, happart.2.2⟩
      · rw [hopen]
        exact happart.2.1 p (List.mem_append_left _ (by simpa using hp))
      · exact happart.2.1 p (List.mem_append_right _ (by simpa using hp))
    · simp [hs, waitingIn]
  | leave s o more hs =>
    have hsettle := h.settle hs
    refine hsettle.of_keeps ?_ (Keeps.refl False _) rfl ?_
    · have happart := hsettle.apart
      simp only [Scoping.step, settle_cons hs] at happart ⊢
      exact happart.tail
    · simp only [Scoping.step, settle_cons hs]
      simp [waitingIn]
  | settle s o more hs => exact h.settle hs
  | declare kind b s outer hs =>
    have happart := h.apart
    rw [Scoping.step, declare]
    split
    · obtain ⟨hdeclared, hkeeps, -⟩ := apart_declareVar b none (by simp [hs]) happart (by simp)
      exact h.of_keeps hdeclared hkeeps (references_declareVar b none st st.scopes)
        (waitingIn_eq_of_map_eq (map_waiting_declareVar b none st st.scopes))
    · rw [hs] at happart
      simp only [hs]
      refine h.of_keeps (apart_declareIn kind b happart).1 (keeps_declareIn st s kind b)
        (references_declareIn st s kind b) ?_
      simp only [hs, waitingIn, List.flatMap_cons, waiting_declareIn]
  | refer name s outer hs => exact h.refer name hs

theorem Sound.foldl_step {kinds kinds' : List ScopeKind} {es : List ScopeEvent} (h : Sound st)
    (hk : st.scopes.map OpenScope.kind = kinds ++ [.root]) (ht : trackAll kinds es = some kinds') :
    Sound (es.foldl Scoping.step st) := by
  induction es generalizing kinds st with
  | nil => exact h
  | cons e es ih =>
    rw [trackAll_cons, Option.bind_eq_some_iff] at ht
    obtain ⟨kinds₁, he, hes⟩ := ht
    exact ih (h.step hk he) (map_kind_step hk he) hes

theorem sound_initial : Sound initial where
  apart := ⟨rfl, rfl, by simp⟩
  valid i k hik := by
    obtain ⟨r, hr, -⟩ := hik
    cases hr
  nodup := List.nodup_nil
  isOpen := by simp [waitingIn, initial]

/-! ### Free names -/

/-- Whether a reference stands for a symbol of the module or for nothing declared in it. -/
def freeIn (symbols : Array Symbol) (r : Reference) : Bool :=
  r.symbol.all fun k ↦ symbols[k]?.all Symbol.atRoot

/-- The names that references use freely, each with the item that holds the reference. -/
def uses (symbols : Array Symbol) (references : Array Reference) : List (ℕ × String) :=
  references.toList.filterMap fun r ↦ if freeIn symbols r then some (r.item, r.name) else none

theorem isFree_eq_freeIn (st : Scoping) (r : Reference) : st.isFree r = freeIn st.symbols r := by
  rw [isFree, freeIn]
  cases r.symbol <;> rfl

theorem freeNames_eq (st : Scoping) (item : ℕ) :
    st.freeNames item =
      ((uses st.symbols st.references).filter fun u ↦ u.1 == item).map Prod.snd := by
  rw [freeNames, uses]
  simp only [isFree_eq_freeIn]
  induction st.references.toList with
  | nil => rfl
  | cons r references ih =>
    rw [List.filter_cons, List.filterMap_cons]
    cases hr : freeIn st.symbols r with
    | false => simpa using ih
    | true =>
      by_cases hi : r.item == item
      · simpa [hi] using ih
      · simpa [hi] using ih

theorem filterMap_modify {α β : Type} (g : α → Option β) (f : α → α) (l : List α) (i : ℕ)
    (h : ∀ a, l[i]? = some a → g (f a) = g a) : (l.modify i f).filterMap g = l.filterMap g := by
  induction l generalizing i with
  | nil => rw [List.modify_nil]
  | cons a l ih =>
    cases i with
    | zero =>
      rw [List.modify_zero_cons, List.filterMap_cons, List.filterMap_cons, h a rfl]
    | succ i =>
      rw [List.modify_succ_cons, List.filterMap_cons, List.filterMap_cons, ih i h]

/-- Settling the references of a scope that knows symbols of the module only makes no name free and
takes none away. -/
theorem uses_foldl_settleOne {symbols : Array Symbol} {names : List (String × ℕ)}
    (hnames : ∀ p ∈ names, atRoot? symbols p.2 = some true) (waiting left : List ℕ)
    (references : Array Reference)
    (hopen : ∀ i ∈ waiting, ∀ r, references[i]? = some r → freeIn symbols r = true) :
    uses symbols (waiting.foldl (settleOne names) (references, left)).1 =
      uses symbols references := by
  induction waiting generalizing references left with
  | nil => rfl
  | cons i waiting ih =>
    rw [List.foldl_cons]
    rcases settleOne_cases names references left i with heq | ⟨r, k, hr, hk, heq⟩
    · rw [heq]
      exact ih _ _ fun j hj ↦ hopen j (List.mem_cons_of_mem _ hj)
    · have hroot : ∀ r : Reference, freeIn symbols { r with symbol := some k } = true := fun r ↦ by
        obtain ⟨y, hy, hat⟩ := Option.map_eq_some_iff.1 (hnames _ hk)
        rw [freeIn, Option.all_some, hy]
        exact hat
      rw [heq, ih]
      · rw [uses, Array.toList_modify]
        refine filterMap_modify _ _ _ _ fun r' hr' ↦ ?_
        have hfree := hopen i List.mem_cons_self r' (by rwa [Array.getElem?_toList] at hr')
        simp only [hfree, hroot]
      · intro j hj r' hr'
        rw [Array.getElem?_modify] at hr'
        split at hr'
        · obtain ⟨r'', -, rfl⟩ := Option.map_eq_some_iff.1 hr'
          exact hroot r''
        · exact hopen j (List.mem_cons_of_mem _ hj) r' hr'

/-- **The end of the run, where the root settles its references, changes no free name.** -/
theorem freeNames_settle (h : Sound st) {root : OpenScope} (hroot : st.scopes = [root])
    (item : ℕ) : st.settle.freeNames item = st.freeNames item := by
  have hapart := h.apart
  rw [hroot] at hapart
  have huses := uses_foldl_settleOne hapart.2.2 root.waiting [] st.references fun i hi r hr ↦ by
    obtain ⟨r', hr', hnone⟩ := h.isOpen i (by rw [hroot]; simpa [waitingIn] using hi)
    obtain rfl := Option.some.inj (hr.symm.trans hr')
    rw [freeIn, hnone]
    rfl
  rw [freeNames_eq, freeNames_eq, settle_cons hroot]
  simp only [huses]

end Scoping

end AppletBundle.Script
