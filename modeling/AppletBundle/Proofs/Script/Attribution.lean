import AppletBundle.Proofs.Script.Reannotation

/-!
# The statement of a declaration

A name of the module belongs to the statement in which it is declared. The statement is found by the
offset of the declaration: of all statements that do not start after it, the last is the only one that
can hold it, and one test decides whether it does.

* `containingStatement?_eq_some_iff` and `containingStatement?_eq_none_iff` say that the search is
  exact when ranges stand in order (`InOrder`). That what is found holds the offset is the test
  itself; that nothing else does rests on the order.
* The number of statements that do not start after an offset is found by halving
  (`partitionPoint`). Starts that stand in order are divided by the offset, and then this is the
  number of those at the front (`partitionPoint_eq`).
* Declarations are attributed one by one, which changes no range, so all of them are looked for among
  the same statements.

The main result is `attribution_exact`.
-/

namespace AppletBundle.Script

/-- Ranges one after the other: each ends no later than the next one starts. A range may be empty, and
there may be gaps between ranges. -/
structure InOrder (spans : List Span) : Prop where
  proper : ∀ s ∈ spans, s.start ≤ s.stop
  ordered : spans.IsChain fun s t ↦ s.stop ≤ t.start

instance (spans : List Span) : Decidable (InOrder spans) :=
  decidable_of_iff ((∀ s ∈ spans, s.start ≤ s.stop) ∧ spans.IsChain fun s t ↦ s.stop ≤ t.start)
    ⟨fun h ↦ ⟨h.1, h.2⟩, fun h ↦ ⟨h.proper, h.ordered⟩⟩

variable {spans : List Span} {s : Span} {offset i : ℕ}

/-- A range ends no later than any later one starts, since no range ends before it starts. -/
theorem InOrder.pairwise (h : InOrder spans) : spans.Pairwise fun s t ↦ s.stop ≤ t.start := by
  obtain ⟨hproper, hordered⟩ := h
  induction spans with
  | nil => exact .nil
  | cons s rest ih =>
    cases rest with
    | nil => exact List.pairwise_singleton _ s
    | cons t rest =>
      obtain ⟨hnext, hchain⟩ := List.isChain_cons_cons.1 hordered
      have hrest := ih (fun u hu ↦ hproper u (List.mem_cons_of_mem _ hu)) hchain
      refine List.pairwise_cons.2 ⟨fun u hu ↦ ?_, hrest⟩
      rcases List.mem_cons.1 hu with rfl | hu
      · exact hnext
      · have hlater := (List.pairwise_cons.1 hrest).1 u hu
        have ht := hproper t (List.mem_cons_of_mem _ List.mem_cons_self)
        omega

theorem InOrder.starts_pairwise (h : InOrder spans) :
    (spans.map Span.start).Pairwise (· ≤ ·) := by
  refine List.pairwise_map.2 (h.pairwise.imp_of_mem fun hs _ hle ↦ ?_)
  have hproper := h.proper _ hs
  omega

/-! ### The search is exact -/

theorem exists_of_containingStatement?_eq_some (h : containingStatement? spans offset = some i) :
    ∃ s, spans[i]? = some s ∧ s.contains offset = true := by
  rw [containingStatement?] at h
  split at h
  · cases h
  · split at h
    · rename_i hany
      obtain rfl := Option.some.inj h
      exact (Option.any_eq_true _ _).1 hany
    · cases h

/-- **A range is found exactly if it holds the offset.** -/
theorem containingStatement?_eq_some_iff (h : InOrder spans) :
    containingStatement? spans offset = some i ↔
      ∃ s, spans[i]? = some s ∧ s.contains offset = true := by
  refine ⟨exists_of_containingStatement?_eq_some, ?_⟩
  rintro ⟨s, hs, hcontains⟩
  exact containingStatement?_eq_some h.pairwise h.proper hs hcontains

theorem containingStatement?_eq_none_iff (h : InOrder spans) :
    containingStatement? spans offset = none ↔ ∀ s ∈ spans, s.contains offset = false := by
  constructor
  · intro hnone s hs
    obtain ⟨i, hi⟩ := List.mem_iff_getElem?.1 hs
    rw [Bool.eq_false_iff]
    intro hcontains
    have hsome := (containingStatement?_eq_some_iff h).2 ⟨s, hi, hcontains⟩
    rw [hnone] at hsome
    cases hsome
  · intro hall
    rw [Option.eq_none_iff_forall_ne_some]
    intro i hsome
    obtain ⟨s, hi, hcontains⟩ := exists_of_containingStatement?_eq_some hsome
    rw [hall s (List.mem_of_getElem? hi)] at hcontains
    cases hcontains

/-! ### The search by halving -/

/-- The position at which a test fails first, among `size` positions from `base` on and the one after
them. The test is made in the middle, and the half that is left begins at a position that passes. -/
def partitionPointFrom (passes : ℕ → Bool) (base size : ℕ) : ℕ :=
  if size ≤ 1 then if passes base then base + 1 else base
  else if passes (base + size / 2) then
    partitionPointFrom passes (base + size / 2) (size - size / 2)
  else partitionPointFrom passes base (size - size / 2)
termination_by size
decreasing_by all_goals omega

/-- The number of elements in front of the first that fails a test. -/
def partitionPoint {α : Type} (p : α → Bool) (xs : List α) : ℕ :=
  if xs.isEmpty then 0 else partitionPointFrom (fun i ↦ xs[i]?.any p) 0 xs.length

/-- The point at which the test turns stays within the half that is left. -/
theorem partitionPointFrom_eq {passes : ℕ → Bool} {base size k : ℕ} (hsize : 0 < size)
    (hk : base ≤ k ∧ k ≤ base + size)
    (hpasses : ∀ i, base ≤ i → i < base + size → (passes i = true ↔ i < k)) :
    partitionPointFrom passes base size = k := by
  fun_induction partitionPointFrom passes base size with
  | case1 base size hlast hbase =>
    have hlt := (hpasses base le_rfl (by omega)).1 hbase
    omega
  | case2 base size hlast hbase =>
    have hnot := mt (hpasses base le_rfl (by omega)).2 hbase
    omega
  | case3 base size hlast hmiddle ih =>
    have hlt := (hpasses _ (by omega) (by omega)).1 hmiddle
    exact ih (by omega) (by omega) fun i hle hi ↦ hpasses i (by omega) (by omega)
  | case4 base size hlast hmiddle ih =>
    have hnot := mt (hpasses _ (by omega) (by omega)).2 hmiddle
    exact ih (by omega) (by omega) fun i hle hi ↦ hpasses i hle (by omega)

/-- What a test divides passes it up to a position. -/
theorem any_getElem?_iff_lt_length_takeWhile {α : Type} {p : α → Bool} {xs : List α}
    (h : xs.Pairwise fun x y ↦ p y = true → p x = true) (i : ℕ) :
    xs[i]?.any p = true ↔ i < (xs.takeWhile p).length := by
  induction xs generalizing i with
  | nil => simp
  | cons x xs ih =>
    obtain ⟨hx, hxs⟩ := List.pairwise_cons.1 h
    by_cases hpass : p x = true
    · rw [List.takeWhile_cons_of_pos hpass, List.length_cons]
      cases i with
      | zero => simp [hpass]
      | succ i => rw [List.getElem?_cons_succ, ih hxs, Nat.succ_lt_succ_iff]
    · rw [List.takeWhile_cons_of_neg hpass]
      refine iff_of_false (fun hany ↦ ?_) (Nat.not_lt_zero i)
      obtain ⟨y, hy, hpy⟩ := (Option.any_eq_true _ _).1 hany
      rcases List.mem_cons.1 (List.mem_of_getElem? hy) with rfl | hmem
      · exact hpass hpy
      · exact hpass (hx y hmem hpy)

/-- **Halving finds the elements at the front** of a list that the test divides. -/
theorem partitionPoint_eq {α : Type} {p : α → Bool} {xs : List α}
    (h : xs.Pairwise fun x y ↦ p y = true → p x = true) :
    partitionPoint p xs = (xs.takeWhile p).length := by
  rw [partitionPoint]
  split
  · rename_i hempty
    rw [List.isEmpty_iff.1 hempty]
    rfl
  · rename_i hempty
    have hlength : 0 < xs.length := by
      rw [List.length_pos_iff]
      exact fun hnil ↦ hempty (List.isEmpty_iff.2 hnil)
    have hle := (List.takeWhile_prefix p (l := xs)).length_le
    exact partitionPointFrom_eq hlength (by omega)
      fun i _ _ ↦ any_getElem?_iff_lt_length_takeWhile h i

/-- The position of the statement whose range holds an offset: the starts are searched by halving. -/
def searchStatement? (spans : List Span) (offset : ℕ) : Option ℕ :=
  match partitionPoint (fun start ↦ start ≤ offset) (spans.map Span.start) with
  | 0 => none
  | i + 1 => if spans[i]?.any (·.contains offset) then some i else none

theorem searchStatement?_eq (h : InOrder spans) (offset : ℕ) :
    searchStatement? spans offset = containingStatement? spans offset := by
  have hdivided : (spans.map Span.start).Pairwise fun a b ↦
      decide (b ≤ offset) = true → decide (a ≤ offset) = true :=
    h.starts_pairwise.imp fun hle hb ↦ decide_eq_true (hle.trans (of_decide_eq_true hb))
  have hcount : partitionPoint (fun start ↦ start ≤ offset) (spans.map Span.start) =
      (spans.takeWhile fun s ↦ s.start ≤ offset).length := by
    rw [partitionPoint_eq hdivided, List.takeWhile_map, List.length_map]
    rfl
  rw [searchStatement?, hcount]
  rfl

/-! ### Attribution -/

namespace ScriptModule

variable {m : ScriptModule}

/-- The statement at a position holds a declaration and may declare its name. -/
def TakesAt (m : ScriptModule) (i : ℕ) (b : Binding) : Prop :=
  ∃ s, m.statements[i]? = some s ∧ s.span.contains b.offset = true ∧ s.kind ≠ .importLink

theorem takesAt_iff (h : InOrder (m.statements.map Statement.span)) (i : ℕ) (b : Binding) :
    m.TakesAt i b ↔ m.holderOf b = some i ∧ m.DeclaringAt i := by
  rw [holderOf, containingStatement?_eq_some_iff h, TakesAt, DeclaringAt]
  cases hs : m.statements[i]? with
  | none => simp
  | some s => simp [hs]

/-- **Declarations belong to the statements that hold them.** For statements that stand in order, the
search by halving finds the position of the one statement whose range holds an offset, and nothing if
there is none. After all declarations are attributed, a statement declares what it declared before and
the names of the declarations in it, links to other modules apart; nothing else of any statement has
changed. -/
theorem attribution_exact (m : ScriptModule)
    (h : InOrder (m.statements.map Statement.span)) :
    (∀ offset,
      searchStatement? (m.statements.map Statement.span) offset =
          containingStatement? (m.statements.map Statement.span) offset ∧
        (∀ i, containingStatement? (m.statements.map Statement.span) offset = some i ↔
          ∃ s, m.statements[i]? = some s ∧ s.span.contains offset = true) ∧
        (containingStatement? (m.statements.map Statement.span) offset = none ↔
          ∀ s ∈ m.statements, s.span.contains offset = false)) ∧
      ∀ bindings : List Binding,
        (bindings.foldl assignBinding m).outlines = m.outlines ∧
          ∀ i name, (bindings.foldl assignBinding m).DefinesAt i name ↔
            m.DefinesAt i name ∨ ∃ b ∈ bindings, b.name = name ∧ m.TakesAt i b := by
  refine ⟨fun offset ↦ ⟨searchStatement?_eq h offset, fun i ↦ ?_, ?_⟩, fun bindings ↦
    ⟨outlines_foldl_assignBinding m bindings, fun i name ↦ ?_⟩⟩
  · rw [containingStatement?_eq_some_iff h, List.getElem?_map]
    cases m.statements[i]? <;> simp
  · rw [containingStatement?_eq_none_iff h, List.forall_mem_map]
  · rw [definesAt_foldl_assignBinding]
    refine or_congr Iff.rfl ?_
    simp only [takesAt_iff h]
    constructor
    · rintro ⟨⟨b, hb, hholder, hname⟩, hdeclaring⟩
      exact ⟨b, hb, hname, hholder, hdeclaring⟩
    · rintro ⟨b, hb, hname, hholder, hdeclaring⟩
      exact ⟨⟨b, hb, hholder, hname⟩, hdeclaring⟩

/-- A link, an empty statement, and two statements with a gap between them. -/
def gappedModule : ScriptModule :=
  [⟨.importLink, ⟨0, 4⟩, .empty, .empty⟩, ⟨.plain, ⟨4, 4⟩, .empty, .empty⟩,
    ⟨.plain, ⟨4, 9⟩, .empty, .empty⟩, ⟨.plain, ⟨12, 20⟩, .empty, .empty⟩].foldl pushStatement
    (empty ⟨"app.js"⟩ "")

/-- The statement that begins where an empty one ends holds the offset; the gap holds none. -/
theorem attribution_exact_gapped :
    InOrder (gappedModule.statements.map Statement.span) ∧
      searchStatement? (gappedModule.statements.map Statement.span) 4 = some 2 ∧
      searchStatement? (gappedModule.statements.map Statement.span) 9 = none ∧
      ([⟨"a", 4⟩, ⟨"b", 0⟩].foldl assignBinding gappedModule).DefinesAt 2 "a" ∧
      ¬ ([⟨"a", 4⟩, ⟨"b", 0⟩].foldl assignBinding gappedModule).DefinesAt 0 "b" := by
  have hordered : InOrder (gappedModule.statements.map Statement.span) := by decide
  obtain ⟨hsearch, hassign⟩ := attribution_exact gappedModule hordered
  obtain ⟨hhalving, hfound, -⟩ := hsearch 4
  obtain ⟨hhalving', -, hnone⟩ := hsearch 9
  obtain ⟨-, hdefines⟩ := hassign [⟨"a", 4⟩, ⟨"b", 0⟩]
  refine ⟨hordered, hhalving.trans ((hfound 2).2 ⟨_, rfl, rfl⟩), hhalving'.trans (hnone.2 ?_),
    (hdefines 2 "a").2 (.inr ⟨_, List.mem_cons_self, rfl, _, rfl, rfl, by decide⟩), ?_⟩
  · decide
  · rw [hdefines]
    rintro (⟨s, hs, hname⟩ | ⟨b, -, -, s, hs, -, hkind⟩)
    · obtain rfl := Option.some.inj hs
      exact absurd hname List.not_mem_nil
    · obtain rfl := Option.some.inj hs
      exact hkind rfl

end ScriptModule

end AppletBundle.Script
