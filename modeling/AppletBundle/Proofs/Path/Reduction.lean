import AppletBundle.Proofs.Path.Components

/-!
# Reducing components

A list of components is reduced from left to right with the names so far on a stack: a parent takes
the last name away, or stays when there is none. So what is left are the parents that nothing
cancelled and then names, behind the root if the list opens with it (`reduce_eq`, `reduce_root`).

A list *climbs* when some part of it from the beginning has more parents than names: whoever follows
it leaves the place where it starts. Exactly then a parent is left.
-/

namespace AppletBundle.Path

/-- Whether a component is a name. -/
def Component.isName : Component → Bool
  | normal _ => true
  | _ => false

/-- Whoever follows the components is above the start at some point. -/
def Climbs (cs : List Component) : Prop :=
  ∃ way, way <+: cs ∧ way.countP Component.isName < way.count .parent

theorem forall_prefix_cons_iff {α : Type} {P : List α → Prop} {c : α} {cs : List α} :
    (∀ way, way <+: c :: cs → P way) ↔ P [] ∧ ∀ way, way <+: cs → P (c :: way) := by
  constructor
  · intro h
    exact ⟨h [] List.nil_prefix, fun way hway ↦ h _ (List.cons_prefix_cons.2 ⟨rfl, hway⟩)⟩
  · rintro ⟨hnil, hcons⟩ way hway
    rcases List.prefix_cons_iff.1 hway with rfl | ⟨way, rfl, hrest⟩
    · exact hnil
    · exact hcons way hrest

/-- **One pass over components** leaves names above parents above `base`; more parents than before
exactly if the components climb above the names that were there. -/
theorem foldl_reduceStep {base : List Component} (hbase : base = [] ∨ base = [.root])
    {cs : List Component} (hcs : Component.root ∉ cs) (names : List String) (k : ℕ) :
    ∃ (names' : List String) (k' : ℕ),
      cs.foldl reduceStep (names.map .normal ++ List.replicate k .parent ++ base) =
        names'.map .normal ++ List.replicate k' .parent ++ base ∧ k ≤ k' ∧
      (k' = k ↔ ∀ way, way <+: cs →
        way.count .parent ≤ names.length + way.countP Component.isName) := by
  induction cs generalizing names k with
  | nil =>
    refine ⟨names, k, rfl, Nat.le_refl k, fun _ way hway ↦ ?_, fun _ ↦ rfl⟩
    rw [List.prefix_nil.1 hway]
    exact Nat.zero_le _
  | cons c cs ih =>
    rw [List.mem_cons, not_or] at hcs
    rw [forall_prefix_cons_iff, List.foldl_cons]
    cases c with
    | root => exact absurd rfl hcs.1
    | current =>
      obtain ⟨names', k', hrun, hle, hiff⟩ := ih hcs.2 names k
      refine ⟨names', k', hrun, hle, hiff.trans ?_⟩
      simp [Component.isName]
    | normal name =>
      obtain ⟨names', k', hrun, hle, hiff⟩ := ih hcs.2 (name :: names) k
      refine ⟨names', k', hrun, hle, hiff.trans ?_⟩
      have hcount : ∀ way : List Component,
          (Component.normal name :: way).count .parent = way.count .parent ∧
            (Component.normal name :: way).countP Component.isName =
              way.countP Component.isName + 1 := by
        intro way
        exact ⟨List.count_cons_of_ne (by simp), List.countP_cons_of_pos rfl⟩
      simp only [hcount, List.count_nil, Nat.zero_le, true_and, List.length_cons]
      refine forall₂_congr fun way _ ↦ ?_
      omega
    | parent =>
      have hcount : ∀ way : List Component,
          (Component.parent :: way).count .parent = way.count .parent + 1 ∧
            (Component.parent :: way).countP Component.isName = way.countP Component.isName := by
        intro way
        exact ⟨List.count_cons_self, List.countP_cons_of_neg (by decide)⟩
      simp only [hcount, List.count_nil, Nat.zero_le, true_and]
      rcases names with - | ⟨name, names⟩
      · -- nothing cancels this parent
        have hstep : reduceStep ([].map .normal ++ List.replicate k .parent ++ base) .parent =
            ([] : List String).map .normal ++ List.replicate (k + 1) .parent ++ base := by
          rcases k with - | k
          · rcases hbase with rfl | rfl <;> rfl
          · rfl
        rw [hstep]
        obtain ⟨names', k', hrun, hle, -⟩ := ih hcs.2 [] (k + 1)
        refine ⟨names', k', hrun, by omega, fun hk ↦ by omega, fun h ↦ ?_⟩
        have hnil := h [] List.nil_prefix
        rw [List.count_nil, List.length_nil, List.countP_nil] at hnil
        omega
      · obtain ⟨names', k', hrun, hle, hiff⟩ := ih hcs.2 names k
        refine ⟨names', k', hrun, hle, hiff.trans ?_⟩
        refine forall₂_congr fun way _ ↦ ?_
        rw [List.length_cons]
        omega

/-- **Components without the root reduce to parents and then names**; there are parents exactly if
the components climb. -/
theorem reduce_eq {cs : List Component} (hcs : Component.root ∉ cs) :
    ∃ (names : List String) (k : ℕ),
      reduce cs = List.replicate k .parent ++ names.map .normal ∧ (0 < k ↔ Climbs cs) := by
  obtain ⟨names, k, hrun, -, hiff⟩ := foldl_reduceStep (Or.inl rfl) hcs [] 0
  refine ⟨names.reverse, k, ?_, ?_⟩
  · have hrun' : cs.foldl reduceStep [] = names.map .normal ++ List.replicate k .parent := by
      rw [← List.append_nil (_ ++ _), ← hrun]
      rfl
    rw [reduce, hrun', List.reverse_append, List.reverse_replicate, List.map_reverse]
  · rw [Nat.pos_iff_ne_zero, Ne, hiff, Climbs]
    simp only [List.length_nil, Nat.zero_add, not_forall, Nat.not_le, exists_prop]

/-- The same behind the root. -/
theorem reduce_root {cs : List Component} (hcs : Component.root ∉ cs) :
    ∃ (names : List String) (k : ℕ),
      reduce (.root :: cs) = .root :: (List.replicate k .parent ++ names.map .normal) := by
  obtain ⟨names, k, hrun, -, -⟩ := foldl_reduceStep (Or.inr rfl) hcs [] 0
  refine ⟨names.reverse, k, ?_⟩
  have hrun' : (.root :: cs).foldl reduceStep [] =
      names.map .normal ++ List.replicate k .parent ++ [.root] := hrun
  rw [reduce, hrun', List.reverse_append, List.reverse_append, List.reverse_replicate,
    List.map_reverse]
  rfl

/-- Dots do not matter. -/
theorem reduce_filter_current (cs : List Component) :
    reduce (cs.filter (· ≠ .current)) = reduce cs := by
  have hrun : ∀ done, (cs.filter (· ≠ .current)).foldl reduceStep done =
      cs.foldl reduceStep done := by
    induction cs with
    | nil => exact fun _ ↦ rfl
    | cons c cs ih =>
      intro done
      by_cases hc : c = .current
      · subst hc
        exact ih done
      · rw [List.filter_cons_of_pos (by simpa using hc), List.foldl_cons, List.foldl_cons, ih]
  rw [reduce, hrun, reduce]

theorem mem_of_mem_reduceStep {done : List Component} {c d : Component}
    (hc : c ∈ reduceStep done d) : c ∈ done ∨ c = d := by
  unfold reduceStep at hc
  split at hc
  · exact Or.inl hc
  · split at hc
    · exact Or.inl (List.mem_cons_of_mem _ hc)
    · exact (List.mem_cons.1 hc).symm
  · exact (List.mem_cons.1 hc).symm

/-- What is left was there. -/
theorem mem_of_mem_reduce {cs : List Component} {c : Component} (hc : c ∈ reduce cs) :
    c ∈ cs := by
  have hrun : ∀ done, c ∈ cs.foldl reduceStep done → c ∈ done ∨ c ∈ cs := by
    clear hc
    induction cs with
    | nil => exact fun _ h ↦ Or.inl h
    | cons d cs ih =>
      intro done hc
      rcases ih _ hc with h | h
      · rcases mem_of_mem_reduceStep h with h | rfl
        · exact Or.inl h
        · exact Or.inr List.mem_cons_self
      · exact Or.inr (List.mem_cons_of_mem _ h)
  exact (hrun [] (List.mem_reverse.1 hc)).resolve_left List.not_mem_nil

/-! ### Normal paths -/

theorem root_not_mem_bodyComponents (s : List Char) : Component.root ∉ bodyComponents s :=
  fun h ↦ (isPart_of_mem_bodyComponents h).ne_root rfl

theorem components_of_isAbsolute {p : Path} (hp : p.isAbsolute) :
    p.components = .root :: bodyComponents p.text.toList := by
  rw [components_eq, isAbsolute_iff.1 hp]
  rfl

/-- What is left of a path is parts, perhaps behind the root. -/
theorem exists_reduce_eq (p : Path) :
    ∃ cs, (∀ c ∈ cs, c.IsPart) ∧ (reduce p.components = cs ∨ reduce p.components = .root :: cs) := by
  cases habs : p.isAbsolute with
  | false =>
    rw [← reduce_filter_current, filter_components_of_not_isAbsolute habs]
    exact ⟨_, fun c hc ↦ isPart_of_mem_bodyComponents (mem_of_mem_reduce hc), .inl rfl⟩
  | true =>
    obtain ⟨names, k, hreduce⟩ := reduce_root (root_not_mem_bodyComponents p.text.toList)
    rw [components_of_isAbsolute habs, hreduce]
    refine ⟨_, fun c hc ↦ ?_, .inr rfl⟩
    have hmem : c ∈ Component.root :: bodyComponents p.text.toList :=
      mem_of_mem_reduce (hreduce ▸ List.mem_cons_of_mem _ hc)
    rcases List.mem_cons.1 hmem with rfl | hmem
    · simp at hc
    · exact isPart_of_mem_bodyComponents hmem

/-- **A normal path has the reduced components.** -/
theorem components_normalize (p : Path) : p.normalize.components = reduce p.components := by
  rw [normalize]
  obtain ⟨cs, hcs, h | h⟩ := exists_reduce_eq p
  · rw [h, components_ofComponents hcs]
  · rw [h, components_ofComponents_root hcs]

end AppletBundle.Path
