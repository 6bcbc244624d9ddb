import AppletBundle.Proofs.Path.Reduction
import Mathlib.Logic.Relation

/-!
# Cancelling components

Two things can be cancelled in a list of components: a dot, and a name with the parent behind it
(`Cancels`). In whatever order that is done, it ends with the same list, the one that normalizing
finds in a single pass (`cancelsTo_iff`): cancelling does not change what a list reduces to
(`Cancels.reduce_eq`), and what a path reduces to is as good as it gets, parents and then names
behind the root (`IsReduced`).

So normal paths are equal exactly if their paths cancel to the same components, and a part of a path
can be normalized before the rest is known. Only the separator and the dot mean something in a text,
all other characters are alike: names need not be text that a person could read.
-/

namespace AppletBundle.Path

open Relation

/-! ### Cancelling -/

/-- One cancellation: of a dot, or of a name with the parent behind it. -/
inductive Cancels : List Component → List Component → Prop
  | dot (front back : List Component) : Cancels (front ++ .current :: back) (front ++ back)
  | name (front back : List Component) (name : String) :
      Cancels (front ++ .normal name :: .parent :: back) (front ++ back)

/-- `ds` is what is left of `cs` when everything has been cancelled. -/
structure CancelsTo (cs ds : List Component) : Prop where
  steps : ReflTransGen Cancels cs ds
  final : ∀ es, ¬ Cancels ds es

variable {cs ds : List Component}

theorem Cancels.append (h : Cancels cs ds) (es : List Component) :
    Cancels (cs ++ es) (ds ++ es) := by
  cases h with
  | dot front back =>
    rw [List.append_assoc, List.append_assoc]
    exact .dot front (back ++ es)
  | name front back name =>
    rw [List.append_assoc, List.append_assoc]
    exact .name front (back ++ es) name

theorem Cancels.length_lt (h : Cancels cs ds) : ds.length < cs.length := by
  cases h <;> simp only [List.length_append, List.length_cons] <;> omega

/-- Cancelling does not change what is left in the end. -/
theorem Cancels.reduce_eq (h : Cancels cs ds) : reduce cs = reduce ds := by
  cases h with
  | dot front back => rw [reduce, reduce, List.foldl_append, List.foldl_append]; rfl
  | name front back name => rw [reduce, reduce, List.foldl_append, List.foldl_append]; rfl

theorem reduce_eq_of_steps (h : ReflTransGen Cancels cs ds) : reduce cs = reduce ds := by
  induction h with
  | refl => rfl
  | tail _ hstep ih => rw [ih, hstep.reduce_eq]

/-- **A pass over components cancels**, one after another. -/
theorem steps_reduce (cs : List Component) : ReflTransGen Cancels cs (reduce cs) := by
  suffices h : ∀ done : List Component,
      ReflTransGen Cancels (done.reverse ++ cs) (cs.foldl reduceStep done).reverse from h []
  induction cs with
  | nil =>
    intro done
    rw [List.append_nil]
    exact .refl
  | cons c cs ih =>
    intro done
    have hkeep : ReflTransGen Cancels (done.reverse ++ c :: cs)
        (cs.foldl reduceStep (c :: done)).reverse := by
      have hmoved : done.reverse ++ c :: cs = (c :: done).reverse ++ cs := by simp
      rw [hmoved]
      exact ih (c :: done)
    cases c with
    | root => exact hkeep
    | normal name => exact hkeep
    | current => exact .head (.dot done.reverse cs) (ih done)
    | parent =>
      match done with
      | .normal name :: rest =>
        have hmoved : (.normal name :: rest).reverse ++ .parent :: cs =
            rest.reverse ++ .normal name :: .parent :: cs := by simp
        rw [hmoved]
        exact .head (.name rest.reverse cs name) (ih rest)
      | [] => exact hkeep
      | .root :: _ => exact hkeep
      | .current :: _ => exact hkeep
      | .parent :: _ => exact hkeep

theorem length_le_of_steps (h : ReflTransGen Cancels cs ds) : ds.length ≤ cs.length := by
  induction h with
  | refl => exact Nat.le_refl _
  | tail _ hstep ih => exact Nat.le_trans (Nat.le_of_lt hstep.length_lt) ih

/-- What comes behind may wait. -/
theorem reduce_reduce_append (cs ds : List Component) :
    reduce (reduce cs ++ ds) = reduce (cs ++ ds) :=
  (reduce_eq_of_steps ((steps_reduce cs).lift (· ++ ds) fun _ _ h ↦ h.append ds)).symm

/-- **What does not change by reducing** is left in the end: it is all to which a list can be
cancelled that reduces to it. -/
theorem cancelsTo_iff_of_reduce_eq (hreduced : reduce (reduce cs) = reduce cs) :
    CancelsTo cs ds ↔ ds = reduce cs := by
  constructor
  · rintro ⟨hsteps, hfinal⟩
    rw [reduce_eq_of_steps hsteps]
    rcases (steps_reduce ds).cases_head with h | ⟨es, hstep, -⟩
    · exact h
    · exact absurd hstep (hfinal es)
  · rintro rfl
    refine ⟨steps_reduce cs, fun es hstep ↦ ?_⟩
    have hle : (reduce (reduce cs)).length ≤ es.length :=
      hstep.reduce_eq ▸ length_le_of_steps (steps_reduce es)
    rw [hreduced] at hle
    exact absurd hstep.length_lt (Nat.not_lt_of_le hle)

/-! ### Reduced components -/

/-- Parents and then names, perhaps behind the root. -/
def IsReduced (absolute : Bool) (cs : List Component) : Prop :=
  ∃ (k : ℕ) (names : List String),
    cs = (if absolute then [.root] else []) ++ List.replicate k .parent ++ names.map .normal

theorem foldl_reduceStep_parents {base : List Component} (hbase : base = [] ∨ base = [.root])
    (k : ℕ) :
    (List.replicate k .parent).foldl reduceStep base = List.replicate k .parent ++ base := by
  induction k with
  | zero => rfl
  | succ k ih =>
    rw [List.replicate_succ', List.foldl_concat, ih, ← List.replicate_succ', List.replicate_succ]
    rcases k with - | k
    · rcases hbase with rfl | rfl <;> rfl
    · rfl

theorem foldl_reduceStep_names (names : List String) (done : List Component) :
    (names.map .normal).foldl reduceStep done = (names.map .normal).reverse ++ done := by
  induction names generalizing done with
  | nil => rfl
  | cons name names ih => rw [List.map_cons, List.foldl_cons, ih]; simp [reduceStep]

/-- There is nothing to be done about reduced components. -/
theorem IsReduced.reduce_eq {absolute : Bool} (h : IsReduced absolute cs) : reduce cs = cs := by
  obtain ⟨k, names, rfl⟩ := h
  have hrun : ∀ base : List Component, base = [] ∨ base = [.root] →
      (List.replicate k Component.parent ++ names.map Component.normal).foldl reduceStep base =
        (base ++ List.replicate k Component.parent ++ names.map Component.normal).reverse := by
    intro base hbase
    rw [List.foldl_append, foldl_reduceStep_parents hbase, foldl_reduceStep_names]
    rcases hbase with rfl | rfl <;> simp
  have hdone := fun base hbase ↦
    (congrArg List.reverse (hrun base hbase)).trans (List.reverse_reverse _)
  cases absolute with
  | false => exact hdone [] (.inl rfl)
  | true => exact hdone [.root] (.inr rfl)

theorem isReduced_reduce (p : Path) : IsReduced p.isAbsolute (reduce p.components) := by
  cases habs : p.isAbsolute with
  | false =>
    obtain ⟨names, k, hreduce, -⟩ := Path.reduce_eq (root_not_mem_bodyComponents p.text.toList)
    refine ⟨k, names, ?_⟩
    rw [← reduce_filter_current, filter_components_of_not_isAbsolute habs, hreduce]
    rfl
  | true =>
    obtain ⟨names, k, hreduce⟩ := reduce_root (root_not_mem_bodyComponents p.text.toList)
    refine ⟨k, names, ?_⟩
    rw [components_of_isAbsolute habs, hreduce]
    rfl

theorem reduce_reduce (p : Path) : reduce (reduce p.components) = reduce p.components :=
  (isReduced_reduce p).reduce_eq

/-! ### Normal paths -/

theorem normalize_eq_iff {p q : Path} :
    p.normalize = q.normalize ↔ reduce p.components = reduce q.components := by
  refine ⟨fun h ↦ ?_, fun h ↦ by rw [normalize, h, normalize]⟩
  rw [← components_normalize, h, components_normalize]

theorem reduce_components_join (p : Path) {q : Path} (hq : q.isAbsolute = false) :
    reduce (p.join q).components = reduce (p.components ++ q.components) := by
  have hbody : (p.components ++ q.components).filter (· ≠ .current) =
      (p.components ++ bodyComponents q.text.toList).filter (· ≠ .current) := by
    have hfilter := filter_components_of_not_isAbsolute hq
    rw [List.filter_append, List.filter_append, ← hfilter, List.filter_filter]
    simp
  rw [components_join p hq]
  split
  · rfl
  · rw [← reduce_filter_current, ← hbody, reduce_filter_current]

/-- **A path may be normalized before another is joined to it.** -/
theorem normalize_join (p q : Path) : (p.normalize.join q).normalize = (p.join q).normalize := by
  cases hq : q.isAbsolute with
  | true => rw [join, if_pos hq, join, if_pos hq]
  | false =>
    rw [normalize_eq_iff, reduce_components_join _ hq, reduce_components_join _ hq,
      components_normalize, reduce_reduce_append]

/-- **Normalizing cancels everything**: what is left are parents and then names, it is left in
whatever order is cancelled, and it tells what two paths have in common. -/
theorem normalize_canonical (p : Path) :
    (∃ (k : ℕ) (names : List String), p.normalize.components =
      (if p.isAbsolute then [.root] else []) ++ List.replicate k .parent ++ names.map .normal) ∧
    p.normalize.normalize = p.normalize ∧
    (∀ q : Path, (p.join q).normalize = (p.normalize.join q).normalize) ∧
    (∃! ds, CancelsTo p.components ds) ∧
    ∀ q : Path, p.normalize = q.normalize ↔
      ∃ ds, CancelsTo p.components ds ∧ CancelsTo q.components ds := by
  have hcancels : ∀ (q : Path) {ds}, CancelsTo q.components ds ↔ ds = reduce q.components :=
    fun q _ ↦ cancelsTo_iff_of_reduce_eq (reduce_reduce q)
  refine ⟨components_normalize p ▸ isReduced_reduce p, ?_, fun q ↦ (normalize_join p q).symm,
    ⟨_, (hcancels p).2 rfl, fun _ ↦ (hcancels p).1⟩, fun q ↦ ?_⟩
  · rw [normalize_eq_iff, components_normalize, reduce_reduce]
  · rw [normalize_eq_iff]
    constructor
    · intro h
      exact ⟨_, (hcancels p).2 rfl, (hcancels q).2 h⟩
    · rintro ⟨ds, hp, hq⟩
      rw [← (hcancels p).1 hp, (hcancels q).1 hq]

example : (⟨"pages/index/../../components/./card"⟩ : Path).normalize = ⟨"components/card"⟩ := by
  decide +kernel

end AppletBundle.Path
