import AppletBundle.Script.Selection
import Mathlib.Data.List.Basic
import Mathlib.Order.Bounds.Basic

/-!
# Liveness is a least fixed point

What a module needs is the least set of statements that holds its starting points and, with a
statement, everything that declares a name it uses. `Live` is that set as an inductive predicate,
and `isLeast_live` says so in the order of sets.

The marks of `reachable` are computed the other way round: all starting points are marked, and marks
are spread until nothing changes. Three facts tie the two together.

* `marked_spread_iff` says exactly what one round of spreading marks.
* A round that changes something leaves fewer statements without a mark
  (`count_false_map_or`), so as many rounds as there are statements are enough, whatever cycles the
  uses form and however many statements declare one name (`spread_spreadAll`).
* What is marked is live, and a list of marks that a round leaves alone is closed under uses
  (`marked_reachable_iff`).
-/

namespace AppletBundle.Script

/-- A statement defines the names it declares, unless it is a link to another module. -/
theorem Statement.isDefinerOf_iff {s : Statement} {name : String} :
    s.isDefinerOf name = true ↔ s.kind ≠ .importLink ∧ name ∈ s.defines.toList := by
  simp [isDefinerOf, OrderedSet.contains]

namespace ScriptModule

variable (m : ScriptModule)

/-! ### What a module needs -/

/-- The statement at position `i` uses `name`. -/
def Uses (i : ℕ) (name : String) : Prop :=
  ∃ s, m.statements[i]? = some s ∧ name ∈ s.depends.toList

/-- The statement at position `i` declares `name` as a part of the module. -/
def Declares (i : ℕ) (name : String) : Prop :=
  ∃ s, m.statements[i]? = some s ∧ s.kind ≠ .importLink ∧ name ∈ s.defines.toList

/-- The statement at position `i` is needed from the start: it is exported, or it declares nothing
and still uses something. -/
def Starts (i : ℕ) : Prop :=
  ∃ s, m.statements[i]? = some s ∧ s.kind ≠ .importLink ∧
    (i ∈ m.exports.values ∨ s.defines.toList = [] ∧ s.depends.toList ≠ [])

/-- The sets of positions that hold what a module needs. -/
structure KeepsNeeded (L : Set ℕ) : Prop where
  starts : ∀ {i}, m.Starts i → i ∈ L
  uses : ∀ {i j name}, i ∈ L → m.Uses i name → m.Declares j name → j ∈ L

/-- The positions that a module needs. -/
inductive Live : ℕ → Prop
  | start {i : ℕ} (h : m.Starts i) : Live i
  | use {i j : ℕ} {name : String} (hi : Live i) (hu : m.Uses i name) (hd : m.Declares j name) :
      Live j

/-- **Liveness is the least of the sets that keep what is needed.** -/
theorem isLeast_live : IsLeast {L : Set ℕ | m.KeepsNeeded L} {i | m.Live i} := by
  refine ⟨⟨.start, .use⟩, fun L hL i hi ↦ ?_⟩
  induction hi with
  | start h => exact hL.starts h
  | use _ hu hd ih => exact hL.uses ih hu hd

/-! ### Marks -/

/-- Position `i` is marked. -/
def Marked (marks : List Bool) (i : ℕ) : Prop :=
  marks[i]? = some true

/-- The marks at the start are the starting points. -/
theorem marked_roots_iff {i : ℕ} : Marked m.roots i ↔ m.Starts i := by
  simp only [Marked, roots, List.getElem?_map, List.getElem?_zipIdx, Nat.zero_add,
    Option.map_map, Option.map_eq_some_iff, Function.comp_apply, Starts]
  refine exists_congr fun s ↦ and_congr_right fun _ ↦ ?_
  simp [isRoot, OrderedSet.isEmpty]

theorem length_roots : m.roots.length = m.statements.length := by
  simp [roots]

/-- The names used by marked statements are those that some marked position uses. -/
theorem mem_namesUsed_iff {marks : List Bool} {name : String} :
    name ∈ m.namesUsed marks ↔ ∃ i, Marked marks i ∧ m.Uses i name := by
  rw [namesUsed, List.mem_flatMap]
  constructor
  · rintro ⟨⟨s, l⟩, hp, hn⟩
    obtain ⟨i, hi⟩ := List.mem_iff_getElem?.1 hp
    obtain ⟨hs, hl⟩ := List.getElem?_zip_eq_some.1 hi
    cases l with
    | false => exact absurd hn List.not_mem_nil
    | true => exact ⟨i, hl, s, hs, hn⟩
  · rintro ⟨i, hl, s, hs, hn⟩
    exact ⟨(s, true), List.mem_iff_getElem?.2 ⟨i, List.getElem?_zip_eq_some.2 ⟨hs, hl⟩⟩, hn⟩

theorem spread_eq (marks : List Bool) :
    m.spread marks =
      (m.statements.zip marks).map fun p ↦ p.2 || (m.namesUsed marks).any p.1.isDefinerOf :=
  rfl

theorem length_spread {marks : List Bool} (hl : marks.length = m.statements.length) :
    (m.spread marks).length = m.statements.length := by
  simp [spread, hl]

/-- **One round of spreading** keeps every mark and adds the positions that declare a name which a
marked one uses, and no others. -/
theorem marked_spread_iff {marks : List Bool} (hl : marks.length = m.statements.length) {j : ℕ} :
    Marked (m.spread marks) j ↔
      Marked marks j ∨ ∃ i name, Marked marks i ∧ m.Uses i name ∧ m.Declares j name := by
  have hdef : (∃ s, m.statements[j]? = some s ∧ (m.namesUsed marks).any s.isDefinerOf = true) ↔
      ∃ i name, Marked marks i ∧ m.Uses i name ∧ m.Declares j name := by
    simp only [List.any_eq_true, mem_namesUsed_iff, Statement.isDefinerOf_iff]
    constructor
    · rintro ⟨s, hs, name, ⟨i, hi, hu⟩, hd⟩
      exact ⟨i, name, hi, hu, s, hs, hd⟩
    · rintro ⟨i, name, hi, hu, s, hs, hd⟩
      exact ⟨s, hs, name, ⟨i, hi, hu⟩, hd⟩
  rw [← hdef, Marked, spread_eq, List.getElem?_map, Option.map_eq_some_iff]
  simp only [Prod.exists, List.getElem?_zip_eq_some, Bool.or_eq_true]
  constructor
  · rintro ⟨s, l, ⟨hs, hm⟩, rfl | hn⟩
    · exact Or.inl hm
    · exact Or.inr ⟨s, hs, hn⟩
  · rintro (hm | ⟨s, hs, hn⟩)
    · have hj : j < m.statements.length := hl ▸ (List.getElem?_eq_some_iff.1 hm).1
      exact ⟨_, true, ⟨List.getElem?_eq_getElem hj, hm⟩, Or.inl rfl⟩
    · have hj : j < marks.length := hl ▸ (List.getElem?_eq_some_iff.1 hs).1
      exact ⟨s, _, ⟨hs, List.getElem?_eq_getElem hj⟩, Or.inr hn⟩

/-! ### Enough rounds -/

/-- Adding marks leaves no more positions without one, and as many only if no mark was added. -/
theorem count_false_map_or {α : Type} (f : α → Bool) (xs : List α) (marks : List Bool)
    (hl : marks.length = xs.length) :
    ((xs.zip marks).map fun p ↦ p.2 || f p.1).count false ≤ marks.count false ∧
      (((xs.zip marks).map fun p ↦ p.2 || f p.1).count false = marks.count false →
        ((xs.zip marks).map fun p ↦ p.2 || f p.1) = marks) := by
  induction xs generalizing marks with
  | nil => simp_all
  | cons x xs ih =>
    cases marks with
    | nil => simp at hl
    | cons l marks =>
      obtain ⟨hle, heq⟩ := ih marks (by simpa using hl)
      cases l with
      | true => simpa using ⟨hle, heq⟩
      | false =>
        cases hf : f x with
        | false => simpa [hf] using ⟨hle, heq⟩
        | true =>
          rw [List.zip_cons_cons, List.map_cons, hf, Bool.or_true, List.count_cons_self,
            List.count_cons_of_ne (by decide)]
          exact ⟨by omega, fun h ↦ by omega⟩

/-- A round that adds no mark is reached after as many rounds as there are positions without one. -/
theorem spread_spreadAll {n : ℕ} {marks : List Bool} (hl : marks.length = m.statements.length)
    (hn : marks.count false ≤ n) : m.spread (m.spreadAll n marks) = m.spreadAll n marks := by
  induction n generalizing marks with
  | zero =>
    obtain ⟨hle, heq⟩ := count_false_map_or (fun s : Statement ↦
      (m.namesUsed marks).any s.isDefinerOf) m.statements marks hl
    exact heq (by omega)
  | succ n ih =>
    obtain ⟨hle, heq⟩ := count_false_map_or (fun s : Statement ↦
      (m.namesUsed marks).any s.isDefinerOf) m.statements marks hl
    rw [← spread_eq] at hle heq
    rw [spreadAll]
    split
    · assumption
    · rename_i hne
      have hlt : (m.spread marks).count false ≠ marks.count false := fun h ↦ hne (heq h)
      exact ih (m.length_spread hl) (by omega)

/-- What holds of every mark at the start and passes from a list of marks to the next round holds of
the marks after any number of rounds. -/
theorem spreadAll_induction {P : List Bool → Prop} (step : ∀ marks, P marks → P (m.spread marks))
    (n : ℕ) {marks : List Bool} (h : P marks) : P (m.spreadAll n marks) := by
  induction n generalizing marks with
  | zero => exact h
  | succ n ih =>
    rw [spreadAll]
    split
    · exact h
    · exact ih (step marks h)

/-! ### Marks and liveness agree -/

theorem length_reachable : m.reachable.length = m.statements.length :=
  m.spreadAll_induction (P := fun marks ↦ marks.length = m.statements.length)
    (fun _ h ↦ m.length_spread h) _ m.length_roots

/-- Marked positions are live. -/
theorem live_of_marked_reachable {i : ℕ} (h : Marked m.reachable i) : m.Live i := by
  refine (m.spreadAll_induction (P := fun marks ↦ marks.length = m.statements.length ∧
    ∀ i, Marked marks i → m.Live i) ?_ _ ⟨m.length_roots, fun i hi ↦ ?_⟩).2 i h
  · rintro marks ⟨hl, hlive⟩
    refine ⟨m.length_spread hl, fun j hj ↦ ?_⟩
    rcases (m.marked_spread_iff hl).1 hj with hj | ⟨i, name, hi, hu, hd⟩
    · exact hlive j hj
    · exact (hlive i hi).use hu hd
  · exact .start (m.marked_roots_iff.1 hi)

/-- The marks are closed: they keep what the module needs. -/
theorem keepsNeeded_reachable : m.KeepsNeeded {i | Marked m.reachable i} where
  starts {i} hi := by
    refine (m.spreadAll_induction (P := fun marks ↦ marks.length = m.statements.length ∧
      Marked marks i) ?_ _ ⟨m.length_roots, m.marked_roots_iff.2 hi⟩).2
    exact fun marks h ↦ ⟨m.length_spread h.1, (m.marked_spread_iff h.1).2 (Or.inl h.2)⟩
  uses {i j name} hi hu hd := by
    have hfix : m.spread m.reachable = m.reachable :=
      m.spread_spreadAll m.length_roots (m.length_roots ▸ List.count_le_length)
    have hj : Marked (m.spread m.reachable) j :=
      (m.marked_spread_iff m.length_reachable).2 (Or.inr ⟨i, name, hi, hu, hd⟩)
    rwa [hfix] at hj

/-- **The marks of `reachable` are exactly the live positions.** -/
theorem marked_reachable_iff {i : ℕ} : Marked m.reachable i ↔ m.Live i :=
  ⟨m.live_of_marked_reachable, fun h ↦ m.isLeast_live.2 m.keepsNeeded_reachable h⟩

end ScriptModule

end AppletBundle.Script
