import AppletBundle.Script.Selection
import Mathlib.Data.List.Basic

/-!
# Recorded selections

A module keeps one selection: the first that is recorded on it, or that is found when it is to be
recorded. What is found does not depend on what has been recorded (`select_recordSelection`), so a
history of calls is told from the module at its start: `selected_afterAll` says which selection is
kept after any calls, and `selected_writeOnce` how the module answers from then on.
-/

namespace AppletBundle.Script

/-- A call that selects statements, or that records a selection. -/
inductive SelectionCall where
  | select (options : SelectOptions)
  | selectRecorded (options : SelectOptions)
  | record (selection : Selection)

namespace ScriptModule

/-- The module after a call. A selection that fails leaves the module as it is. -/
def afterCall (m : ScriptModule) : SelectionCall → ScriptModule
  | .select _ => m
  | .selectRecorded options =>
    match m.selectRecorded options with
    | .ok (_, n) => n
    | .error _ => m
  | .record selection => m.recordSelection selection

/-- The module after calls in order. -/
def afterAll (m : ScriptModule) (calls : List SelectionCall) : ScriptModule :=
  calls.foldl afterCall m

/-- The selection that a call brings, if it is one that records and finds a selection. -/
def brought? (m : ScriptModule) : SelectionCall → Option Selection
  | .select _ => none
  | .selectRecorded options => (m.select options).toOption
  | .record selection => some selection

/-! ### Selecting does not look at what is recorded -/

section Select

variable (m : ScriptModule) (selection : Selection)

theorem spreadAll_recordSelection (n : ℕ) (live : List Bool) :
    (m.recordSelection selection).spreadAll n live = m.spreadAll n live := by
  induction n generalizing live with
  | zero => rfl
  | succ n ih =>
    have hspread : (m.recordSelection selection).spread live = m.spread live := rfl
    rw [spreadAll, spreadAll, hspread, ih]

theorem live_recordSelection (mode : SelectionMode) :
    (m.recordSelection selection).live mode = m.live mode := by
  cases mode with
  | reachability => exact spreadAll_recordSelection m selection _ _
  | unconditional => rfl

theorem resolveNames_recordSelection (globals : KnownGlobals) (i : ℕ) (names : List String)
    (external : OrderedSet ExternalImport) :
    (m.recordSelection selection).resolveNames globals i names external =
      m.resolveNames globals i names external := by
  have horigin : (m.recordSelection selection).origin = m.origin := rfl
  have hlabel : (m.recordSelection selection).label = m.label := rfl
  induction names generalizing external with
  | nil => rfl
  | cons name names ih => simp only [resolveNames, horigin, hlabel, ih]

theorem resolveStatements_recordSelection (globals : KnownGlobals) (i : ℕ)
    (marked : List (Statement × Bool)) (external : OrderedSet ExternalImport) :
    (m.recordSelection selection).resolveStatements globals i marked external =
      m.resolveStatements globals i marked external := by
  induction marked generalizing i external with
  | nil => rfl
  | cons marked rest ih =>
    simp only [resolveStatements, resolveNames_recordSelection, ih]

theorem select_recordSelection (options : SelectOptions) :
    (m.recordSelection selection).select options = m.select options := by
  rw [select, select, live_recordSelection, resolveStatements_recordSelection]
  rfl

end Select

/-! ### One call -/

variable {m : ScriptModule}

theorem selectRecorded_of_eq_some {first : Selection} (h : m.selected = some first)
    (options : SelectOptions) : m.selectRecorded options = .ok (first, m) := by
  rw [selectRecorded, h]

theorem selectRecorded_of_eq_none (h : m.selected = none) (options : SelectOptions) :
    m.selectRecorded options = (m.select options).map fun s ↦ (s, m.recordSelection s) := by
  rw [selectRecorded, h]

/-- **A call records what it brings** on a module without a selection, and changes nothing
otherwise. -/
theorem selected_afterCall (m : ScriptModule) (call : SelectionCall) :
    (m.afterCall call).selected = m.selected.or (m.brought? call) := by
  cases call with
  | select options => exact Option.or_none.symm
  | record selection => cases h : m.selected <;> simp [afterCall, brought?, recordSelection, h]
  | selectRecorded options =>
    cases h : m.selected with
    | some first =>
      rw [afterCall, selectRecorded_of_eq_some h]
      exact h
    | none =>
      rw [afterCall, selectRecorded_of_eq_none h, brought?, Option.none_or]
      cases m.select options with
      | error f => exact h
      | ok selection => simp [Except.map, Except.toOption, recordSelection, h]

/-- A call records a selection, or leaves the module as it is. -/
theorem afterCall_eq (m : ScriptModule) (call : SelectionCall) :
    m.afterCall call = m ∨ ∃ selection, m.afterCall call = m.recordSelection selection := by
  cases call with
  | select options => exact .inl rfl
  | record selection => exact .inr ⟨selection, rfl⟩
  | selectRecorded options =>
    cases h : m.selected with
    | some first =>
      left
      rw [afterCall, selectRecorded_of_eq_some h]
    | none =>
      rw [afterCall, selectRecorded_of_eq_none h]
      cases m.select options with
      | error f => exact .inl rfl
      | ok selection => exact .inr ⟨selection, rfl⟩

theorem select_afterCall (m : ScriptModule) (call : SelectionCall) (options : SelectOptions) :
    (m.afterCall call).select options = m.select options := by
  rcases m.afterCall_eq call with h | ⟨selection, h⟩
  · rw [h]
  · rw [h, select_recordSelection]

/-! ### All calls -/

theorem select_afterAll (m : ScriptModule) (calls : List SelectionCall) (options : SelectOptions) :
    (m.afterAll calls).select options = m.select options := by
  induction calls generalizing m with
  | nil => rfl
  | cons call calls ih =>
    rw [afterAll, List.foldl_cons]
    exact (ih (m.afterCall call)).trans (select_afterCall m call options)

theorem brought?_afterCall (m : ScriptModule) (call : SelectionCall) :
    (m.afterCall call).brought? = m.brought? := by
  funext next
  cases next with
  | select options => rfl
  | selectRecorded options => rw [brought?, brought?, select_afterCall]
  | record selection => rfl

/-- **The first selection is kept.** -/
theorem selected_afterAll (m : ScriptModule) (calls : List SelectionCall) :
    (m.afterAll calls).selected = m.selected.or (calls.findSome? m.brought?) := by
  induction calls generalizing m with
  | nil => exact Option.or_none.symm
  | cons call calls ih =>
    rw [afterAll, List.foldl_cons]
    refine (ih (m.afterCall call)).trans ?_
    rw [selected_afterCall, brought?_afterCall, Option.or_assoc, List.findSome?_cons]
    cases m.brought? call <;> rfl

/-- **A selection is written once.** After any calls on a module, the selection that it keeps is the
one that it had or else the first that a call brought: one that was recorded, or the result of a
selection to be recorded that succeeded. Selecting still gives what it gave at the start. While
nothing is kept, a selection to be recorded has that result, and leaves nothing if it fails; once
there is a selection, it is the answer to every selection to be recorded, whatever the options, and
to every other one that is recorded, and stays through all further calls. -/
theorem selected_writeOnce (m : ScriptModule) (calls : List SelectionCall) :
    (m.afterAll calls).selected = m.selected.or (calls.findSome? m.brought?) ∧
    (∀ options, (m.afterAll calls).select options = m.select options) ∧
    ((m.afterAll calls).selected = none →
      (∀ options, ((m.afterAll calls).selectRecorded options).map Prod.fst = m.select options) ∧
      (∀ options failure, (m.afterAll calls).selectRecorded options = .error failure →
        (m.afterAll (calls ++ [.selectRecorded options])).selected = none) ∧
      ∀ selection, ((m.afterAll calls).recordSelection selection).selected = some selection) ∧
    ∀ first, (m.afterAll calls).selected = some first →
      (∀ options, (m.afterAll calls).selectRecorded options = .ok (first, m.afterAll calls)) ∧
      (∀ selection, ((m.afterAll calls).recordSelection selection).selected = some first) ∧
      ∀ more, (m.afterAll (calls ++ more)).selected = some first := by
  have happend : ∀ more, m.afterAll (calls ++ more) = (m.afterAll calls).afterAll more :=
    fun more ↦ List.foldl_append
  refine ⟨selected_afterAll m calls, select_afterAll m calls, fun hnone ↦ ⟨?_, ?_, ?_⟩,
    fun first hfirst ↦ ⟨?_, ?_, ?_⟩⟩
  · intro options
    rw [selectRecorded_of_eq_none hnone, select_afterAll]
    cases m.select options <;> rfl
  · intro options failure hfails
    have hkept : (m.afterAll calls).afterCall (.selectRecorded options) = m.afterAll calls := by
      rw [afterCall, hfails]
    rw [happend]
    exact (congrArg selected hkept).trans hnone
  · intro selection
    rw [recordSelection, hnone, Option.getD_none]
  · exact selectRecorded_of_eq_some hfirst
  · intro selection
    rw [recordSelection, hfirst, Option.getD_some]
  · intro more
    rw [happend, selected_afterAll, hfirst, Option.some_or]

end ScriptModule

end AppletBundle.Script
