import AppletBundle.Proofs.Script.SideBySide
import Mathlib.Data.List.Flatten
import Mathlib.Logic.Function.Basic

/-!
# Clashes of names

Events that declare different names for the module clash only within themselves, even where they are
mixed: `clash_sides` is about the items of a module, each with the side on which it stands, and
`clash_append` about events after others. That items of a side see the state as if those of the
other had not been there is `clash_foldl_sides`, with `inStep_foldl_step` for the side of an item and
`flagsOf_foldl_step_of_not_mem` for the other.

Where one item ends and the next begins makes no difference (`clash_ofEvents_eq`).
-/

namespace AppletBundle.Script

namespace Scoping

/-! ### Two sides -/

/-- The events of one side. -/
def side (c : Bool) (items : List (Bool × List ScopeEvent)) : List ScopeEvent :=
  (items.filter fun q ↦ q.1 == c).flatMap Prod.snd

theorem side_cons (c : Bool) (q : Bool × List ScopeEvent) (items : List (Bool × List ScopeEvent)) :
    side c (q :: items) = if q.1 = c then q.2 ++ side c items else side c items := by
  rw [side, List.filter_cons]
  by_cases h : q.1 = c
  · simp [h, side]
  · simp [h, side]

/-- Items of different sides declare different names for the module. -/
def SidesApart (items : List (Bool × List ScopeEvent)) : Prop :=
  ∀ q ∈ items, ∀ r ∈ items, q.1 ≠ r.1 → ∀ n ∈ moduleNames [] q.2, n ∉ moduleNames [] r.2

/-- A name that an item of one side declares for the module. -/
def DeclaredOn (c : Bool) (items : List (Bool × List ScopeEvent)) (n : String) : Prop :=
  ∃ q ∈ items, q.1 = c ∧ n ∈ moduleNames [] q.2

/-- The sides run each by itself as they run together. -/
theorem clash_foldl_sides {items : List (Bool × List ScopeEvent)}
    (hnested : ∀ q ∈ items, Nested q.2) (hapart : SidesApart items) {b : Scoping}
    {a : Bool → Scoping} (hb : AtTop b) (ha : ∀ c, AtTop (a c))
    (hflags : ∀ c n, DeclaredOn c items n → flagsOf (a c) n = flagsOf b n)
    (hclash : b.clash = ((a true).clash || (a false).clash)) :
    ((items.flatMap Prod.snd).foldl step b).clash =
      (((side true items).foldl step (a true)).clash ||
        ((side false items).foldl step (a false)).clash) := by
  induction items generalizing a b with
  | nil => exact hclash
  | cons q items ih =>
    obtain ⟨c, es⟩ := q
    obtain ⟨hes, hitems⟩ := List.forall_mem_cons.1 hnested
    -- The side of the item goes on in step with the whole, and the other side waits.
    have hstep := inStep_foldl_step (M := DeclaredOn c ((c, es) :: items)) (ha c) hb hes id
      (fun n hn ↦ ⟨(c, es), List.mem_cons_self, rfl, hn⟩) (hflags c)
    rw [ScopeEvent.map_moved_id] at hstep
    obtain ⟨x, hx, hx'⟩ := hstep.clash
    have hrun : ∀ c', (side c' ((c, es) :: items)).foldl step (a c') =
        (side c' items).foldl step (Function.update a c (es.foldl step (a c)) c') := by
      intro c'
      rw [side_cons]
      by_cases hc : c = c'
      · subst hc
        rw [if_pos rfl, List.foldl_append, Function.update_self]
      · rw [if_neg hc, Function.update_of_ne (Ne.symm hc)]
    rw [List.flatMap_cons, List.foldl_append, hrun, hrun]
    refine ih hitems (fun r hr r' hr' ↦ hapart r (List.mem_cons_of_mem _ hr) r'
      (List.mem_cons_of_mem _ hr')) (hb.foldl_step hes) (fun c' ↦ ?_) (fun c' n hn ↦ ?_) ?_
    · by_cases hc : c' = c
      · subst hc
        rw [Function.update_self]
        exact (ha c').foldl_step hes
      · rw [Function.update_of_ne hc]
        exact ha c'
    · obtain ⟨r, hr, hrc, hrn⟩ := hn
      have hdeclared : DeclaredOn c' ((c, es) :: items) n :=
        ⟨r, List.mem_cons_of_mem _ hr, hrc, hrn⟩
      by_cases hc : c' = c
      · subst hc
        rw [Function.update_self]
        exact hstep.flags n hdeclared
      · have hne : n ∉ moduleNames [] es := fun hn ↦
          hapart (c, es) List.mem_cons_self r (List.mem_cons_of_mem _ hr)
            (fun h ↦ hc (hrc.symm.trans h.symm)) n hn hrn
        rw [Function.update_of_ne hc, flagsOf_foldl_step_of_not_mem hb hes hne]
        exact hflags c' n hdeclared
    · rw [hx', hclash]
      cases c
      · rw [Function.update_self, Function.update_of_ne (by decide), hx, Bool.or_assoc]
      · rw [Function.update_self, Function.update_of_ne (by decide), hx, Bool.or_right_comm]

/-- **Sides that declare different names clash only within themselves.** -/
theorem clash_sides (items : List (Bool × List ScopeEvent)) (hnested : ∀ q ∈ items, Nested q.2)
    (hapart : SidesApart items) :
    (alone (items.flatMap Prod.snd)).clash =
      ((alone (side true items)).clash || (alone (side false items)).clash) :=
  clash_foldl_sides hnested hapart (a := fun _ ↦ initial) atTop_initial (fun _ ↦ atTop_initial)
    (fun _ _ _ ↦ rfl) rfl

/-- Events after others that declare different names. -/
theorem clash_append {es fs : List ScopeEvent} (hes : Nested es) (hfs : Nested fs)
    (hapart : ∀ n ∈ moduleNames [] es, n ∉ moduleNames [] fs) :
    (alone (es ++ fs)).clash = ((alone es).clash || (alone fs).clash) := by
  have h := clash_sides [(true, es), (false, fs)] ?_ ?_
  · simpa [side] using h
  · simpa using ⟨hes, hfs⟩
  · intro q hq r hr hne n hn hn'
    simp only [List.mem_cons, List.not_mem_nil, or_false] at hq hr
    rcases hq with rfl | rfl <;> rcases hr with rfl | rfl
    · exact hne rfl
    · exact hapart n hn hn'
    · exact hapart n hn' hn
    · exact hne rfl

/-! ### Where items end -/

theorem clash_foldl_items {ess : List (List ScopeEvent)} (hess : ∀ es ∈ ess, Nested es)
    {a b : Scoping} (ha : AtTop a) (hb : AtTop b) (hflags : ∀ n, flagsOf a n = flagsOf b n)
    (hclash : a.clash = b.clash) :
    ((ess.flatMap fun es ↦ .item :: es).foldl step a).clash = (ess.flatten.foldl step b).clash := by
  induction ess generalizing a b with
  | nil => exact hclash
  | cons es ess ih =>
    obtain ⟨hes, hess⟩ := List.forall_mem_cons.1 hess
    have hstep := inStep_foldl_step (M := fun _ ↦ True) ha.item hb hes id (fun _ _ ↦ trivial)
      fun n _ ↦ hflags n
    rw [ScopeEvent.map_moved_id] at hstep
    obtain ⟨x, hx, hx'⟩ := hstep.clash
    rw [List.flatMap_cons, List.foldl_append, List.flatten_cons, List.foldl_append]
    refine ih hess (ha.item.foldl_step hes) (hb.foldl_step hes) (fun n ↦ hstep.flags n trivial) ?_
    exact hx.trans ((congrArg (· || x) hclash).trans hx'.symm)

theorem clash_settle (st : Scoping) : st.settle.clash = st.clash := by
  rw [settle]
  split <;> rfl

/-- **A module clashes as its events do**, wherever its items end. -/
theorem clash_ofEvents_eq {ess : List (List ScopeEvent)} (hess : ∀ es ∈ ess, Nested es) :
    (ofEvents (ess.flatMap fun es ↦ .item :: es)).clash = (alone ess.flatten).clash := by
  rw [ofEvents_flatMap, clash_settle]
  exact clash_foldl_items hess atTop_initial atTop_initial (fun _ ↦ rfl) rfl

end Scoping

end AppletBundle.Script
