import AppletBundle.Failure
import Mathlib.Logic.Relation

/-!
# Jobs that fork

A job asks for things to be done in a state that it shares with others, and forks into two jobs that
go on side by side until both are done. `Job.Step` takes one job of all those that are under way one
step further, so a chain of steps is a schedule, and every order of the requests on two sides of a
fork is one.

`Job.run` is the schedule that finishes the left side of every fork before it begins the right one.
When requests on different sides do not interfere (`Job.Independent`), every step leaves what this
schedule would come to as it is (`Job.run_eq_of_step`), since a step on the right can be moved
behind the whole left side (`Job.step_after_run`). So all schedules come to the same
(`Job.eq_run_of_steps`). None goes on forever (`Job.acc_step`), and each can be brought to an end
(`Job.steps_run`).
-/

namespace AppletBundle

/-- A job that comes to a value. `A r` are the answers to the request `r`. -/
inductive Job {R : Type} (A : R → Type) : Type → Type 1
  | done {α : Type} (a : α) : Job A α
  | ask {α : Type} (r : R) (next : A r → Job A α) : Job A α
  | fork {α β γ : Type} (left : Job A β) (right : Job A γ) (next : β → γ → Job A α) : Job A α

/-- What requests do to a shared state. -/
abbrev Handler {R : Type} (A : R → Type) (S : Type) : Type :=
  (r : R) → S → A r × S

namespace Job

variable {R : Type} {A : R → Type} {S : Type} {h : Handler A S} {α β γ : Type}

/-! ### Schedules -/

/-- One of the jobs under way is taken one step further. -/
inductive Step (h : Handler A S) : {α : Type} → S → Job A α → S → Job A α → Prop
  | ask {α : Type} (r : R) (next : A r → Job A α) (s : S) :
    Step h s (.ask r next) (h r s).2 (next (h r s).1)
  | left {α β γ : Type} {s s' : S} {l l' : Job A β} (r : Job A γ) (next : β → γ → Job A α)
    (hl : Step h s l s' l') : Step h s (.fork l r next) s' (.fork l' r next)
  | right {α β γ : Type} {s s' : S} (l : Job A β) {r r' : Job A γ} (next : β → γ → Job A α)
    (hr : Step h s r s' r') : Step h s (.fork l r next) s' (.fork l r' next)
  | join {α β γ : Type} (a : β) (b : γ) (next : β → γ → Job A α) (s : S) :
    Step h s (.fork (.done a) (.done b) next) s (next a b)

/-- One step of a state and a job in it. -/
def StepOf (h : Handler A S) (x y : S × Job A α) : Prop :=
  Step h x.1 x.2 y.1 y.2

/-- A schedule, from one state and job to another. -/
def Steps (h : Handler A S) : S × Job A α → S × Job A α → Prop :=
  Relation.ReflTransGen (StepOf h)

/-- The schedule that goes from left to right. -/
def run (h : Handler A S) : {α : Type} → Job A α → S → α × S
  | _, .done a, s => (a, s)
  | _, .ask r next, s => run h (next (h r s).1) (h r s).2
  | _, .fork l r next, s =>
    let left := run h l s
    let right := run h r left.2
    run h (next left.1 right.1) right.2

/-- One job after another. -/
def bind : {α β : Type} → Job A α → (α → Job A β) → Job A β
  | _, _, .done a, f => f a
  | _, _, .ask r next, f => .ask r fun x ↦ (next x).bind f
  | _, _, .fork l r next, f => .fork l r fun a b ↦ (next a b).bind f

theorem run_bind (j : Job A α) (f : α → Job A β) (s : S) :
    run h (j.bind f) s = run h (f (run h j s).1) (run h j s).2 := by
  induction j generalizing s with
  | done a => rfl
  | ask r next ih => exact ih _ f _
  | fork l r next _ _ ih => exact ih _ _ f _

/-- A job and, unless it fails, another. -/
def andThen (j : Job A (Outcome α)) (next : α → Job A (Outcome β)) : Job A (Outcome β) :=
  j.bind fun
    | .error f => .done (.error f)
    | .ok a => next a

/-- Jobs side by side. All come to their ends, and the first failure among them counts. -/
def all : List (Job A (Outcome α)) → Job A (Outcome (List α))
  | [] => .done (.ok [])
  | j :: js => .fork j (all js) fun x xs ↦ .done do return (← x) :: (← xs)

/-! ### Independence -/

/-- The requests that a job can come to make. -/
def Asks : {α : Type} → Job A α → R → Prop
  | _, .done _, _ => False
  | _, .ask r next, q => q = r ∨ ∃ x, Asks (next x) q
  | _, .fork l r next, q => Asks l q ∨ Asks r q ∨ ∃ a b, Asks (next a b) q

/-- Two requests have the same answers and effects in either order. -/
structure Commute (h : Handler A S) (q r : R) : Prop where
  state : ∀ s, (h r (h q s).2).2 = (h q (h r s).2).2
  left : ∀ s, (h q (h r s).2).1 = (h q s).1
  right : ∀ s, (h r (h q s).2).1 = (h r s).1

/-- Requests on different sides of a fork commute. -/
def Independent (h : Handler A S) : {α : Type} → Job A α → Prop
  | _, .done _ => True
  | _, .ask _ next => ∀ x, Independent h (next x)
  | _, .fork l r next =>
    Independent h l ∧ Independent h r ∧ (∀ q q', Asks l q → Asks r q' → Commute h q q') ∧
      ∀ a b, Independent h (next a b)

theorem asks_bind {j : Job A α} {f : α → Job A β} {q : R} (hq : Asks (j.bind f) q) :
    Asks j q ∨ ∃ a, Asks (f a) q := by
  induction j with
  | done a => exact Or.inr ⟨a, hq⟩
  | ask r next ih =>
    rcases hq with hq | ⟨x, hq⟩
    · exact Or.inl (Or.inl hq)
    · exact (ih x hq).imp_left fun hnext ↦ Or.inr ⟨x, hnext⟩
  | fork l r next _ _ ih =>
    rcases hq with hq | hq | ⟨a, b, hq⟩
    · exact Or.inl (Or.inl hq)
    · exact Or.inl (Or.inr (Or.inl hq))
    · exact (ih a b hq).imp_left fun hnext ↦ Or.inr (Or.inr ⟨a, b, hnext⟩)

theorem Independent.bind {j : Job A α} {f : α → Job A β} (hj : Independent h j)
    (hf : ∀ a, Independent h (f a)) : Independent h (j.bind f) := by
  induction j with
  | done a => exact hf a
  | ask r next ih => exact fun x ↦ ih x (hj x) hf
  | fork l r next _ _ ih =>
    obtain ⟨hleft, hright, hcommute, hnext⟩ := hj
    exact ⟨hleft, hright, hcommute, fun a b ↦ ih a b (hnext a b) hf⟩

theorem Asks.of_step {s s' : S} {j j' : Job A α} (hstep : Step h s j s' j') {q : R}
    (hq : Asks j' q) : Asks j q := by
  induction hstep with
  | ask r next s => exact Or.inr ⟨_, hq⟩
  | left r next _ ih => exact hq.imp_left ih
  | right l next _ ih => exact hq.imp_right (Or.imp_left ih)
  | join a b next s => exact Or.inr (Or.inr ⟨a, b, hq⟩)

theorem Independent.of_step {s s' : S} {j j' : Job A α} (hstep : Step h s j s' j')
    (hj : Independent h j) : Independent h j' := by
  induction hstep with
  | ask r next s => exact hj _
  | left r next hl ih =>
    obtain ⟨hleft, hright, hcommute, hnext⟩ := hj
    exact ⟨ih hleft, hright, fun q q' hq ↦ hcommute q q' (hq.of_step hl), hnext⟩
  | right l next hr ih =>
    obtain ⟨hleft, hright, hcommute, hnext⟩ := hj
    exact ⟨hleft, ih hright, fun q q' hq hq' ↦ hcommute q q' hq (hq'.of_step hr), hnext⟩
  | join a b next s => exact hj.2.2.2 a b

/-! ### All schedules come to the same -/

/-- A request that commutes with all of a job can be made before or after the job. -/
theorem run_after_request {q : R} {j : Job A α} (hq : ∀ r, Asks j r → Commute h r q) (s : S) :
    run h j (h q s).2 = ((run h j s).1, (h q (run h j s).2).2) ∧
      (h q (run h j s).2).1 = (h q s).1 := by
  induction j generalizing s with
  | done a => exact ⟨rfl, rfl⟩
  | ask r next ih =>
    have hcommute := hq r (Or.inl rfl)
    obtain ⟨hrun, hanswer⟩ :=
      ih (h r s).1 (fun r' hr' ↦ hq r' (Or.inr ⟨_, hr'⟩)) (h r s).2
    refine ⟨?_, hanswer.trans (hcommute.right s)⟩
    show run h (next (h r (h q s).2).1) (h r (h q s).2).2 = _
    rw [hcommute.left s, ← hcommute.state s]
    exact hrun
  | fork l r next ihl ihr ihnext =>
    obtain ⟨hl, hla⟩ := ihl (fun r' hr' ↦ hq r' (Or.inl hr')) s
    obtain ⟨hr, hra⟩ := ihr (fun r' hr' ↦ hq r' (Or.inr (Or.inl hr'))) (run h l s).2
    obtain ⟨hn, hna⟩ := ihnext (run h l s).1 (run h r (run h l s).2).1
      (fun r' hr' ↦ hq r' (Or.inr (Or.inr ⟨_, _, hr'⟩))) (run h r (run h l s).2).2
    refine ⟨?_, hna.trans (hra.trans hla)⟩
    show run h (next (run h l (h q s).2).1 (run h r (run h l (h q s).2).2).1)
      (run h r (run h l (h q s).2).2).2 = _
    rw [hl, hr]
    exact hn

/-- **A step on one side can be moved behind the whole other side.** -/
theorem step_after_run {l : Job A β} {s s' : S} {j j' : Job A α} (hstep : Step h s j s' j')
    (hcommute : ∀ q q', Asks l q → Asks j q' → Commute h q q') :
    Step h (run h l s).2 j (run h l s').2 j' ∧ (run h l s').1 = (run h l s).1 := by
  induction hstep with
  | ask r next s =>
    obtain ⟨hrun, hanswer⟩ := run_after_request (fun q hq ↦ hcommute q r hq (Or.inl rfl)) s
    rw [hrun]
    have hask := Step.ask (h := h) r next (run h l s).2
    rw [hanswer] at hask
    exact ⟨hask, rfl⟩
  | left r next _ ih =>
    obtain ⟨hleft, hvalue⟩ := ih fun q q' hq hq' ↦ hcommute q q' hq (Or.inl hq')
    exact ⟨.left r next hleft, hvalue⟩
  | right l' next _ ih =>
    obtain ⟨hright, hvalue⟩ := ih fun q q' hq hq' ↦ hcommute q q' hq (Or.inr (Or.inl hq'))
    exact ⟨.right l' next hright, hvalue⟩
  | join a b next s => exact ⟨.join a b next _, rfl⟩

/-- **No step changes what the rest of the schedule comes to.** -/
theorem run_eq_of_step {s s' : S} {j j' : Job A α} (hstep : Step h s j s' j')
    (hj : Independent h j) : run h j s = run h j' s' := by
  induction j generalizing s s' with
  | done a => cases hstep
  | ask r next ih =>
    cases hstep
    rfl
  | fork l r next ihl ihr _ =>
    obtain ⟨hleft, hright, hcommute, -⟩ := hj
    cases hstep with
    | left _ _ hl =>
      simp only [run, ihl hl hleft]
    | right _ _ hr =>
      obtain ⟨hr', hvalue⟩ := step_after_run hr hcommute
      simp only [run, ihr hr' hright, hvalue]
    | join a b _ _ => rfl

/-- **All schedules of independent jobs come to the same.** -/
theorem eq_run_of_steps {s s' : S} {j : Job A α} {a : α} (hj : Independent h j)
    (hsteps : Steps h (s, j) (s', .done a)) : run h j s = (a, s') := by
  have hall : ∀ x : S × Job A α, Steps h (s, j) x →
      Independent h x.2 ∧ run h x.2 x.1 = run h j s := by
    intro x hx
    induction hx with
    | refl => exact ⟨hj, rfl⟩
    | tail _ hstep ih => exact ⟨ih.1.of_step hstep, (run_eq_of_step hstep ih.1).symm.trans ih.2⟩
  exact (hall _ hsteps).2.symm

/-! ### Schedules end -/

theorem Steps.left {s s' : S} {l l' : Job A β} (hl : Steps h (s, l) (s', l')) (r : Job A γ)
    (next : β → γ → Job A α) : Steps h (s, .fork l r next) (s', .fork l' r next) := by
  have hall : ∀ x : S × Job A β, Steps h (s, l) x →
      Steps h (s, .fork l r next) (x.1, .fork x.2 r next) := by
    intro x hx
    induction hx with
    | refl => exact .refl
    | tail _ hstep ih => exact ih.tail (Step.left r next hstep)
  exact hall _ hl

theorem Steps.right {s s' : S} {r r' : Job A γ} (hr : Steps h (s, r) (s', r')) (l : Job A β)
    (next : β → γ → Job A α) : Steps h (s, .fork l r next) (s', .fork l r' next) := by
  have hall : ∀ x : S × Job A γ, Steps h (s, r) x →
      Steps h (s, .fork l r next) (x.1, .fork l x.2 next) := by
    intro x hx
    induction hx with
    | refl => exact .refl
    | tail _ hstep ih => exact ih.tail (Step.right l next hstep)
  exact hall _ hr

/-- **Every job can be brought to an end**: from left to right. -/
theorem steps_run (j : Job A α) (s : S) :
    Steps h (s, j) ((run h j s).2, .done (run h j s).1) := by
  induction j generalizing s with
  | done a => exact .refl
  | ask r next ih =>
    have hask : StepOf h (s, .ask r next) ((h r s).2, next (h r s).1) := Step.ask r next s
    exact (ih (h r s).1 (h r s).2).head hask
  | @fork α β γ l r next ihl ihr ihnext =>
    have hleft := (ihl s).left r next
    have hright := (ihr (run h l s).2).right (.done (run h l s).1) next
    have hjoin : StepOf h ((run h r (run h l s).2).2,
          .fork (.done (run h l s).1) (.done (run h r (run h l s).2).1) next)
        ((run h r (run h l s).2).2, next (run h l s).1 (run h r (run h l s).2).1) :=
      Step.join _ _ next _
    exact (hleft.trans hright).trans ((ihnext _ _ _).head hjoin)

/-- **No schedule goes on forever**, whatever happens to the state. -/
theorem acc_job (h : Handler A S) (j : Job A α) :
    Acc (fun k k' : Job A α ↦ ∃ s s', Step h s k' s' k) j := by
  induction j with
  | done a =>
    refine ⟨_, fun k hk ↦ ?_⟩
    obtain ⟨s, s', hstep⟩ := hk
    cases hstep
  | ask r next ih =>
    refine ⟨_, fun k hk ↦ ?_⟩
    obtain ⟨s, s', hstep⟩ := hk
    cases hstep
    exact ih _
  | fork l r next ihl ihr ihnext =>
    -- a step makes one side smaller and leaves the other, or both are done
    induction ihl generalizing r with
    | intro l hl ihl' =>
      induction ihr with
      | intro r hr ihr' =>
        refine ⟨_, fun k hk ↦ ?_⟩
        obtain ⟨s, s', hstep⟩ := hk
        cases hstep with
        | left _ _ hleft => exact ihl' _ ⟨s, s', hleft⟩ _ ⟨_, hr⟩
        | right _ _ hright => exact ihr' _ ⟨s, s', hright⟩
        | join a b _ _ => exact ihnext a b

theorem acc_step (h : Handler A S) (x : S × Job A α) : Acc (fun y x ↦ StepOf h x y) x := by
  have hsub : Subrelation (fun y x : S × Job A α ↦ StepOf h x y)
      (InvImage (fun k k' : Job A α ↦ ∃ s s', Step h s k' s' k) Prod.snd) :=
    fun {y x} hstep ↦ ⟨x.1, y.1, hstep⟩
  exact hsub.accessible (InvImage.accessible Prod.snd (acc_job h x.2))

/-! ### Views -/

/-- What one handler does to a state, another does to a view of it. -/
def Views {T : Type} (view : S → T) (h : Handler A S) (k : Handler A T) : Prop :=
  ∀ r s, (h r s).1 = (k r (view s)).1 ∧ view (h r s).2 = (k r (view s)).2

theorem Step.view {T : Type} {view : S → T} {k : Handler A T} (hview : Views view h k) {s s' : S}
    {j j' : Job A α} (hstep : Step h s j s' j') : Step k (view s) j (view s') j' := by
  induction hstep with
  | ask r next s =>
    obtain ⟨hanswer, hstate⟩ := hview r s
    rw [hanswer, hstate]
    exact .ask r next (view s)
  | left r next _ ih => exact .left r next ih
  | right l next _ ih => exact .right l next ih
  | join a b next s => exact .join a b next (view s)

/-- A schedule is one of the views, too. -/
theorem Steps.view {T : Type} {view : S → T} {k : Handler A T} (hview : Views view h k)
    {x y : S × Job A α} (hsteps : Steps h x y) : Steps k (view x.1, x.2) (view y.1, y.2) := by
  induction hsteps with
  | refl => exact .refl
  | tail _ hstep ih => exact ih.tail (Step.view hview hstep)

end Job

end AppletBundle
