import AppletBundle.Proofs.Project.Found
import AppletBundle.Proofs.Project.Loading

/-!
# Loading with a stack

Loading goes down by calls that share two things: the graph that grows, and a stack with the keys
from the page down to the base of the call. A call puts the key of every component it enters on the
stack and takes it off when the call for that component is back (`Runs`). `Runs` has no bound for
the depth: a derivation is a run that ends.

Every call finds a stack of different keys (`Runs.calls`) and leaves the one it has found
(`Runs.stack_eq`). Keys on the stack are keys of bases with modules, and there are finitely many of
these, so every call ends (`exists_runs`), and it ends as `loadComponents` does
(`Runs.eq_map_loadComponents`).
-/

namespace AppletBundle.Project

open AssetGraph

/-! ### Calls -/

/-- A call that adds what is declared at a base below an asset, with what it finds: the keys from the
page down to the base, and the graph. -/
structure Call where
  parent : AssetId
  base : Path
  stack : List String
  graph : AssetGraph

/-- Where a call stands: at its start, or in its loop before the declarations that are left. -/
inductive Point where
  | start
  | loop (rest : List (String × String))

/-- What a call leaves behind when it ends without a failure. -/
abbrev Left := AssetGraph × List String

namespace Call

/-- Enters the component that is declared, if its place leads anywhere: it is added, its key is put
on the stack, and what it declares itself is left to another call. -/
def enter (p : Project) (c : Call) (declared : String × String) : Outcome (Option Call) :=
  let (tag, place) := declared
  match resolveComponent? c.base place with
  | none => .ok none
  | some target => do
    let key := keyOf target
    if c.stack.contains key then
      invalidAt key ("component cycle: " ++ " -> ".intercalate (c.stack ++ [key]))
    else
      let siblings ← p.siblings target
      if !siblings.hasAny then
        invalidAt key
          ("component \u0060" ++ tag ++ "\u0060 declared by " ++ c.base.text ++
            " has no modules at " ++ target.text)
      else
        let (id, g) ←
          c.graph.addChild c.parent (.component tag) (contentIdentity key) target siblings
        .ok (some ⟨id, target, c.stack ++ [key], g⟩)

/-- The call after another that it has made is back: it goes on with the graph that this has left,
and takes the key on top off the stack. -/
def resume (c : Call) (left : Left) : Call :=
  { c with graph := left.1, stack := left.2.dropLast }

end Call

/-- `p.Runs c point r calls`: the call `c`, from a point on, ends with `r`, and `calls` have been
started on the way. -/
inductive Runs (p : Project) : Call → Point → Outcome Left → List Call → Prop
  | unread {c : Call} {f : Failure} (hm : p.unitManifest c.base = .error f) :
      Runs p c .start (.error f) [c]
  | read {c : Call} {m : UnitManifest} {r : Outcome Left} {calls : List Call}
      (hm : p.unitManifest c.base = .ok m)
      (hloop : Runs p c (.loop m.usingComponents.entries) r calls) : Runs p c .start r (c :: calls)
  | done {c : Call} : Runs p c (.loop []) (.ok (c.graph, c.stack)) []
  | pass {c : Call} {d : String × String} {ds : List (String × String)} {r : Outcome Left}
      {calls : List Call} (henter : c.enter p d = .ok none) (hrest : Runs p c (.loop ds) r calls) :
      Runs p c (.loop (d :: ds)) r calls
  | refuse {c : Call} {d : String × String} {ds : List (String × String)} {f : Failure}
      (henter : c.enter p d = .error f) : Runs p c (.loop (d :: ds)) (.error f) []
  | fail {c inner : Call} {d : String × String} {ds : List (String × String)} {f : Failure}
      {calls : List Call} (henter : c.enter p d = .ok (some inner))
      (hinner : Runs p inner .start (.error f) calls) : Runs p c (.loop (d :: ds)) (.error f) calls
  | back {c inner : Call} {d : String × String} {ds : List (String × String)} {left : Left}
      {r : Outcome Left} {calls later : List Call} (henter : c.enter p d = .ok (some inner))
      (hinner : Runs p inner .start (.ok left) calls)
      (hrest : Runs p (c.resume left) (.loop ds) r later) :
      Runs p c (.loop (d :: ds)) r (calls ++ later)

variable {p : Project}

/-! ### Entering a component -/

/-- What is known of a component that is entered. -/
structure Entered (p : Project) (c inner : Call) : Prop where
  stack_eq : inner.stack = c.stack ++ [keyOf inner.base]
  not_mem : keyOf inner.base ∉ c.stack
  found : keyOf inner.base ∈ p.foundKeys

namespace Call

theorem entered_of_enter {c inner : Call} {d : String × String}
    (h : c.enter p d = .ok (some inner)) : Entered p c inner := by
  obtain ⟨tag, place⟩ := d
  rw [enter] at h
  rcases hplace : resolveComponent? c.base place with - | target
  · simp only [hplace] at h
    cases h
  simp only [hplace] at h
  by_cases hstack : keyOf target ∈ c.stack
  · rw [if_pos (by simpa using hstack)] at h
    cases h
  rw [if_neg (by simpa using hstack)] at h
  obtain ⟨siblings, hfind, h⟩ := Outcome.bind_eq_ok.1 h
  by_cases hany : siblings.hasAny
  · rw [if_neg (by simp [hany])] at h
    obtain ⟨⟨id, g⟩, -, h⟩ := Outcome.bind_eq_ok.1 h
    obtain rfl := Option.some.inj (Except.ok.inj h)
    exact ⟨rfl, hstack, target, siblings, hfind, hany, rfl⟩
  · rw [if_pos (by simp [hany])] at h
    cases h

/-- Adding a component is entering it and then adding what lies below. -/
theorem loadComponent_eq_enter (p : Project) (descend : Descent) (c : Call)
    (d : String × String) :
    loadComponent p.siblings descend c.parent c.base c.stack c.graph d =
      c.enter p d >>= fun
        | none => .ok c.graph
        | some inner => descend inner.parent inner.base inner.stack inner.graph := by
  obtain ⟨tag, place⟩ := d
  rw [loadComponent, enter]
  rcases resolveComponent? c.base place with - | target
  · rfl
  simp only
  split
  · rfl
  rcases p.siblings target with f | siblings
  · rfl
  show ite _ _ _ = (ite _ _ _ : Outcome _) >>= _
  split
  · rfl
  rcases c.graph.addChild c.parent (.component tag) (contentIdentity (keyOf target)) target
    siblings with f | ⟨id, g⟩ <;> rfl

end Call

/-! ### The stack -/

namespace Runs

variable {c : Call} {point : Point} {r : Outcome Left} {calls : List Call}

/-- **A call leaves the stack that it has found.** -/
theorem stack_eq {left : Left} (h : p.Runs c point r calls) (hr : r = .ok left) :
    left.2 = c.stack := by
  induction h generalizing left with
  | unread | refuse | fail => cases hr
  | done =>
    cases hr
    rfl
  | read _ _ ih | pass _ _ ih => exact ih hr
  | back henter _ _ ihinner ih =>
    rw [ih hr, Call.resume, ihinner rfl, (Call.entered_of_enter henter).stack_eq,
      List.dropLast_concat]

/-- The call before which another is back goes on as it was, but for the graph. -/
theorem resume_eq {inner : Call} {d : String × String} {left : Left}
    (henter : c.enter p d = .ok (some inner)) (h : p.Runs inner .start (.ok left) calls) :
    c.resume left = { c with graph := left.1 } := by
  rw [Call.resume, h.stack_eq rfl, (Call.entered_of_enter henter).stack_eq, List.dropLast_concat]

/-- **Every call finds different keys on the stack**: those that the first call has found, and below
them the keys that lead to its base. -/
theorem calls_stack (h : p.Runs c point r calls) (hnodup : c.stack.Nodup)
    (htop : c.stack.getLast? = some (keyOf c.base)) :
    ∀ later ∈ calls, c.stack <+: later.stack ∧ later.stack.Nodup ∧
      later.stack.getLast? = some (keyOf later.base) := by
  -- the stack of a component that is entered has one more key, and that is new
  have hinner : ∀ {c inner : Call} {d : String × String}, c.enter p d = .ok (some inner) →
      c.stack.Nodup → c.stack <+: inner.stack ∧ inner.stack.Nodup ∧
        inner.stack.getLast? = some (keyOf inner.base) := by
    intro c inner d henter hnodup
    have hentered := Call.entered_of_enter henter
    rw [hentered.stack_eq]
    exact ⟨List.prefix_append _ _,
      List.concat_eq_append ▸ List.Nodup.concat hentered.not_mem hnodup, List.getLast?_concat⟩
  induction h with
  | unread =>
    intro later hmem
    rw [List.mem_singleton.1 hmem]
    exact ⟨List.prefix_rfl, hnodup, htop⟩
  | read _ _ ih =>
    intro later hmem
    rcases List.mem_cons.1 hmem with rfl | hmem
    · exact ⟨List.prefix_rfl, hnodup, htop⟩
    · exact ih hnodup htop later hmem
  | done | refuse => exact fun _ hmem ↦ absurd hmem List.not_mem_nil
  | pass _ _ ih => exact ih hnodup htop
  | fail henter _ ih =>
    obtain ⟨hopens, hnodup', htop'⟩ := hinner henter hnodup
    exact fun later hmem ↦ (ih hnodup' htop' later hmem).imp_left hopens.trans
  | @back _ _ _ _ _ _ calls later henter hback _ ihinner ih =>
    obtain ⟨hopens, hnodup', htop'⟩ := hinner henter hnodup
    rw [resume_eq henter hback] at ih
    intro call hmem
    rcases List.mem_append.1 hmem with hmem | hmem
    · exact (ihinner hnodup' htop' call hmem).imp_left hopens.trans
    · exact ih hnodup htop call hmem

end Runs

/-! ### Every call ends -/

/-- The number of keys that can still come onto a stack. -/
noncomputable def keysLeft (p : Project) (stack : List String) : ℕ :=
  (p.foundKeys \ {key | key ∈ stack}).ncard

theorem keysLeft_le (p : Project) (stack : List String) : p.keysLeft stack ≤ p.foundKeys.ncard :=
  Set.ncard_le_ncard Set.sdiff_subset p.finite_foundKeys

/-- **A component that is entered uses up one of the keys.** -/
theorem Entered.keysLeft_lt {c inner : Call} (h : Entered p c inner) :
    p.keysLeft inner.stack < p.keysLeft c.stack := by
  refine Set.ncard_lt_ncard ?_ (p.finite_foundKeys.subset Set.sdiff_subset)
  rw [h.stack_eq]
  refine ⟨fun key hkey ↦ ⟨hkey.1, fun hmem ↦ hkey.2 (List.mem_append_left _ hmem)⟩, fun hsub ↦ ?_⟩
  exact (hsub ⟨h.found, h.not_mem⟩).2 (List.mem_append_right _ (List.mem_singleton.2 rfl))

/-- The loop of a call ends if the calls for components do. -/
theorem exists_runs_loop {n : ℕ}
    (hcalls : ∀ inner : Call, p.keysLeft inner.stack < n → ∃ r calls, p.Runs inner .start r calls)
    (ds : List (String × String)) (c : Call) (hc : p.keysLeft c.stack ≤ n) :
    ∃ r calls, p.Runs c (.loop ds) r calls := by
  induction ds generalizing c with
  | nil => exact ⟨_, _, .done⟩
  | cons d ds ih =>
    rcases henter : c.enter p d with f | - | inner
    · exact ⟨_, _, .refuse henter⟩
    · obtain ⟨r, calls, hrest⟩ := ih c hc
      exact ⟨r, calls, .pass henter hrest⟩
    · have hlt := Nat.lt_of_lt_of_le (Call.entered_of_enter henter).keysLeft_lt hc
      obtain ⟨f | left, calls, hinner⟩ := hcalls inner hlt
      · exact ⟨_, _, .fail henter hinner⟩
      · obtain ⟨r, later, hrest⟩ := ih (c.resume left) (Runs.resume_eq henter hinner ▸ hc)
        exact ⟨r, _, .back henter hinner hrest⟩

/-- **Every call ends**, whatever is declared. -/
theorem exists_runs (p : Project) (c : Call) : ∃ r calls, p.Runs c .start r calls := by
  induction hn : p.keysLeft c.stack using Nat.strongRecOn generalizing c with
  | _ n ih =>
    rcases hm : p.unitManifest c.base with f | m
    · exact ⟨_, _, .unread hm⟩
    · obtain ⟨r, calls, hloop⟩ := exists_runs_loop (fun inner hinner ↦ ih _ hinner inner rfl)
        m.usingComponents.entries c (Nat.le_of_eq hn)
      exact ⟨r, _, .read hm hloop⟩

/-! ### Loading within a depth -/

/-- What is loaded from a point of a call on, where components are entered down to a depth. -/
def Point.load (p : Project) (depth : ℕ) (c : Call) : Point → Outcome AssetGraph
  | .start => p.loadComponents (depth + 1) c.parent c.base c.stack c.graph
  | .loop ds =>
    ds.foldlM (loadComponent p.siblings (p.loadComponents depth) c.parent c.base c.stack) c.graph

/-- A run and loading within a depth come to the same, if the depth is enough for all keys that can
come onto the stack. -/
theorem Runs.load_eq {c : Call} {point : Point} {r : Outcome Left} {calls : List Call}
    (h : p.Runs c point r calls) {depth : ℕ} (hdepth : p.keysLeft c.stack ≤ depth) :
    point.load p depth c = r.map Prod.fst := by
  -- a component is loaded within a depth that is smaller by one
  have hlower : ∀ {c inner : Call} {d : String × String} {depth : ℕ},
      c.enter p d = .ok (some inner) → p.keysLeft c.stack ≤ depth →
      ∃ n, depth = n + 1 ∧ p.keysLeft inner.stack ≤ n := by
    intro c inner d depth henter hdepth
    have hlt := Nat.lt_of_lt_of_le (Call.entered_of_enter henter).keysLeft_lt hdepth
    exact ⟨depth - 1, by omega, by omega⟩
  induction h generalizing depth with
  | unread hm =>
    rw [Point.load, loadComponents, hm]
    rfl
  | read hm _ ih =>
    rw [Point.load, loadComponents, hm]
    exact ih hdepth
  | done => rfl
  | pass henter _ ih =>
    rw [Point.load, List.foldlM_cons, Call.loadComponent_eq_enter, henter]
    exact ih hdepth
  | refuse henter =>
    rw [Point.load, List.foldlM_cons, Call.loadComponent_eq_enter, henter]
    rfl
  | @fail c inner _ _ f _ henter _ ih =>
    obtain ⟨n, rfl, hn⟩ := hlower henter hdepth
    have hinner : p.loadComponents (n + 1) inner.parent inner.base inner.stack inner.graph =
        .error f := ih hn
    rw [Point.load, List.foldlM_cons, Call.loadComponent_eq_enter, henter]
    show (p.loadComponents (n + 1) inner.parent inner.base inner.stack inner.graph >>= _) = _
    rw [hinner]
    rfl
  | @back c inner _ ds left r _ _ henter hback _ ihinner ih =>
    obtain ⟨n, rfl, hn⟩ := hlower henter hdepth
    have hinner : p.loadComponents (n + 1) inner.parent inner.base inner.stack inner.graph =
        .ok left.1 := ihinner hn
    rw [resume_eq henter hback] at ih
    rw [Point.load, List.foldlM_cons, Call.loadComponent_eq_enter, henter]
    show (p.loadComponents (n + 1) inner.parent inner.base inner.stack inner.graph >>= _) = _
    rw [hinner]
    exact ih hdepth

theorem Runs.loadComponents_eq {c : Call} {r : Outcome Left} {calls : List Call}
    (h : p.Runs c .start r calls) :
    p.loadComponents depthBound c.parent c.base c.stack c.graph = r.map Prod.fst := by
  have hbound := p.ncard_foundKeys_lt
  obtain ⟨depth, hdepth⟩ := Nat.exists_eq_add_one.2 (Nat.zero_lt_of_lt hbound)
  rw [hdepth] at hbound ⊢
  exact h.load_eq ((p.keysLeft_le c.stack).trans (Nat.le_of_lt_succ hbound))

/-- **A call ends as loading does**, with the stack that it has found. -/
theorem Runs.eq_map_loadComponents {c : Call} {r : Outcome Left} {calls : List Call}
    (h : p.Runs c .start r calls) :
    r = (p.loadComponents depthBound c.parent c.base c.stack c.graph).map fun g ↦ (g, c.stack) := by
  rw [h.loadComponents_eq]
  rcases r with f | ⟨g, stack⟩
  · rfl
  · obtain rfl := h.stack_eq rfl
    rfl

end AppletBundle.Project
