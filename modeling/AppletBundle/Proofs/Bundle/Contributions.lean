import AppletBundle.Bundle.Packaging
import AppletBundle.Proofs.Asset.Tree

/-!
# What trees contribute to a bundle

Packaging the components below a page gives lists of contributions that are merged level by level.
`packageComponents_spec` says what comes out in the end: the assets below the page in post-order,
each with its own output. From there on a bundle is a function of that list.

The contributions a page takes are the first ones of each identity. `firstOfIdentity` finds them
with a list of identities that it has seen; `firstOfIdentity_map_contribution` says that they are the
list without what repeats an identity.
-/

namespace AppletBundle

open AssetTree

/-! ### Results of work -/

namespace Work

theorem result_andThen {α β : Type} (w : Work α) (next : α → Work β) :
    (w.andThen next).result = w.result >>= fun a ↦ (next a).result := by
  rw [andThen]
  cases w.result <;> rfl

/-- What is made of the result of work needs no more work. -/
theorem andThen_done {α β : Type} (w : Work α) (f : α → β) :
    (w.andThen fun a ↦ .done (f a)) = ⟨w.result.map f, w.modules⟩ := by
  rw [andThen]
  rcases w.result with e | a
  · rfl
  · exact congrArg (Work.mk _) (List.append_nil _)

/-- Work is done together exactly if each piece is done. -/
theorem result_all_eq_ok {α : Type} {ws : List (Work α)} {xs : List α} :
    (all ws).result = .ok xs ↔ List.Forall₂ (fun w x ↦ w.result = .ok x) ws xs := by
  induction ws generalizing xs with
  | nil =>
    constructor
    · intro h
      cases h
      exact .nil
    · intro h
      cases h
      rfl
  | cons w ws ih =>
    have hall : (all (w :: ws)).result =
        w.result >>= fun x ↦ (all ws).result >>= fun xs ↦ .ok (x :: xs) := rfl
    rw [hall, Outcome.bind_eq_ok]
    constructor
    · rintro ⟨x, hx, h⟩
      obtain ⟨ys, hys, h⟩ := Outcome.bind_eq_ok.1 h
      cases h
      exact .cons hx (ih.1 hys)
    · intro h
      cases h with
      | cons hx hxs => exact ⟨_, hx, Outcome.bind_eq_ok.2 ⟨_, ih.2 hxs, rfl⟩⟩

end Work

namespace Packagers

variable (p : Packagers)

/-! ### The output of one asset -/

/-- The output of the modules of an asset itself, where packaging them succeeds. -/
def ownOutput (a : Asset) : Output :=
  match (p.packageOwn a).result with
  | .ok own => own.output
  | .error _ => .empty

/-- What an asset adds to the bundles that contain it. -/
def contribution (a : Asset) : Contribution :=
  ⟨a.identity, p.ownOutput a⟩

/-- Packaging the modules of an asset itself succeeds. -/
def Packages (a : Asset) : Prop :=
  ∃ own, (p.packageOwn a).result = .ok own ∧ own.output = p.ownOutput a

variable {p}

theorem ownOutput_eq {a : Asset} {own : PackagedAsset} (h : (p.packageOwn a).result = .ok own) :
    p.ownOutput a = own.output := by
  rw [ownOutput, h]

theorem Packages.of_eq_ok {a : Asset} {own : PackagedAsset}
    (h : (p.packageOwn a).result = .ok own) : p.Packages a :=
  ⟨own, h, (ownOutput_eq h).symm⟩

/-- The result for an asset is put together from those for its modules. -/
theorem packageOwn_eq_ok {a : Asset} {own : PackagedAsset}
    (h : (p.packageOwn a).result = .ok own) :
    ∃ markup script style, p.markupPart a = .ok markup ∧ (p.scriptPart a).result = .ok script ∧
      p.stylePart a = .ok style ∧
      own = ⟨a.id, ⟨terminated script.code, style, markup⟩, script.dependencies⟩ := by
  rw [packageOwn, Work.result_andThen, Outcome.bind_eq_ok] at h
  obtain ⟨markup, hmarkup, h⟩ := h
  rw [Work.result_andThen, Outcome.bind_eq_ok] at h
  obtain ⟨script, hscript, h⟩ := h
  obtain ⟨style, hstyle, rfl⟩ := Outcome.map_eq_ok.1 h
  exact ⟨markup, script, style, hmarkup, hscript, hstyle, rfl⟩

/-- The result for an asset carries its number. -/
theorem id_of_packageOwn {a : Asset} {own : PackagedAsset}
    (h : (p.packageOwn a).result = .ok own) : own.id = a.id := by
  obtain ⟨_, _, _, -, -, -, rfl⟩ := packageOwn_eq_ok h
  rfl

/-! ### The output of trees -/

/-- The number and the output of a result. -/
def numbered (x : PackagedAsset) : AssetId × Output :=
  (x.id, x.output)

variable (p) in
/-- `as` are components, packaging each succeeds, and `assets` and `contributions` hold the result
of each at its place. -/
structure Packaged (as : List Asset) (assets : List PackagedAsset)
    (contributions : List Contribution) : Prop where
  components : ∀ a ∈ as, a.IsComponent ∧ p.Packages a
  assets : assets.map numbered = as.map fun a ↦ (a.id, p.ownOutput a)
  contributions : contributions = as.map p.contribution

theorem Packaged.append {as bs : List Asset} {xs ys : List PackagedAsset}
    {cs ds : List Contribution} (h : p.Packaged as xs cs) (h' : p.Packaged bs ys ds) :
    p.Packaged (as ++ bs) (xs ++ ys) (cs ++ ds) where
  components a ha := (List.mem_append.1 ha).elim (h.components a) (h'.components a)
  assets := by rw [List.map_append, List.map_append, h.assets, h'.assets]
  contributions := by rw [List.map_append, h.contributions, h'.contributions]

mutual

/-- **A component and all below it contribute their own outputs in post-order.** -/
theorem packageComponent_spec {t : AssetTree} {sub : Subtree}
    (h : (p.packageComponent t).result = .ok sub) :
    p.Packaged t.postOrder sub.assets sub.contributions := by
  obtain ⟨a, ts⟩ := t
  rw [packageComponent] at h
  cases hk : a.kind with
  | component tag =>
    simp only [hk] at h
    rw [Work.result_andThen, Outcome.bind_eq_ok] at h
    obtain ⟨own, hown, h⟩ := h
    rw [Work.result_andThen, Outcome.bind_eq_ok] at h
    obtain ⟨below, hbelow, h⟩ := h
    cases h
    refine (packageComponents_spec (Work.result_all_eq_ok.1 hbelow)).append ⟨?_, ?_, ?_⟩
    · rintro b hb
      rw [List.mem_singleton] at hb
      exact hb ▸ ⟨⟨tag, hk⟩, .of_eq_ok hown⟩
    · rw [List.map_singleton, List.map_singleton, numbered, id_of_packageOwn hown,
        ownOutput_eq hown]
    · rw [List.map_singleton, contribution, ownOutput_eq hown]
  | app =>
    simp only [hk] at h
    cases h
  | page route =>
    simp only [hk] at h
    cases h

/-- The same for components next to each other. -/
theorem packageComponents_spec {ts : List AssetTree} {subs : List Subtree}
    (h : List.Forall₂ (fun w x ↦ w.result = .ok x) (p.packageComponents ts) subs) :
    p.Packaged (postOrderAll ts) (subs.flatMap Subtree.assets)
      (subs.flatMap Subtree.contributions) := by
  match ts with
  | [] =>
    rw [packageComponents] at h
    cases h
    exact ⟨fun _ ha ↦ absurd ha List.not_mem_nil, rfl, rfl⟩
  | t :: ts =>
    rw [packageComponents] at h
    cases h with
    | cons ht hts => exact (packageComponent_spec ht).append (packageComponents_spec hts)

end

/-! ### The first of each identity -/

/-- Assets in order without those that repeat the identity of an earlier one. -/
def firstsOfIdentity (as : List Asset) : List Asset :=
  as.eraseDupsBy fun a b ↦ a.identity == b.identity

/-- The contributions that a page takes are those of the first assets of each identity. -/
theorem firstOfIdentity_map_contribution (as : List Asset) (seen : List String) :
    firstOfIdentity seen (as.map p.contribution) =
      (firstsOfIdentity (as.filter fun a ↦ a.identity ∉ seen)).map p.contribution := by
  induction as generalizing seen with
  | nil => rfl
  | cons a as ih =>
    rw [List.map_cons, firstOfIdentity]
    by_cases ha : a.identity ∈ seen
    · rw [if_pos (by exact ha), ih, List.filter_cons_of_neg (by simpa using ha)]
    · have hfilter : (as.filter fun b ↦ b.identity ∉ seen).filter
          (fun b ↦ (b.identity == a.identity) = false) =
          as.filter fun b ↦ b.identity ∉ a.identity :: seen := by
        rw [List.filter_filter]
        refine List.filter_congr fun b _ ↦ ?_
        simp
      rw [if_neg (by exact ha), ih, List.filter_cons_of_pos (by simpa using ha), firstsOfIdentity,
        firstsOfIdentity, List.eraseDupsBy_cons, List.map_cons, hfilter]
      rfl

theorem firstsOfIdentity_cons (a : Asset) (as : List Asset) :
    firstsOfIdentity (a :: as) =
      a :: firstsOfIdentity (as.filter fun b ↦ (b.identity == a.identity) = false) := by
  rw [firstsOfIdentity, List.eraseDupsBy_cons, firstsOfIdentity]

/-- **Each identity among assets is that of exactly one of the firsts**, which is one of them. -/
theorem firstsOfIdentity_spec (as : List Asset) :
    ((firstsOfIdentity as).map Asset.identity).Nodup ∧ firstsOfIdentity as ⊆ as ∧
      ∀ a ∈ as, a.identity ∈ (firstsOfIdentity as).map Asset.identity := by
  induction hn : as.length using Nat.strongRecOn generalizing as with
  | _ n ih =>
    cases as with
    | nil => exact ⟨List.nodup_nil, List.Subset.refl _, fun _ ha ↦ absurd ha List.not_mem_nil⟩
    | cons a as =>
      have hlt : (as.filter fun b ↦ (b.identity == a.identity) = false).length < n :=
        hn ▸ Nat.lt_succ_of_le (List.length_filter_le _ _)
      obtain ⟨hnodup, hsub, hall⟩ := ih _ hlt _ rfl
      rw [firstsOfIdentity_cons, List.map_cons]
      refine ⟨List.nodup_cons.2 ⟨fun ha ↦ ?_, hnodup⟩, ?_, fun b hb ↦ ?_⟩
      · obtain ⟨b, hb, hid⟩ := List.mem_map.1 ha
        have hne := (List.mem_filter.1 (hsub hb)).2
        simp [hid] at hne
      · exact List.cons_subset_cons a (List.Subset.trans hsub List.filter_sublist.subset)
      · by_cases hid : b.identity = a.identity
        · exact hid ▸ List.mem_cons_self
        · have hb' : b ∈ as := (List.mem_cons.1 hb).resolve_left fun h ↦ hid (h ▸ rfl)
          exact List.mem_cons_of_mem _ (hall b (List.mem_filter.2 ⟨hb', by simpa using hid⟩))

/-- **The firsts are the assets that are found under their own identity.** -/
theorem mem_firstsOfIdentity_iff {as : List Asset} {a : Asset} :
    a ∈ firstsOfIdentity as ↔ as.find? (fun b ↦ b.identity == a.identity) = some a := by
  induction hn : as.length using Nat.strongRecOn generalizing as with
  | _ n ih =>
    cases as with
    | nil => exact ⟨fun h ↦ absurd h List.not_mem_nil, fun h ↦ (by cases h)⟩
    | cons b as =>
      have hlt : (as.filter fun c ↦ (c.identity == b.identity) = false).length < n :=
        hn ▸ Nat.lt_succ_of_le (List.length_filter_le _ _)
      rw [firstsOfIdentity_cons, List.mem_cons]
      by_cases hid : b.identity = a.identity
      · rw [List.find?_cons_of_pos (by simpa using hid), Option.some_inj]
        refine ⟨fun h ↦ h.elim Eq.symm fun ha ↦ ?_, fun h ↦ .inl h.symm⟩
        have hne := (List.mem_filter.1 ((firstsOfIdentity_spec _).2.1 ha)).2
        simp [hid] at hne
      · have hfind : ∀ c : Asset, (decide ((decide ((c.identity == b.identity) = false)) = true ∧
            (c.identity == a.identity) = true)) = (c.identity == a.identity) := by
          intro c
          by_cases hc : c.identity = a.identity
          · simp [hc, Ne.symm hid]
          · simp [hc]
        rw [List.find?_cons_of_neg (by simpa using hid), ih _ hlt rfl, List.find?_filter,
          funext hfind]
        exact or_iff_right fun h ↦ hid (h ▸ rfl)

/-- They keep their order. -/
theorem sublist_firstsOfIdentity (as : List Asset) : (firstsOfIdentity as).Sublist as := by
  induction hn : as.length using Nat.strongRecOn generalizing as with
  | _ n ih =>
    cases as with
    | nil => exact List.Sublist.refl []
    | cons a as =>
      have hlt : (as.filter fun b ↦ (b.identity == a.identity) = false).length < n :=
        hn ▸ Nat.lt_succ_of_le (List.length_filter_le _ _)
      rw [firstsOfIdentity_cons]
      exact ((ih _ hlt _ rfl).trans List.filter_sublist).cons_cons a

end Packagers

end AppletBundle
