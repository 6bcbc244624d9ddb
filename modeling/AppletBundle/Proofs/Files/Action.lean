import AppletBundle.Files.Action
import AppletBundle.Proofs.Files.Tree

/-!
# Results of actions on file trees

An action that succeeds went through all its steps (`FileAction.bind_eq_ok`), and what each of them
has done to the tree is known: directories have been added (`FileTree.Grown`), or a file stands at the
location of its path and nothing else is changed (`FileTree.Holding`).
-/

namespace AppletBundle

open FileTree

/-- A result that is known, with whatever comes with it. -/
theorem eq_ok_of_toOption {ε α σ : Type} {run : Except ε α × σ} {a : α}
    (h : run.1.toOption = some a) : run = (.ok a, run.2) := by
  obtain ⟨fault | b, t⟩ := run
  · cases h
  · rw [← Option.some.inj h]

namespace FileAction

variable {α β : Type} {t t' : FileTree}

/-! ### Steps -/

/-- **An action in two steps succeeds by both.** -/
theorem bind_eq_ok {action : FileAction α} {f : α → FileAction β} {b : β} :
    (action >>= f).runOn t = (.ok b, t') ↔
      ∃ a t₁, action.runOn t = (.ok a, t₁) ∧ (f a).runOn t₁ = (.ok b, t') := by
  have hbind : (action >>= f).runOn t =
      ExceptT.bindCont f (action.runOn t).1 (action.runOn t).2 := rfl
  rw [hbind]
  rcases action.runOn t with ⟨fault | a, t₁⟩
  · have hfails : ExceptT.bindCont f (.error fault) t₁ = (.error fault, t₁) := rfl
    simp [hfails]
  · have hgoes : ExceptT.bindCont f (.ok a) t₁ = (f a).runOn t₁ := rfl
    simp [hgoes]

theorem pure_eq_ok {a b : α} :
    (pure a : FileAction α).runOn t = (.ok b, t') ↔ a = b ∧ t = t' := by
  show ((.ok a, t) : Outcome α × FileTree) = _ ↔ _
  rw [Prod.mk.injEq, Except.ok.injEq]

theorem reading_eq_ok {f : FileTree → Outcome α} {a : α} :
    (reading f).runOn t = (.ok a, t') ↔ f t = .ok a ∧ t = t' := by
  show (f t, t) = _ ↔ _
  rw [Prod.mk.injEq]

theorem blaming_eq_ok {p : Path} {f : FileTree → Except FileFault α × FileTree} {a : α} :
    (blaming p f).runOn t = (.ok a, t') ↔ f t = (.ok a, t') := by
  show ((f t).1.mapError _, (f t).2) = _ ↔ _
  rcases f t with ⟨fault | a, t₁⟩ <;> simp [Except.mapError]

theorem mapM_nil_eq_ok {f : α → FileAction β} {bs : List β} :
    (([] : List α).mapM f).runOn t = (.ok bs, t') ↔ bs = [] ∧ t = t' := by
  rw [List.mapM_nil, pure_eq_ok, eq_comm]

theorem mapM_cons_eq_ok {f : α → FileAction β} {a : α} {as : List α} {bs : List β} :
    ((a :: as).mapM f).runOn t = (.ok bs, t') ↔ ∃ b t₁ bs', (f a).runOn t = (.ok b, t₁) ∧
      (as.mapM f).runOn t₁ = (.ok bs', t') ∧ bs = b :: bs' := by
  simp only [List.mapM_cons, bind_eq_ok, pure_eq_ok]
  constructor
  · rintro ⟨b, t₁, hb, bs', t₂, hbs, rfl, rfl⟩
    exact ⟨b, t₁, bs', hb, hbs, rfl⟩
  · rintro ⟨b, t₁, bs', hb, hbs, rfl⟩
    exact ⟨b, t₁, hb, bs', t', hbs, rfl, rfl⟩

/-! ### Writing -/

/-- Making the directory of a path adds directories. -/
theorem grown_makeParent {p : Path} {u : Unit} (h : (makeParent p).runOn t = (.ok u, t')) :
    Grown t t' := by
  unfold makeParent at h
  split at h
  · obtain ⟨-, rfl⟩ := pure_eq_ok.1 h
    exact .refl t
  · rename_i directory _
    have hgrown := grown_makeDirectories t directory
    rwa [blaming_eq_ok.1 h] at hgrown

end FileAction

/-- A tree in which a file has been written, and nothing else. -/
structure FileTree.Holding (t t' : FileTree) (l : Location) (content : FileContent) : Prop where
  workDir : t'.workDir = t.workDir
  isTree : t'.IsTree
  entry_eq : ∀ m, t'.entry? m = if m = l then some (.file content) else t.entry? m

namespace FileTree

variable {t t' : FileTree} {l : Location} {content : FileContent}

theorem Holding.fileAt? (h : Holding t t' l content) (m : Location) :
    t'.fileAt? m = if m = l then some content else t.fileAt? m := by
  by_cases hm : m = l
  · rw [if_pos hm, fileAt?_eq_some_iff, h.entry_eq, if_pos hm]
  · rw [if_neg hm]
    exact fileAt?_congr ((h.entry_eq m).trans (if_neg hm))

theorem holding_of_writeFile (ht : t.IsTree) {p : Path}
    (h : t.writeFile p content = (.ok (), t')) : Holding t t' (t.locationOf p) content := by
  obtain ⟨rfl, hplaced, hfile⟩ := of_writeFile_eq_ok ht h
  refine ⟨rfl, ht.set hplaced ?_, lookup_set t hplaced.ne_nil _⟩
  rw [hfile]
  rintro ⟨⟩

end FileTree

namespace FileAction

variable {t t' : FileTree}

/-- **A copied file has the content of the other**, if it is not that file. -/
theorem holding_of_copy (ht : t.IsTree) {source target : Path}
    (hne : t.locationOf source ≠ t.locationOf target) {u : Unit}
    (h : (copy source target).runOn t = (.ok u, t')) :
    ∃ content, t.fileAt? (t.locationOf source) = some content ∧
      Holding t t' (t.locationOf target) content := by
  replace h := blaming_eq_ok.1 h
  split at h
  · cases h
  split at h
  · cases h
  rename_i t₁ hemptied
  split at h
  · cases h
  rename_i content hread
  have hempty := holding_of_writeFile ht hemptied
  have hwritten := holding_of_writeFile hempty.isTree h
  have hlocation : ∀ p, t₁.locationOf p = t.locationOf p :=
    fun p ↦ by rw [locationOf, hempty.workDir, locationOf]
  refine ⟨content, ?_, ?_⟩
  · have hcontent := fileAt?_of_readContent hread
    rwa [hlocation, hempty.fileAt?, if_neg hne] at hcontent
  · rw [hlocation] at hwritten
    refine ⟨hwritten.workDir.trans hempty.workDir, hwritten.isTree, fun m ↦ ?_⟩
    rw [hwritten.entry_eq, hempty.entry_eq]
    split <;> rfl

/-! ### Walks -/

theorem walk_zero_eq_ok {α : Type} {lost : FileFault → Failure} {visit : Path → FileAction (List α)}
    {p : Path} {as : List α} :
    (walk lost visit 0 p).runOn t = (.ok as, t') ↔ as = [] ∧ t = t' := by
  rw [walk, pure_eq_ok, eq_comm]

/-- **A walk visits a file, or goes on with the names in a directory.** -/
theorem walk_succ_eq_ok {α : Type} {lost : FileFault → Failure} {visit : Path → FileAction (List α)}
    {depth : ℕ} {p : Path} {as : List α} :
    (walk lost visit (depth + 1) p).runOn t = (.ok as, t') ↔
      (t.list p = .ok .file ∧ (visit p).runOn t = (.ok as, t')) ∨
      ∃ names found, t.list p = .ok (.directory names) ∧
        (names.mapM fun name ↦ walk lost visit depth (p.join ⟨name⟩)).runOn t = (.ok found, t') ∧
        as = found.flatten := by
  have hfound : ∀ found, (t.list p).mapError lost = .ok found ↔ t.list p = .ok found := by
    intro found
    cases t.list p <;> simp [Except.mapError]
  simp only [walk, bind_eq_ok, reading_eq_ok, hfound]
  constructor
  · rintro ⟨found, t₁, ⟨hlist, rfl⟩, h⟩
    cases found with
    | file => exact .inl ⟨hlist, h⟩
    | directory names =>
      obtain ⟨ass, t₂, hnames, h⟩ := bind_eq_ok.1 h
      obtain ⟨rfl, rfl⟩ := pure_eq_ok.1 h
      exact .inr ⟨names, ass, hlist, hnames, rfl⟩
  · rintro (⟨hlist, h⟩ | ⟨names, ass, hlist, hnames, rfl⟩)
    · exact ⟨.file, t, ⟨hlist, rfl⟩, h⟩
    · exact ⟨.directory names, t, ⟨hlist, rfl⟩,
        bind_eq_ok.2 ⟨ass, t', hnames, pure_eq_ok.2 ⟨rfl, rfl⟩⟩⟩

end FileAction

end AppletBundle
