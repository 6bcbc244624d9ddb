import AppletBundle.Proofs.Files.Action
import AppletBundle.Proofs.Path.Parent

/-!
# Directories above a path

The location of a path is where its components lead (`FileTree.locationOf_eq`), so the locations of
the paths above it are where its segments pass through. Two things follow. To a path that leads to a
file the way is through directories (`hasDirectory_above`), and the directories that are made for a
path are its own and those above it (`of_entry?_makeDirectoriesWithin_ne`, by induction on the
depth).

A file that is written after the directory it lies in has been made is therefore all that is new,
but for the directories above it that were missing (`FileTree.Written`).
-/

namespace AppletBundle

namespace FileTree

variable {t t' : FileTree} {p q : Path} {l : Location}

/-! ### The way to a location -/

/-- Where a component leads from a location. -/
def resolve (l : Location) : Path.Component → Location
  | .root => []
  | .current => l
  | .parent => l.dropLast
  | .normal name => l ++ [name]

theorem foldl_resolveSegment (us : List (List Char)) (l : Location) :
    us.foldl resolveSegment l = (us.filterMap Path.ofSegment?).foldl resolve l := by
  induction us generalizing l with
  | nil => rfl
  | cons u us ih =>
    rw [List.foldl_cons, ih, List.filterMap_cons, resolveSegment, Path.ofSegment?]
    split
    · rfl
    · split <;> rfl

/-- **A path leads where its components lead.** -/
theorem locationOf_eq (t : FileTree) (p : Path) :
    t.locationOf p = p.components.foldl resolve t.workDir := by
  rw [locationOf, foldl_resolveSegment, Path.components_eq, List.foldl_append, Path.bodyComponents]
  congr 1
  rcases Path.head?_eq p.text.toList with h | h | h
  · have hrelative : ¬ p.isAbsolute := by rw [Path.isAbsolute_iff, h]; rintro ⟨⟩
    rw [if_neg hrelative, h]
    rfl
  · rw [if_pos (Path.isAbsolute_iff.2 h), h]
    rfl
  · have hrelative : ¬ p.isAbsolute := by rw [Path.isAbsolute_iff, h]; rintro ⟨⟩
    rw [if_neg hrelative, h]
    rfl

/-- **Segments pass through the locations of the paths above.** -/
theorem exists_segments_above (t : FileTree) (h : q.Above p) :
    ∃ us vs, vs ≠ [] ∧ Path.segments p.text.toList = us ++ vs ∧
      us.foldl resolveSegment (if p.isAbsolute then [] else t.workDir) = t.locationOf q := by
  obtain ⟨cs, hne, hroot, hp⟩ := h.exists_components_eq
  rw [Path.components_eq, Path.bodyComponents] at hp
  -- a part of the segments is cut off with the components that are left
  have hcut : ∀ as, (Path.segments p.text.toList).filterMap Path.ofSegment? = as ++ cs →
      as.foldl resolve (if p.isAbsolute then [] else t.workDir) = t.locationOf q →
      ∃ us vs, vs ≠ [] ∧ Path.segments p.text.toList = us ++ vs ∧
        us.foldl resolveSegment (if p.isAbsolute then [] else t.workDir) = t.locationOf q := by
    intro as has hlocation
    obtain ⟨us, vs, hsegments, rfl, rfl⟩ := List.filterMap_eq_append_iff.1 has
    refine ⟨us, vs, ?_, hsegments, ?_⟩
    · rintro rfl
      exact hne rfl
    · rw [foldl_resolveSegment, hlocation]
  rcases Path.head?_eq p.text.toList with hs | hs | hs
  · have hrelative : ¬ p.isAbsolute := by rw [Path.isAbsolute_iff, hs]; rintro ⟨⟩
    rw [hs] at hp
    exact hcut q.components hp (by rw [if_neg hrelative, locationOf_eq])
  · rw [hs] at hp
    rcases List.cons_eq_append_iff.1 hp with ⟨-, hcs⟩ | ⟨as, hq, has⟩
    · exact absurd (hcs ▸ List.mem_cons_self) hroot
    · refine hcut as has ?_
      rw [if_pos (Path.isAbsolute_iff.2 hs), locationOf_eq, hq]
      rfl
  · have hrelative : ¬ p.isAbsolute := by rw [Path.isAbsolute_iff, hs]; rintro ⟨⟩
    rw [hs] at hp
    rcases List.cons_eq_append_iff.1 hp with ⟨hq, -⟩ | ⟨as, hq, has⟩
    · refine ⟨[], _, Path.segments_ne_nil _, rfl, ?_⟩
      rw [if_neg hrelative, locationOf_eq, hq]
      rfl
    · refine hcut as has ?_
      rw [if_neg hrelative, locationOf_eq, hq]
      rfl

/-- Segments are followed through directories, unless they ask for a directory that is missing. -/
theorem hasDirectory_of_follow {us vs : List (List Char)} (hvs : vs ≠ []) {place : Place}
    (hplace : ∀ at_, place ≠ .missing at_ true) (h : t.follow l (us ++ vs) = .ok place) :
    t.hasDirectory (us.foldl resolveSegment l) := by
  induction us generalizing l with
  | nil =>
    obtain ⟨v, vs, rfl⟩ := List.exists_cons_of_ne_nil hvs
    rw [List.nil_append, follow] at h
    split at h
    · cases h
    · rename_i hdirectory
      simpa using hdirectory
  | cons u us ih =>
    rw [List.cons_append, follow] at h
    rw [List.foldl_cons, resolveSegment]
    split at h
    · cases h
    split at h
    · rename_i hidle
      rw [if_pos hidle]
      exact ih h
    rename_i hidle
    rw [if_neg hidle]
    split at h
    · rename_i hparent
      rw [if_pos hparent]
      exact ih h
    rename_i hparent
    rw [if_neg hparent]
    dsimp only at h
    split at h
    · exact ih h
    · split at h
      · cases h
        have hmore : (us ++ vs).isEmpty = false := by simp [hvs]
        exact absurd (by rw [hmore]; rfl) (hplace (l ++ [String.ofList u]))
      · cases h

/-- **The way to a file is through directories.** -/
theorem hasDirectory_above {place : Place} (hplace : ∀ at_, place ≠ .missing at_ true)
    (h : t.locate p = .ok place) (hq : q.Above p) : t.hasDirectory (t.locationOf q) := by
  obtain ⟨us, vs, hvs, hsegments, hlocation⟩ := exists_segments_above t hq
  have hfollow := follow_of_locate h
  rw [hsegments] at hfollow
  exact hlocation ▸ hasDirectory_of_follow hvs hplace hfollow

/-- A file is written where no directory is, in the directories above its path. -/
theorem hasDirectory_of_writeFile_eq_ok {content : FileContent}
    (h : t.writeFile p content = (.ok (), t')) : t.hasDirectory (t.locationOf p) = false ∧
      ∀ q, q.Above p → t.hasDirectory (t.locationOf q) := by
  obtain ⟨-, ⟨old, hplace⟩ | hplace⟩ := writeFile_eq_ok h
  · obtain ⟨-, he⟩ := isAt_of_locate hplace
    exact ⟨by rw [hasDirectory, he]; rfl, fun q ↦ hasDirectory_above (by rintro _ ⟨⟩) hplace⟩
  · obtain ⟨-, he, -⟩ := isAt_of_locate hplace
    exact ⟨by rw [hasDirectory, he]; rfl, fun q ↦ hasDirectory_above (by rintro _ ⟨⟩) hplace⟩

/-! ### Directories that are made -/

theorem of_entry?_makeDirectory_ne
    (h : FileTree.entry? (t.makeDirectory p).2 l ≠ t.entry? l) : l = t.locationOf p := by
  unfold makeDirectory at h
  rcases hplace : t.locate p with fault | ⟨at_, e⟩ | ⟨at_, asDirectory⟩
  · rw [hplace] at h
    exact absurd rfl h
  · rw [hplace] at h
    exact absurd rfl h
  · obtain ⟨rfl, -, hplaced⟩ := isAt_of_locate hplace
    by_contra hl
    rw [hplace] at h
    exact h ((lookup_set t hplaced.ne_nil .directory l).trans (if_neg hl))

theorem makeDirectoriesWithin_empty (depth : ℕ) (t : FileTree) :
    (makeDirectoriesWithin depth t ⟨""⟩).2 = t := by
  cases depth <;> rfl

/-- **The directories that are made for a path** are its own and those above it. -/
theorem of_entry?_makeDirectoriesWithin_ne {depth : ℕ}
    (h : FileTree.entry? (makeDirectoriesWithin depth t p).2 l ≠ t.entry? l) :
    ∃ q, (q = p ∨ q.Above p) ∧ l = t.locationOf q := by
  induction depth generalizing t p with
  | zero => exact absurd rfl h
  | succ depth ih =>
    -- what is new before the directory itself is made, is at a path above it
    have habove : ∀ t₁, (makeDirectoriesWithin depth t (p.parent?.getD ⟨""⟩)).2 = t₁ →
        t₁.entry? l ≠ t.entry? l → ∃ q, (q = p ∨ q.Above p) ∧ l = t.locationOf q := by
      rintro t₁ rfl hne
      rcases hparent : p.parent? with - | d
      · rw [hparent, Option.getD_none, makeDirectoriesWithin_empty] at hne
        exact absurd rfl hne
      · rw [hparent, Option.getD_some] at hne
        obtain ⟨q, hq, hl⟩ := ih hne
        exact ⟨q, .inr (Path.above_of_parent? hparent hq), hl⟩
    rw [makeDirectoriesWithin] at h
    split at h
    · exact absurd rfl h
    split at h
    · split at h
      · rename_i heq
        exact habove _ (by rw [heq]) h
      · rename_i t₁ heq
        have ht₁ : (makeDirectoriesWithin depth t (p.parent?.getD ⟨""⟩)).2 = t₁ := by rw [heq]
        split at h
        · exact habove t₁ ht₁ h
        · -- the location of the path is the same in the tree that has grown
          by_cases hmade : FileTree.entry? (t₁.makeDirectory p).2 l = t₁.entry? l
          · exact habove t₁ ht₁ (hmade ▸ h)
          · have hworkDir : t₁.workDir = t.workDir :=
              ht₁ ▸ (grown_makeDirectoriesWithin depth t _).workDir
            refine ⟨p, .inl rfl, (of_entry?_makeDirectory_ne hmade).trans ?_⟩
            rw [locationOf_eq, hworkDir, locationOf_eq]
    · exact absurd rfl h
    · exact ⟨p, .inl rfl, of_entry?_makeDirectory_ne h⟩

/-! ### Files with their directories -/

/-- In a tree a file has been written and the directories above it that were missing have been made,
and nothing else has been changed. -/
structure Written (t t' : FileTree) (p : Path) (content : FileContent) : Prop where
  workDir : t'.workDir = t.workDir
  isTree : t.IsTree → t'.IsTree
  /-- The file stands at the location of its path, where no directory was. -/
  file : t'.fileAt? (t.locationOf p) = some content
  not_hasDirectory : t.hasDirectory (t.locationOf p) = false
  /-- All paths above lead to directories now. -/
  above : ∀ q, q.Above p → t'.hasDirectory (t.locationOf q)
  /-- What else is new is one of these directories. -/
  entry_eq : ∀ l, l ≠ t.locationOf p → t'.entry? l = t.entry? l ∨
    (∃ q, q.Above p ∧ l = t.locationOf q) ∧ t.entry? l = none ∧ t'.entry? l = some .directory

end FileTree

namespace FileAction

open FileTree

variable {t t' t₁ : FileTree} {p : Path} {l : Location} {u : Unit}

theorem of_entry?_makeParent_ne (h : (makeParent p).runOn t = (.ok u, t'))
    (hl : t'.entry? l ≠ t.entry? l) : ∃ q, q.Above p ∧ l = t.locationOf q := by
  unfold makeParent at h
  split at h
  · obtain ⟨-, rfl⟩ := pure_eq_ok.1 h
    exact absurd rfl hl
  · rename_i d hparent
    have hmade : t' = (t.makeDirectories d).2 := by rw [blaming_eq_ok.1 h]
    rw [hmade] at hl
    obtain ⟨q, hq, hlocation⟩ := of_entry?_makeDirectoriesWithin_ne hl
    exact ⟨q, Path.above_of_parent? hparent hq, hlocation⟩

/-- **A file is written with the directories above it.** -/
theorem written_of_makeParent (hmade : (makeParent p).runOn t = (.ok u, t₁)) {text : String}
    (hwrite : (writeText p text).runOn t₁ = (.ok u, t')) : Written t t' p (.text text) := by
  have hgrown := grown_makeParent hmade
  have hlocation : ∀ q, t₁.locationOf q = t.locationOf q :=
    fun q ↦ by rw [locationOf_eq, hgrown.workDir, locationOf_eq]
  have hwrite := blaming_eq_ok.1 hwrite
  obtain ⟨rfl, -⟩ := writeFile_eq_ok hwrite
  obtain ⟨hfile, habove⟩ := hasDirectory_of_writeFile_eq_ok hwrite
  simp only [hlocation] at hfile habove ⊢
  have hentry := lookup_set t₁ (ne_nil_of_not_hasDirectory hfile) (.file (.text text))
  constructor
  · exact hgrown.workDir
  · intro ht
    obtain ⟨-, hplaced, -⟩ := of_writeFile_eq_ok (hgrown.isTree ht) hwrite
    rw [hlocation] at hplaced
    refine (hgrown.isTree ht).set hplaced fun hdirectory ↦ ?_
    rw [hfile] at hdirectory
    cases hdirectory
  · rw [fileAt?_eq_some_iff, hentry, if_pos rfl]
  · rw [Bool.eq_false_iff, Ne, hasDirectory_iff]
    intro hdirectory
    rw [hgrown.hasDirectory (hasDirectory_iff.2 hdirectory)] at hfile
    cases hfile
  · -- no path above leads to the file, since the way to it is through directories
    intro q hq
    have hne : t.locationOf q ≠ t.locationOf p := by
      intro heq
      rw [← heq, habove q hq] at hfile
      cases hfile
    rw [hasDirectory_iff, hentry, if_neg hne]
    exact hasDirectory_iff.1 (habove q hq)
  · intro l hl
    rw [hentry, if_neg hl]
    rcases hgrown.entry_eq l with heq | hnew
    · exact .inl heq
    · have hchanged : t₁.entry? l ≠ t.entry? l := by
        rw [hnew.1, hnew.2]
        rintro ⟨⟩
      exact .inr ⟨of_entry?_makeParent_ne hmade hchanged, hnew⟩

end FileAction

end AppletBundle
