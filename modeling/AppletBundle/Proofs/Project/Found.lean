import AppletBundle.Project.Loading
import Mathlib.Data.Set.Card
import Mathlib.Data.Fintype.BigOperators

/-!
# Bases with modules

There is no end to the bases that a manifest can name, and several of them can lead to one file. But
a base with modules stands in the path of a file, and paths are followed only up to a length
(`length_le_of_hasAny`). There are finitely many texts of that length, and `depthBound` counts them:
at each place such a text has a character or has ended (`Text.ncard_short_le`). So the keys of bases
with modules are fewer than the components that loading puts on a chain at most
(`ncard_foundKeys_lt`).
-/

namespace AppletBundle

/-! ### Short texts -/

namespace Text

/-- What stands at each of the first `n` places of a text. -/
def places (n : ℕ) (s : String) : Fin n → Option (Fin Char.numCodePoints) :=
  fun i ↦ s.toList[i]?.map Char.ordinal

/-- Texts of at most `n` characters are told apart by `n` places. -/
theorem places_injOn (n : ℕ) : Set.InjOn (places n) {s | s.toList.length ≤ n} := by
  intro s hs t ht h
  refine String.toList_inj.1 (List.ext_getElem? fun i ↦ ?_)
  by_cases hi : i < n
  · exact Option.map_injective Char.ordinal_injective (congrFun h ⟨i, hi⟩)
  · have hle : n ≤ i := Nat.le_of_not_lt hi
    rw [List.getElem?_eq_none (Nat.le_trans hs hle), List.getElem?_eq_none (Nat.le_trans ht hle)]

theorem finite_short (n : ℕ) : {s : String | s.toList.length ≤ n}.Finite :=
  Set.Finite.of_injOn (Set.mapsTo_univ _ _) (places_injOn n) Set.finite_univ

theorem ncard_short_le (n : ℕ) :
    {s : String | s.toList.length ≤ n}.ncard ≤ (Char.numCodePoints + 1) ^ n := by
  have hle := Set.ncard_le_ncard_of_injOn (places n) (fun _ _ ↦ Set.mem_univ _) (places_injOn n)
    Set.finite_univ
  rwa [Set.ncard_univ, Nat.card_eq_fintype_card, Fintype.card_fun, Fintype.card_option,
    Fintype.card_fin, Fintype.card_fin] at hle

theorem length_le_utf8ByteSize (s : String) : s.toList.length ≤ s.utf8ByteSize := by
  rw [← String.ofList_toList (s := s), String.toList_ofList]
  generalize s.toList = cs
  induction cs with
  | nil => exact Nat.zero_le _
  | cons c cs ih =>
    rw [String.ofList_cons, String.utf8ByteSize_append, String.utf8ByteSize_singleton,
      List.length_cons, Nat.add_comm]
    exact Nat.add_le_add c.utf8Size_pos ih

end Text

/-! ### Paths of files -/

theorem FileTree.utf8ByteSize_le_of_isFile {t : FileTree} {q : Path} (h : t.isFile q) :
    q.text.utf8ByteSize ≤ longestPath := by
  by_contra hlong
  have hlocate : t.locate q = .error .notFound := if_pos (Nat.lt_of_not_le hlong)
  rw [isFile, get, hlocate] at h
  cases h

theorem Path.utf8ByteSize_le_join (p q : Path) :
    q.text.utf8ByteSize ≤ (p.join q).text.utf8ByteSize := by
  rw [join]
  split
  · exact Nat.le_refl _
  · split <;> simp only [String.utf8ByteSize_append] <;> omega

theorem Path.length_le_withExtension (base : Path) (extension : String) :
    base.text.toList.length ≤ (base.withExtension extension).text.utf8ByteSize := by
  refine Nat.le_trans (Text.length_le_utf8ByteSize base.text) ?_
  simp only [withExtension, String.utf8ByteSize_append]
  omega

namespace Project

variable {p : Project} {base : Path}

/-! ### Bases -/

theorem isFile_of_sourceModule {kind : ModuleKind} {m : SourceModule}
    (h : p.sourceModule base kind = .ok (some m)) :
    p.files.isFile (p.root.join (base.withExtension (p.extensions.ofKind kind))) := by
  obtain ⟨source, hread, hsource⟩ := Outcome.bind_eq_ok.1 h
  by_contra hfile
  have hnone : p.readOptional (base.withExtension (p.extensions.ofKind kind)) = .ok none :=
    if_neg hfile
  rw [hnone] at hread
  cases hread
  cases hsource

/-- A base with modules has one of some kind. -/
theorem exists_sourceModule {s : SiblingModules} (h : p.siblings base = .ok s) (hany : s.hasAny) :
    ∃ kind m, p.sourceModule base kind = .ok (some m) := by
  obtain ⟨source, hsource, h⟩ := Outcome.bind_eq_ok.1 h
  obtain ⟨script, hscript, h⟩ := Outcome.bind_eq_ok.1 h
  obtain ⟨markup, hmarkup, h⟩ := Outcome.bind_eq_ok.1 h
  obtain ⟨style, hstyle, h⟩ := Outcome.bind_eq_ok.1 h
  obtain rfl := Except.ok.inj h
  rcases source with - | m
  · obtain rfl := Except.ok.inj hscript
    rcases markup with - | m
    · rcases style with - | m
      · cases hany
      · exact ⟨.style, m, hstyle⟩
    · exact ⟨.markup, m, hmarkup⟩
  · exact ⟨.script, m, hsource⟩

/-- **A base with modules is short**, as it stands in the path of a file. -/
theorem length_le_of_hasAny {s : SiblingModules} (h : p.siblings base = .ok s) (hany : s.hasAny) :
    base.text.toList.length ≤ FileTree.longestPath := by
  obtain ⟨kind, m, hm⟩ := exists_sourceModule h hany
  exact Nat.le_trans (base.length_le_withExtension _)
    (Nat.le_trans (p.root.utf8ByteSize_le_join _)
      (FileTree.utf8ByteSize_le_of_isFile (isFile_of_sourceModule hm)))

/-- The keys of the bases with modules. -/
def foundKeys (p : Project) : Set String :=
  {key | ∃ base s, p.siblings base = .ok s ∧ s.hasAny ∧ keyOf base = key}

theorem foundKeys_subset (p : Project) :
    p.foundKeys ⊆ (fun text ↦ keyOf ⟨text⟩) '' {s | s.toList.length ≤ FileTree.longestPath} := by
  rintro _ ⟨base, s, hs, hany, rfl⟩
  exact ⟨base.text, length_le_of_hasAny hs hany, rfl⟩

theorem finite_foundKeys (p : Project) : p.foundKeys.Finite :=
  ((Text.finite_short _).image _).subset p.foundKeys_subset

/-- **Fewer keys are found than components can lie on a chain.** -/
theorem ncard_foundKeys_lt (p : Project) : p.foundKeys.ncard < depthBound := by
  have hfinite := Text.finite_short FileTree.longestPath
  have hle := (Set.ncard_le_ncard p.foundKeys_subset (hfinite.image _)).trans
    ((Set.ncard_image_le hfinite).trans (Text.ncard_short_le FileTree.longestPath))
  rw [depthBound, Nat.pow_eq]
  -- the number is only compared, it is too large to be computed
  generalize (Char.numCodePoints + 1) ^ FileTree.longestPath = bound at hle ⊢
  exact Nat.lt_succ_of_le hle

end Project

end AppletBundle
