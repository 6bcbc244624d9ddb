import AppletBundle.Text.Blank
import Mathlib.Data.List.DropRight

/-!
# Trimmed text

A text is its trimmed text with white space around it (`exists_blanks_trimStart`,
`exists_blanks_trimEnd`). White space at an end does not count (`trim_append_blanks`), and trimming
twice is trimming once (`trim_trim`).
-/

namespace AppletBundle.Text

theorem exists_blanks_trimStart (t : List Char) :
    ∃ blanks, (∀ c ∈ blanks, isBlank c) ∧ t = blanks ++ trimStart t :=
  ⟨t.takeWhile isBlank, fun _ hc ↦ List.mem_takeWhile_imp hc,
    List.takeWhile_append_dropWhile.symm⟩

theorem exists_blanks_trimEnd (t : List Char) :
    ∃ blanks, (∀ c ∈ blanks, isBlank c) ∧ t = trimEnd t ++ blanks := by
  refine ⟨(t.reverse.takeWhile isBlank).reverse, fun c hc ↦ ?_, ?_⟩
  · exact List.mem_takeWhile_imp (List.mem_reverse.1 hc)
  · rw [trimEnd, ← List.reverse_append, List.takeWhile_append_dropWhile, List.reverse_reverse]

theorem trim_isInfix (t : List Char) : trim t <:+: t := by
  obtain ⟨front, -, hfront⟩ := exists_blanks_trimStart t
  obtain ⟨back, -, hback⟩ := exists_blanks_trimEnd (trimStart t)
  exact ⟨front, back, by rw [trim, List.append_assoc, ← hback, ← hfront]⟩

theorem trimEnd_trimEnd (t : List Char) : trimEnd (trimEnd t) = trimEnd t :=
  List.rdropWhile_idempotent isBlank t

/-- Text that has no white space in front has none when its end is trimmed. -/
theorem trimStart_trim (t : List Char) : trimStart (trim t) = trim t := by
  have hprefix : trim t <+: trimStart t := by
    obtain ⟨blanks, -, hblanks⟩ := exists_blanks_trimEnd (trimStart t)
    exact ⟨blanks, hblanks.symm⟩
  rcases htrim : trim t with - | ⟨c, u⟩
  · rfl
  · rw [htrim] at hprefix
    obtain ⟨rest, hrest⟩ := hprefix
    have hstart : (trimStart t).head? = some c := by rw [← hrest]; rfl
    have hblank : isBlank c = false := by
      have hhead := List.head?_dropWhile_not isBlank t
      rw [show t.dropWhile isBlank = trimStart t from rfl, hstart] at hhead
      simpa using hhead
    exact List.dropWhile_cons_of_neg (by rw [hblank]; decide)

theorem trim_trim (t : List Char) : trim (trim t) = trim t := by
  rw [trim, trimStart_trim, trim, trimEnd_trimEnd]

/-! ### White space at the end -/

section Blanks

variable {blanks : List Char} (hblanks : ∀ c ∈ blanks, isBlank c)

include hblanks

theorem trimEnd_append_blanks (t : List Char) : trimEnd (t ++ blanks) = trimEnd t := by
  rw [trimEnd, List.reverse_append, List.dropWhile_append_of_pos]
  · rfl
  · exact fun c hc ↦ hblanks c (List.mem_reverse.1 hc)

theorem trim_append_blanks (t : List Char) : trim (t ++ blanks) = trim t := by
  have hnone : blanks.dropWhile isBlank = [] := List.dropWhile_eq_nil_iff.2 hblanks
  rw [trim, trim, trimStart, trimStart, List.dropWhile_append, hnone]
  split
  · rename_i hempty
    rw [List.isEmpty_iff.1 hempty]
  · exact trimEnd_append_blanks hblanks _

end Blanks

theorem trim_trimEnd (t : List Char) : trim (trimEnd t) = trim t := by
  obtain ⟨blanks, hblanks, ht⟩ := exists_blanks_trimEnd t
  conv_rhs => rw [ht, trim_append_blanks hblanks]

end AppletBundle.Text
