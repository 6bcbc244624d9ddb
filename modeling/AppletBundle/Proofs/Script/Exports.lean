import AppletBundle.Proofs.Script.Annotation
import Mathlib.Data.List.Nodup

/-!
# Exported names

The parser refuses a source that exports a name twice, so there is one default export at most.
-/

namespace AppletBundle.Script

namespace Parser

theorem repeatedName?_eq_none {seen names : List String} (h : repeatedName? seen names = none) :
    names.Nodup ∧ ∀ name ∈ names, name ∉ seen := by
  induction names generalizing seen with
  | nil => exact ⟨List.nodup_nil, by simp⟩
  | cons name names ih =>
    rw [repeatedName?] at h
    split at h
    · cases h
    · rename_i hseen
      obtain ⟨hnodup, hnot⟩ := ih h
      refine ⟨List.nodup_cons.2 ⟨fun hmem ↦ hnot name hmem List.mem_cons_self, hnodup⟩,
        List.forall_mem_cons.2 ⟨by simpa using hseen, fun n hn hs ↦ ?_⟩⟩
      exact hnot n hn (List.mem_cons_of_mem _ hs)

theorem bind_eq_ok {α β : Type} {x : Parser α} {f : α → Parser β} {c : Cursor} {r : β × Cursor} :
    (x >>= f) c = .ok r ↔ ∃ a c', x c = .ok (a, c') ∧ f a c' = .ok r := by
  change (Except.bind (x c) fun a ↦ f a.1 a.2) = .ok r ↔ _
  cases x c with
  | error e => simp [Except.bind]
  | ok a =>
    obtain ⟨a, c'⟩ := a
    simp [Except.bind]

theorem fail_ne_ok {α : Type} (expected : String) (c : Cursor) (r : α × Cursor) :
    (fail expected : Parser α) c ≠ .ok r := by
  intro h
  cases h

theorem nodup_exportedNames_of_program {g : Grammar} {hashbang : Option String} {c c' : Cursor}
    {p : Program} (h : program g hashbang c = .ok (p, c')) :
    (p.items.flatMap fun i ↦ exportedNames i.node).Nodup := by
  rw [program, bind_eq_ok] at h
  obtain ⟨⟨directives, first⟩, c₁, -, h⟩ := h
  rw [bind_eq_ok] at h
  obtain ⟨rest, c₂, -, h⟩ := h
  rw [bind_eq_ok] at h
  obtain ⟨c₃, c₄, -, h⟩ := h
  cases hdefaults : c₃.defaults with
  | cons d ds =>
    simp only [hdefaults] at h
    cases h
  | nil =>
    cases hrepeated : repeatedName? [] ((first ++ rest).flatMap fun i ↦ exportedNames i.node) with
    | some name =>
      simp only [hdefaults, hrepeated] at h
      exact absurd h (fail_ne_ok _ _ _)
    | none =>
      simp only [hdefaults, hrepeated] at h
      cases h
      exact (repeatedName?_eq_none hrepeated).1

end Parser

/-- **A script exports no name twice.** -/
theorem nodup_exportedNames {source : String} {p : Program} (h : parseScript source = .ok p) :
    (p.items.flatMap fun i ↦ Parser.exportedNames i.node).Nodup := by
  simp only [parseScript] at h
  cases hp : Parser.program (Parser.grammar (8 * source.toList.length + 64))
      (Parser.splitHashbang source.toList).1
      (Cursor.ofText (Parser.splitHashbang source.toList).2.1
        (Parser.splitHashbang source.toList).2.2) with
  | error e => simp [hp, Except.map] at h
  | ok r =>
    simp only [hp, Except.map] at h
    cases h
    exact Parser.nodup_exportedNames_of_program hp

theorem default_mem_exportedNames {innerStart start : ℕ} (n : Node)
    (h : (n.classify innerStart).1 = .defaultExpression start) :
    "default" ∈ Parser.exportedNames n := by
  fun_induction Node.classify innerStart n <;> simp_all [Parser.exportedNames]
/-- An item is a default export of a value. -/
def Item.IsDefaultValue (item : Item) : Prop :=
  ∃ start, (item.node.classify item.innerStart).1 = .defaultExpression start

instance (item : Item) : Decidable item.IsDefaultValue :=
  match h : (item.node.classify item.innerStart).1 with
  | .defaultExpression start => isTrue ⟨start, h⟩
  | .importLink => isFalse fun ⟨_, hs⟩ ↦ by simp [h] at hs
  | .exportWrapper _ => isFalse fun ⟨_, hs⟩ ↦ by simp [h] at hs
  | .exportList => isFalse fun ⟨_, hs⟩ ↦ by simp [h] at hs
  | .plain => isFalse fun ⟨_, hs⟩ ↦ by simp [h] at hs

theorem pairwise_not_isDefaultValue {source : String} {p : Program}
    (h : parseScript source = .ok p) :
    p.items.Pairwise fun a b ↦ ¬ (a.IsDefaultValue ∧ b.IsDefaultValue) := by
  have hdisjoint := (List.nodup_flatMap.1 (nodup_exportedNames h)).2
  refine hdisjoint.imp fun {a b} hab ↦ ?_
  rintro ⟨⟨start, ha⟩, ⟨start', hb⟩⟩
  exact hab (default_mem_exportedNames a.node ha) (default_mem_exportedNames b.node hb)

end AppletBundle.Script
