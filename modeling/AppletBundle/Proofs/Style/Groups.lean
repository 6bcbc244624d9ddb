import AppletBundle.Style.Scan
import Mathlib.Data.List.Basic

/-!
# Balanced text

Text is balanced in brackets of one kind if it is made up of characters that are neither brackets of
that kind nor quotation marks, of string literals that are closed, and of balanced text between two
brackets (`IsBalanced`). A group reader that meets balanced text stands behind it as it stood in front
of it (`IsBalanced.closeGroup?_append`), so a group closes at the bracket behind its balanced text
(`IsBalanced.closeGroup?_closer`).
-/

namespace AppletBundle.Style

/-- The kinds of brackets in selectors. -/
inductive Bracket where
  | parenthesis
  | square

namespace Bracket

/-- The bracket that opens a group. -/
def opener : Bracket → Char
  | parenthesis => '('
  | square => '['

/-- The bracket that closes a group. -/
def closer : Bracket → Char
  | parenthesis => ')'
  | square => ']'

end Bracket

/-- The text of a string literal between its quotation marks: a backslash takes the meaning from the
character behind it. -/
inductive IsStringBody (quote : Char) : List Char → Prop
  | nil : IsStringBody quote []
  | char {c : Char} {t : List Char} :
    c ≠ quote → c ≠ '\\' → IsStringBody quote t → IsStringBody quote (c :: t)
  | escape (c : Char) {t : List Char} : IsStringBody quote t → IsStringBody quote ('\\' :: c :: t)

/-- A character that is no quotation mark and no bracket of a kind. -/
structure IsOrdinary (b : Bracket) (c : Char) : Prop where
  notQuote : c ≠ '"' ∧ c ≠ '\''
  notBracket : c ≠ b.opener ∧ c ≠ b.closer

instance (b : Bracket) (c : Char) : Decidable (IsOrdinary b c) :=
  decidable_of_iff ((c ≠ '"' ∧ c ≠ '\'') ∧ c ≠ b.opener ∧ c ≠ b.closer)
    ⟨fun h ↦ ⟨h.1, h.2⟩, fun h ↦ ⟨h.notQuote, h.notBracket⟩⟩

/-- Text whose strings are closed and whose brackets of one kind match. -/
inductive IsBalanced (b : Bracket) : List Char → Prop
  | nil : IsBalanced b []
  | char {c : Char} {t : List Char} : IsOrdinary b c → IsBalanced b t → IsBalanced b (c :: t)
  | string {quote : Char} {body t : List Char} :
    quote = '"' ∨ quote = '\'' → IsStringBody quote body → IsBalanced b t →
      IsBalanced b (quote :: (body ++ quote :: t))
  | group {inner t : List Char} :
    IsBalanced b inner → IsBalanced b t → IsBalanced b (b.opener :: (inner ++ b.closer :: t))

variable {b : Bracket} {quote : Char} {body t u : List Char}

theorem IsBalanced.append (ht : IsBalanced b t) (hu : IsBalanced b u) : IsBalanced b (t ++ u) := by
  induction ht with
  | nil => exact hu
  | char hc _ ih => exact .char hc ih
  | string hquote hbody _ ih =>
    rw [List.cons_append, List.append_assoc]
    exact .string hquote hbody ih
  | group hinner _ _ ih =>
    rw [List.cons_append, List.append_assoc]
    exact .group hinner ih

/-- A condition on the characters of a text, decided along the text. -/
theorem forall_mem_of_all {p : Char → Prop} [DecidablePred p] (h : t.all (p ·) = true) :
    ∀ c ∈ t, p c :=
  fun c hc ↦ of_decide_eq_true (List.all_eq_true.1 h c hc)

theorem isBalanced_of_forall (h : ∀ c ∈ t, IsOrdinary b c) : IsBalanced b t := by
  induction t with
  | nil => exact .nil
  | cons c t ih =>
    rw [List.forall_mem_cons] at h
    exact .char h.1 (ih h.2)

/-! ### Strings -/

/-- Inside a string the quotation mark that opened it closes it. -/
theorem Quoting.step_quote (hquote : quote = '"' ∨ quote = '\'') :
    (inside quote).step quote = outside := by
  have hbackslash : quote ≠ '\\' := by
    rcases hquote with rfl | rfl <;> decide
  rw [step, if_neg hbackslash, if_pos rfl]

theorem Quoting.step_outside_quote (hquote : quote = '"' ∨ quote = '\'') :
    outside.step quote = inside quote :=
  if_pos hquote

theorem Quoting.step_inside {c : Char} (hc : c ≠ quote) (hbackslash : c ≠ '\\') :
    (inside quote).step c = inside quote := by
  rw [step, if_neg hbackslash, if_neg hc]

theorem Quoting.step_inside_backslash (quote : Char) :
    (inside quote).step '\\' = escaped quote := by
  rw [step, if_pos rfl]

theorem IsOrdinary.step_outside {c : Char} (hc : IsOrdinary b c) :
    Quoting.outside.step c = .outside :=
  if_neg (not_or.2 hc.notQuote)

/-! ### Groups -/

theorem Bracket.closer_ne_opener (b : Bracket) : b.closer ≠ b.opener := by
  cases b <;> decide

theorem closeGroup?_quoted {q : Quoting} (hq : q ≠ .outside) (depth : ℕ) (c : Char)
    (rest : List Char) :
    closeGroup? b.opener b.closer q depth (c :: rest) =
      (closeGroup? b.opener b.closer (q.step c) depth rest).map fun r ↦ (c :: r.1, r.2) := by
  match q, hq with
  | .inside _, _ => rfl
  | .escaped _, _ => rfl

theorem closeGroup?_outside {c : Char} (hc : c ≠ b.opener ∧ c ≠ b.closer) (depth : ℕ)
    (rest : List Char) :
    closeGroup? b.opener b.closer .outside depth (c :: rest) =
      (closeGroup? b.opener b.closer (Quoting.outside.step c) depth rest).map
        fun r ↦ (c :: r.1, r.2) := by
  conv_lhs => unfold closeGroup?
  dsimp only
  rw [if_neg hc.1, if_neg hc.2]

theorem closeGroup?_opener (depth : ℕ) (rest : List Char) :
    closeGroup? b.opener b.closer .outside depth (b.opener :: rest) =
      (closeGroup? b.opener b.closer .outside (depth + 1) rest).map
        fun r ↦ (b.opener :: r.1, r.2) := by
  conv_lhs => unfold closeGroup?
  exact if_pos rfl

theorem closeGroup?_closer (rest : List Char) :
    closeGroup? b.opener b.closer .outside 0 (b.closer :: rest) = some ([], rest) := by
  conv_lhs => unfold closeGroup?
  dsimp only
  rw [if_neg b.closer_ne_opener, if_pos rfl]

theorem closeGroup?_closer_succ (depth : ℕ) (rest : List Char) :
    closeGroup? b.opener b.closer .outside (depth + 1) (b.closer :: rest) =
      (closeGroup? b.opener b.closer .outside depth rest).map fun r ↦ (b.closer :: r.1, r.2) := by
  conv_lhs => unfold closeGroup?
  dsimp only
  rw [if_neg b.closer_ne_opener, if_pos rfl]

theorem quote_ne_bracket (hquote : quote = '"' ∨ quote = '\'') :
    quote ≠ b.opener ∧ quote ≠ b.closer := by
  rcases hquote with rfl | rfl <;> cases b <;> decide

theorem IsStringBody.closeGroup?_append (h : IsStringBody quote body)
    (hquote : quote = '"' ∨ quote = '\'') (depth : ℕ) (rest : List Char) :
    closeGroup? b.opener b.closer (.inside quote) depth (body ++ quote :: rest) =
      (closeGroup? b.opener b.closer .outside depth rest).map
        fun r ↦ (body ++ quote :: r.1, r.2) := by
  induction h with
  | nil =>
    rw [List.nil_append, closeGroup?_quoted (by simp), Quoting.step_quote hquote]
    rfl
  | char hc hbackslash _ ih =>
    rw [List.cons_append, closeGroup?_quoted (by simp), Quoting.step_inside hc hbackslash, ih,
      Option.map_map]
    rfl
  | escape c _ ih =>
    have hend : (Quoting.escaped quote).step c = .inside quote := rfl
    rw [List.cons_append, List.cons_append, closeGroup?_quoted (by simp),
      Quoting.step_inside_backslash, closeGroup?_quoted (by simp), hend, ih, Option.map_map,
      Option.map_map]
    rfl

/-- **Balanced text is passed over** by a reader of groups. -/
theorem IsBalanced.closeGroup?_append (h : IsBalanced b t) (depth : ℕ) (rest : List Char) :
    closeGroup? b.opener b.closer .outside depth (t ++ rest) =
      (closeGroup? b.opener b.closer .outside depth rest).map fun r ↦ (t ++ r.1, r.2) := by
  induction h generalizing depth rest with
  | nil => exact (Option.map_id' (x := closeGroup? b.opener b.closer .outside depth rest)).symm
  | char hc _ ih =>
    rw [List.cons_append, closeGroup?_outside hc.notBracket, hc.step_outside, ih, Option.map_map]
    rfl
  | string hquote hbody _ ih =>
    rw [List.cons_append, List.append_assoc, List.cons_append,
      closeGroup?_outside (quote_ne_bracket hquote), Quoting.step_outside_quote hquote,
      hbody.closeGroup?_append hquote, ih, Option.map_map, Option.map_map]
    refine congrArg (Option.map · _) (funext fun r ↦ ?_)
    simp
  | group _ _ ihinner ih =>
    rw [List.cons_append, List.append_assoc, List.cons_append, closeGroup?_opener, ihinner,
      closeGroup?_closer_succ, ih, Option.map_map, Option.map_map, Option.map_map]
    refine congrArg (Option.map · _) (funext fun r ↦ ?_)
    simp

/-- **A group closes behind its balanced text.** -/
theorem IsBalanced.closeGroup?_closer (h : IsBalanced b t) (rest : List Char) :
    closeGroup? b.opener b.closer .outside 0 (t ++ b.closer :: rest) = some (t, rest) := by
  rw [h.closeGroup?_append, AppletBundle.Style.closeGroup?_closer, Option.map_some, List.append_nil]

end AppletBundle.Style
