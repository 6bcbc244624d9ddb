import Mathlib.Data.Nat.Notation
import Mathlib.Tactic.SplitIfs
import AppletBundle.Json.Parser
import AppletBundle.Json.Printer

/-!
# Quoted texts

`Escapes` says in which three ways a character is written inside quotes: as itself, as a letter
after a backslash, or as a number. What a reader of strings needs to know about a written character
is one lemma by cases on it: it is read as one symbol that stands for the character
(`Escapes.readSymbols`), and no control character is in it (`Escapes.le_toNat`). A text is spelled by
spelling its characters in any of these ways one after the other (`Spells`), and is read from every
spelling (`Spells.readString`). So every text is read back from its quotation (`parse?_quoted`),
whatever comes after (`readValue_quotedChars`).
-/

namespace AppletBundle.Json

open AppletBundle.Text

/-! ### Written characters -/

/-- The ways to write a character inside quotes. -/
inductive Escapes (c : Char) : List Char → Prop
  | plain (hquote : c ≠ '"') (hslash : c ≠ '\\') (hc : 32 ≤ c.toNat) : Escapes c [c]
  | letter {e : Char} (he : escapedChar? e = some c) : Escapes c ['\\', e]
  | number (hc : c.toNat < 32) :
      Escapes c
        ['\\', 'u', '0', '0', Nat.digitChar (c.toNat / 16), Nat.digitChar (c.toNat % 16)]

theorem escapes_escaped (c : Char) : Escapes c (escaped c) := by
  unfold escaped
  split_ifs with hquote hslash hb hf hn hr ht hc
  · exact .letter (by rw [hquote]; rfl)
  · exact .letter (by rw [hslash]; rfl)
  · exact .letter (hb ▸ rfl)
  · exact .letter (hf ▸ rfl)
  · exact .letter (hn ▸ rfl)
  · exact .letter (hr ▸ rfl)
  · exact .letter (ht ▸ rfl)
  · exact .number hc
  · exact .plain hquote hslash (Nat.le_of_not_lt hc)

/-- The two digits of a control character are read as its number. -/
theorem hexNumber?_control : ∀ n < 32,
    hexNumber? ['0', '0', Nat.digitChar (n / 16), Nat.digitChar (n % 16)] = some n := by
  decide

/-- And they are neither spaces nor control characters themselves. -/
theorem lt_toNat_digitChar_control : ∀ n < 32,
    32 < (Nat.digitChar (n / 16)).toNat ∧ 32 < (Nat.digitChar (n % 16)).toNat := by
  decide

/-- What stands for a character after a backslash is neither a space nor a control character. -/
theorem lt_toNat_of_escapedChar? {e c : Char} (he : escapedChar? e = some c) : 32 < e.toNat := by
  unfold escapedChar? at he
  split at he
  all_goals first | decide | cases he

/-- A character is written as itself, or with neither spaces nor control characters. -/
theorem Escapes.eq_or_lt_toNat {c : Char} {cs : List Char} (h : Escapes c cs) :
    cs = [c] ∧ 32 ≤ c.toNat ∨ ∀ x ∈ cs, 32 < x.toNat := by
  cases h with
  | plain _ _ hc => exact .inl ⟨rfl, hc⟩
  | letter he => exact .inr (by simpa using lt_toNat_of_escapedChar? he)
  | number hc => exact .inr (by simpa using lt_toNat_digitChar_control _ hc)

/-- **No control character is written as itself.** -/
theorem Escapes.le_toNat {c : Char} {cs : List Char} (h : Escapes c cs) {x : Char} (hx : x ∈ cs) :
    32 ≤ x.toNat := by
  rcases h.eq_or_lt_toNat with ⟨rfl, hc⟩ | hlt
  · exact List.mem_singleton.1 hx ▸ hc
  · exact Nat.le_of_lt (hlt x hx)

theorem le_toNat_of_mem_flatMap_escaped {s : List Char} {x : Char} (hx : x ∈ s.flatMap escaped) :
    32 ≤ x.toNat := by
  obtain ⟨c, -, hx⟩ := List.mem_flatMap.1 hx
  exact (escapes_escaped c).le_toNat hx

/-- **A quoted text is on one line.** -/
theorem newline_not_mem_quotedChars (s : List Char) : '\n' ∉ quotedChars s := by
  intro h
  rw [quotedChars, List.cons_append, List.mem_cons, List.mem_append, List.mem_singleton] at h
  rcases h with h | h | h
  · exact absurd h (by decide)
  · exact absurd (le_toNat_of_mem_flatMap_escaped h) (by decide)
  · exact absurd h (by decide)

/-! ### Reading what was written -/

/-- A symbol that stands for a character, alone and next to any others. -/
def Symbol.StandsFor (c : Char) : Symbol → Prop
  | .char d => d = c
  | .unit n => n = c.toNat ∧ n < 0xD800

theorem textOf?_cons {c : Char} {s : Symbol} (h : s.StandsFor c) (rest : List Symbol) :
    textOf? (s :: rest) = (textOf? rest).map (c :: ·) := by
  cases s with
  | char d =>
    cases h
    rfl
  | unit n =>
    obtain ⟨rfl, hlt⟩ := h
    have hhigh : isHighHalf c.toNat = false := by simp [isHighHalf]; omega
    have hlow : isLowHalf c.toNat = false := by simp [isLowHalf]; omega
    rcases rest with - | ⟨d | m, rest⟩
    · simp [textOf?, hhigh, hlow]
    · simp [textOf?, hhigh, hlow]
    · simp [textOf?, hhigh, hlow]

/-- **A written character is read as one symbol**, which stands for it. -/
theorem Escapes.readSymbols {c : Char} {cs : List Char} (h : Escapes c cs) :
    ∃ symbol : Symbol, symbol.StandsFor c ∧ ∀ {rest symbols t},
      Json.readSymbols rest = some (symbols, t) →
        Json.readSymbols (cs ++ rest) = some (symbol :: symbols, t) := by
  cases h with
  | plain hquote hslash hc =>
    refine ⟨.char c, rfl, fun hread ↦ ?_⟩
    simp [Json.readSymbols, hquote, hslash, Nat.not_lt_of_le hc, hread]
  | letter he =>
    refine ⟨.char c, rfl, fun hread ↦ ?_⟩
    unfold escapedChar? at he
    split at he
    all_goals cases he
    all_goals simp [Json.readSymbols, escapedChar?, hread]
  | number hc =>
    refine ⟨.unit c.toNat, ⟨rfl, Nat.lt_trans hc (by decide)⟩, fun hread ↦ ?_⟩
    simp [Json.readSymbols, hexNumber?_control _ hc, hread]

/-- The ways to write a text inside quotes, one character after the other. -/
inductive Spells : List Char → List Char → Prop
  | nil : Spells [] []
  | cons {c : Char} {cs s body : List Char} (h : Escapes c cs) (hs : Spells s body) :
      Spells (c :: s) (cs ++ body)

theorem spells_flatMap_escaped (s : List Char) : Spells s (s.flatMap escaped) := by
  induction s with
  | nil => exact .nil
  | cons c s ih => exact .cons (escapes_escaped c) ih

theorem Spells.readSymbols {s body : List Char} (h : Spells s body) (rest : List Char) :
    ∃ symbols, Json.readSymbols (body ++ '"' :: rest) = some (symbols, rest) ∧
      textOf? symbols = some s := by
  induction h with
  | nil => exact ⟨[], by simp [Json.readSymbols], rfl⟩
  | cons h _ ih =>
    obtain ⟨symbols, hread, htext⟩ := ih
    obtain ⟨symbol, hsymbol, hstep⟩ := h.readSymbols
    refine ⟨symbol :: symbols, ?_, ?_⟩
    · rw [List.append_assoc]
      exact hstep hread
    · rw [textOf?_cons hsymbol, htext, Option.map_some]

theorem Spells.readString {s body : List Char} (h : Spells s body) (rest : List Char) :
    Json.readString (body ++ '"' :: rest) = some (some (.ofList s), rest) := by
  obtain ⟨symbols, hread, htext⟩ := h.readSymbols rest
  simp [Json.readString, hread, htext]

/-- **A text is read from every spelling between quotes**, whatever comes after it. -/
theorem Spells.readValue {s body : List Char} (h : Spells s body) (fuel : ℕ) (rest : List Char) :
    Json.readValue (fuel + 1) ('"' :: body ++ '"' :: rest) = some (.string (.ofList s), rest) := by
  have hskip : skipGap ('"' :: body ++ '"' :: rest) = '"' :: (body ++ '"' :: rest) := by
    simp [skipGap, isGap]
  rw [Json.readValue, hskip]
  simp [h.readString]

theorem readValue_quotedChars (fuel : ℕ) (s rest : List Char) :
    readValue (fuel + 1) (quotedChars s ++ rest) = some (.string (.ofList s), rest) := by
  rw [quotedChars, List.append_assoc]
  exact (spells_flatMap_escaped s).readValue fuel rest

theorem parse?_quotedChars (s : List Char) :
    parse? (quotedChars s) = some (.string (.ofList s)) := by
  have hread := readValue_quotedChars (2 * (quotedChars s).length + 1) s []
  rw [List.append_nil] at hread
  rw [parse?, hread]
  rfl

/-- **A text is decoded from its quotation.** -/
theorem parse?_quoted (s : String) : parse? (quoted s).toList = some (.string s) := by
  rw [quoted, String.toList_ofList, parse?_quotedChars, String.ofList_toList]

end AppletBundle.Json
