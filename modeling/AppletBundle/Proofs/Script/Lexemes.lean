import AppletBundle.Proofs.Text.Bytes
import AppletBundle.Script.Parser.Basic
import Mathlib.Data.List.TakeWhile

/-!
# Sizes of tokens

Every reader of the lexer counts the bytes that it takes. The count is right: `dropBytes?` of that
many bytes gives the rest that the reader gives, for trivia (`dropBytes?_readTrivia`), for every
token (`readFrom_read`), and for what the parser reads again as a template or a regular expression.

So the offsets of a cursor, which are sums of such counts, stay between characters of the source.
`Cursor.StandsIn` says so of a cursor; `Cursor.standsIn_moveTo` brings it about, and
`Cursor.StandsIn.next` keeps it.
-/

namespace AppletBundle.Text

variable {t rest : List Char} {n : ℕ} {c : Char}

theorem dropBytes?_append_add (front rest : List Char) (k : ℕ) :
    dropBytes? (byteLength front + k) (front ++ rest) = dropBytes? k rest := by
  induction front with
  | nil => rw [show byteLength [] + k = k from Nat.zero_add k, List.nil_append]
  | cons c front ih =>
    obtain ⟨n, hn⟩ := Nat.exists_eq_add_of_le'
      (Nat.le_add_right_of_le c.utf8Size_pos (k := byteLength front + k))
    rw [byteLength_cons, Nat.add_assoc, hn, List.cons_append, dropBytes?, if_pos (by omega), ← hn,
      Nat.add_sub_cancel_left, ih]

/-- What is dropped in two steps is dropped in one. -/
theorem dropBytes?_add (h : dropBytes? n t = some rest) (k : ℕ) :
    dropBytes? (n + k) t = dropBytes? k rest := by
  obtain ⟨front, rfl⟩ := suffix_of_dropBytes? h
  have hlength := byteLength_of_dropBytes? h
  rw [byteLength_append, Nat.add_right_cancel_iff] at hlength
  rw [hlength, dropBytes?_append_add]

theorem dropBytes?_zero (t : List Char) : dropBytes? 0 t = some t := by
  cases t <;> rfl

theorem dropBytes?_cons (c : Char) (t : List Char) (k : ℕ) :
    dropBytes? (c.utf8Size + k) (c :: t) = dropBytes? k t := by
  have h := dropBytes?_append_add [c] t k
  rwa [byteLength_cons, show byteLength [] = 0 from rfl, Nat.add_zero, List.singleton_append] at h

theorem dropBytes?_narrow (hc : c.utf8Size = 1) (t : List Char) (k : ℕ) :
    dropBytes? (1 + k) (c :: t) = dropBytes? k t :=
  hc ▸ dropBytes?_cons c t k

/-! ### Characters of one byte -/

/-- All characters take one byte. -/
def Narrow (t : List Char) : Prop :=
  ∀ c ∈ t, c.utf8Size = 1

theorem Narrow.byteLength_eq (h : Narrow t) : byteLength t = t.length := by
  induction t with
  | nil => rfl
  | cons c t ih =>
    obtain ⟨hc, ht⟩ := List.forall_mem_cons.1 h
    rw [byteLength_cons, hc, ih ht, List.length_cons, Nat.add_comm]

theorem Narrow.append {u : List Char} (ht : Narrow t) (hu : Narrow u) : Narrow (t ++ u) := by
  simpa [Narrow, or_imp, forall_and] using And.intro ht hu

theorem Narrow.cons (hc : c.utf8Size = 1) (ht : Narrow t) : Narrow (c :: t) :=
  List.forall_mem_cons.2 ⟨hc, ht⟩

theorem utf8Size_of_between {a b : Char} (hb : b.toNat < 128) (h : (a ≤ c && c ≤ b) = true) :
    c.utf8Size = 1 := by
  have hle : c.toNat ≤ b.toNat := by
    simp only [Bool.and_eq_true, decide_eq_true_eq] at h
    exact h.2
  exact utf8Size_eq_one_iff.2 (by omega)

theorem utf8Size_of_isDigit (h : c.isDigit = true) : c.utf8Size = 1 := by
  simp only [Char.isDigit, Bool.and_eq_true, decide_eq_true_eq] at h
  exact utf8Size_eq_one_iff.2 (Nat.lt_of_le_of_lt h.2 (by decide))

theorem utf8Size_of_hexValue? {d : ℕ} (h : hexValue? c = some d) : c.utf8Size = 1 := by
  rw [hexValue?] at h
  split at h
  · exact utf8Size_of_between (b := '9') (by decide) ‹_›
  · split at h
    · exact utf8Size_of_between (b := 'f') (by decide) ‹_›
    · split at h
      · exact utf8Size_of_between (b := 'F') (by decide) ‹_›
      · cases h

end AppletBundle.Text

namespace AppletBundle.Script

open Text

/-! ### Trivia -/

theorem dropBytes?_readTrivia {lineStart : Bool} {state : TriviaState} {t t' : Trivia}
    {s rest : List Char} (h : readTrivia lineStart state t s = some (t', rest)) :
    ∃ n, t'.size = t.size + n ∧ dropBytes? n s = some rest := by
  induction s generalizing lineStart state t with
  | nil =>
    cases state with
    | blank =>
      cases h
      exact ⟨0, rfl, rfl⟩
    | line text =>
      cases h
      exact ⟨0, rfl, rfl⟩
    | block text => cases h
  | cons c s ih =>
    -- Whatever the reader does with a character that it takes, it counts its bytes.
    have hstep : ∀ {l st} {u : Trivia}, u.size = t.size + c.utf8Size →
        readTrivia l st u s = some (t', rest) →
        ∃ n, t'.size = t.size + n ∧ dropBytes? n (c :: s) = some rest := by
      intro l st u hu hread
      obtain ⟨n, hn, hdrop⟩ := ih hread
      exact ⟨c.utf8Size + n, by omega, by rw [dropBytes?_cons, hdrop]⟩
    cases state with
    | blank =>
      simp only [readTrivia] at h
      split at h
      · exact hstep rfl h
      · split at h
        · exact hstep rfl h
        · split at h
          · exact hstep rfl h
          · split at h
            · exact hstep rfl h
            · cases h
              exact ⟨0, rfl, rfl⟩
    | line text =>
      simp only [readTrivia] at h
      split at h
      · exact hstep rfl h
      · exact hstep rfl h
    | block text =>
      simp only [readTrivia] at h
      split at h
      · exact hstep rfl h
      · exact hstep rfl h

/-! ### Names -/

/-- One character of a name: the name ends in front of it, or it is taken. -/
theorem readName_cons {state : NameState} {text s : List Char} {escaped : Bool} {size : ℕ}
    {c : Char} {l : NameLexeme} (h : readName state text escaped size (c :: s) = some l) :
    l = ⟨text.reverse, escaped, size, c :: s⟩ ∧ text ≠ [] ∨
      ∃ state' text' escaped', readName state' text' escaped' (size + c.utf8Size) s = some l ∧
        (escaped = true → escaped' = true) ∧
          (escaped' = false → text = [] → isIdentifierStart c = true) := by
  -- Inside escapes all characters take one byte.
  have hescape : ∀ {st tx}, c.utf8Size = 1 → readName st tx true (size + 1) s = some l →
      ∃ state' text' escaped', readName state' text' escaped' (size + c.utf8Size) s = some l ∧
        (escaped = true → escaped' = true) ∧
          (escaped' = false → text = [] → isIdentifierStart c = true) := fun hc hread ↦
    ⟨_, _, true, hc.symm ▸ hread, fun _ ↦ rfl, fun hfalse ↦ by cases hfalse⟩
  cases state with
  | text =>
    rw [readName] at h
    by_cases hpart : (if text.isEmpty then isIdentifierStart c else isIdentifierPart c) = true
    · rw [if_pos hpart] at h
      refine Or.inr ⟨_, _, _, h, id, fun _ hempty ↦ ?_⟩
      simpa [hempty] using hpart
    · rw [if_neg hpart] at h
      split_ifs at h with hc hempty
      · exact Or.inr (hescape (by rw [hc]; rfl) h)
      · exact Or.inl ⟨(Option.some.inj h).symm, by simpa using hempty⟩
  | escape =>
    rw [readName] at h
    split_ifs at h with hc
    exact Or.inr (hescape (by rw [hc]; rfl) h)
  | unicode =>
    rw [readName] at h
    split_ifs at h with hc
    · exact Or.inr (hescape (by rw [hc]; rfl) h)
    · split at h
      · cases h
      · exact Or.inr (hescape (utf8Size_of_hexValue? ‹_›) h)
  | hex left value =>
    rw [readName] at h
    split at h
    · cases h
    · rename_i d hd
      refine Or.inr ?_
      split_ifs at h
      · split at h
        · cases h
        · exact hescape (utf8Size_of_hexValue? hd) h
      · exact hescape (utf8Size_of_hexValue? hd) h
  | braced digits value =>
    rw [readName] at h
    refine Or.inr ?_
    split_ifs at h with hc hdigits
    · split at h
      · cases h
      · exact hescape (by rw [hc]; rfl) h
    · split at h
      · cases h
      · exact hescape (utf8Size_of_hexValue? ‹_›) h

theorem readName_nil {state : NameState} {text : List Char} {escaped : Bool} {size : ℕ}
    {l : NameLexeme} (h : readName state text escaped size [] = some l) :
    l = ⟨text.reverse, escaped, size, []⟩ ∧ text ≠ [] := by
  cases state with
  | text =>
    rw [readName] at h
    split_ifs at h with hempty
    exact ⟨(Option.some.inj h).symm, by simpa using hempty⟩
  | _ => cases h

theorem dropBytes?_readName {state : NameState} {text s : List Char} {escaped : Bool} {size : ℕ}
    {l : NameLexeme} (h : readName state text escaped size s = some l) :
    ∃ n, l.size = size + n ∧ dropBytes? n s = some l.rest := by
  induction s generalizing state text escaped size with
  | nil =>
    obtain ⟨rfl, -⟩ := readName_nil h
    exact ⟨0, rfl, rfl⟩
  | cons c s ih =>
    rcases readName_cons h with ⟨rfl, -⟩ | ⟨state', text', escaped', hread, -⟩
    · exact ⟨0, rfl, rfl⟩
    · obtain ⟨n, hn, hdrop⟩ := ih hread
      exact ⟨c.utf8Size + n, by omega, by rw [dropBytes?_cons, hdrop]⟩

theorem escaped_of_readName {state : NameState} {text s : List Char} {size : ℕ} {l : NameLexeme}
    (h : readName state text true size s = some l) : l.escaped = true := by
  induction s generalizing state text size with
  | nil =>
    obtain ⟨rfl, -⟩ := readName_nil h
    rfl
  | cons c s ih =>
    rcases readName_cons h with ⟨rfl, -⟩ | ⟨state', text', escaped', hread, htrue, -⟩
    · rfl
    · exact ih (htrue rfl ▸ hread)

theorem isIdentifierPart_of_isIdentifierStart {c : Char} (h : isIdentifierStart c = true) :
    isIdentifierPart c = true := by
  rw [isIdentifierStart] at h
  rw [isIdentifierPart]
  split_ifs at h ⊢
  · simp only [Bool.or_eq_true, Char.isAlphanum] at h ⊢
    tauto
  · simp [h]

/-- A name takes at least one character, and one that may start a name unless that is escaped. -/
theorem readName_start {state : NameState} {escaped : Bool} {size : ℕ} {s : List Char}
    {l : NameLexeme} (h : readName state [] escaped size s = some l) :
    size < l.size ∧ (l.escaped = false → ∃ c rest, s = c :: rest ∧ isIdentifierStart c = true) := by
  cases s with
  | nil => exact absurd rfl (readName_nil h).2
  | cons c s =>
    rcases readName_cons h with ⟨-, hempty⟩ | ⟨state', text', escaped', hread, -, hstart⟩
    · exact absurd rfl hempty
    · obtain ⟨n, hn, -⟩ := dropBytes?_readName hread
      have hpos := c.utf8Size_pos
      refine ⟨by omega, fun hplain ↦ ⟨c, s, rfl, hstart ?_ rfl⟩⟩
      rw [← Bool.not_eq_true]
      rintro rfl
      rw [escaped_of_readName hread] at hplain
      cases hplain

/-! ### Strings and templates -/

theorem StringStep.eq_of_ofText_eq_close {quote c : Char} (h : StringStep.ofText quote c = .close) :
    c = quote := by
  rw [StringStep.ofText] at h
  split_ifs at h with hc
  exact hc

theorem StringStep.ofEscape_ne_close (c : Char) : StringStep.ofEscape c ≠ .close := by
  intro h
  rw [StringStep.ofEscape.eq_def] at h
  split at h <;> first | cases h | split_ifs at h

/-- Only its quotation mark closes a string. -/
theorem StringState.eq_of_step_eq_close {quote c : Char} {state : StringState}
    (h : state.step quote c = .close) : c = quote := by
  cases state with
  | text => exact StringStep.eq_of_ofText_eq_close h
  | escape => exact absurd h (StringStep.ofEscape_ne_close c)
  | hex left value =>
    rw [StringState.step] at h
    split at h
    · cases h
    · split_ifs at h
  | unicode =>
    rw [StringState.step] at h
    split_ifs at h
    split at h <;> cases h
  | braced digits value =>
    rw [StringState.step] at h
    split_ifs at h
    split at h
    · cases h
    · split_ifs at h
  | octal left value =>
    rw [StringState.step] at h
    split_ifs at h
    split at h
    · exact StringStep.eq_of_ofText_eq_close ‹_›
    · cases h
    · cases h
  | carriageReturn =>
    rw [StringState.step] at h
    split_ifs at h
    exact StringStep.eq_of_ofText_eq_close h

theorem append_readString {quote : Char} {state : StringState} {value : List ℕ} {raw s : List Char}
    {l : StringLexeme} (h : readString quote state value raw s = some l) :
    raw.reverse ++ s = l.raw ++ quote :: l.rest := by
  induction s generalizing state value raw with
  | nil => cases h
  | cons c s ih =>
    rw [readString] at h
    split at h
    · cases h
    · obtain rfl := StringState.eq_of_step_eq_close ‹_›
      cases h
      rfl
    · rw [← ih h, List.reverse_cons, List.append_assoc, List.singleton_append]

theorem dropBytes?_readTemplate {escaped : Bool} {raw s : List Char} {size : ℕ} {l : TemplateLexeme}
    (h : readTemplate escaped raw size s = some l) :
    ∃ n, l.size = size + n ∧ dropBytes? n s = some l.rest := by
  induction s generalizing escaped raw size with
  | nil => cases h
  | cons c s ih =>
    have hstep : ∀ {e r}, readTemplate e r (size + c.utf8Size) s = some l →
        ∃ n, l.size = size + n ∧ dropBytes? n (c :: s) = some l.rest := by
      intro e r hread
      obtain ⟨n, hn, hdrop⟩ := ih hread
      exact ⟨c.utf8Size + n, by omega, by rw [dropBytes?_cons, hdrop]⟩
    rw [readTemplate] at h
    split_ifs at h with hescaped hquote hopen
    · exact hstep h
    · cases h
      exact ⟨1, rfl, by rw [hquote]; exact dropBytes?_zero s⟩
    · cases h
      simp only [Bool.and_eq_true, decide_eq_true_eq] at hopen
      obtain ⟨rfl, hhead⟩ := hopen
      obtain ⟨rest, rfl⟩ := List.head?_eq_some_iff.1 hhead
      exact ⟨2, rfl, dropBytes?_zero rest⟩
    · exact hstep h

/-! ### Numbers -/

/-- A number that was read goes on from a front, of which its text takes characters of one byte. -/
def NumberLexeme.Extends (n : NumberLexeme) (front s : List Char) : Prop :=
  ∃ more, Narrow more ∧ n.raw = front ++ more ∧ s = more ++ n.rest

namespace NumberLexeme.Extends

variable {n : NumberLexeme} {more s : List Char}

theorem append (front : List Char) (h : n.Extends (front ++ more) s) (hmore : Narrow more) :
    n.Extends front (more ++ s) := by
  obtain ⟨last, hlast, hraw, rfl⟩ := h
  exact ⟨more ++ last, hmore.append hlast, by rw [hraw, List.append_assoc],
    (List.append_assoc _ _ _).symm⟩

theorem cons (front : List Char) {c : Char} (h : n.Extends (front ++ [c]) s)
    (hc : c.utf8Size = 1) : n.Extends front (c :: s) :=
  h.append front (.cons hc (List.forall_mem_nil _))

end NumberLexeme.Extends

theorem extends_endNumber {raw rest : List Char} {isBigInt : Bool} {n : NumberLexeme}
    (h : endNumber raw isBigInt rest = some n) : n.Extends raw rest := by
  rw [endNumber.eq_def] at h
  split at h
  · cases h
    exact ⟨[], List.forall_mem_nil _, (List.append_nil _).symm, rfl⟩
  · split_ifs at h
    cases h
    exact ⟨[], List.forall_mem_nil _, (List.append_nil _).symm, rfl⟩

theorem extends_endInteger {raw rest : List Char} {n : NumberLexeme}
    (h : endInteger raw rest = some n) : n.Extends raw rest := by
  rw [endInteger.eq_def] at h
  split at h
  · exact (extends_endNumber h).cons _ rfl
  · exact extends_endNumber h

theorem append_digitRun {isDigit : Char → Bool} (hdigit : ∀ c, isDigit c = true → c.utf8Size = 1)
    {s digits rest : List Char} (h : digitRun isDigit s = some (digits, rest)) :
    s = digits ++ rest ∧ Narrow digits := by
  rw [digitRun] at h
  split_ifs at h
  cases h
  refine ⟨(List.takeWhile_append_dropWhile).symm, fun c hc ↦ ?_⟩
  have hclass := List.mem_takeWhile_imp hc
  rcases Bool.or_eq_true_iff.1 hclass with hc | hc
  · exact hdigit c hc
  · rw [beq_iff_eq.1 hc]
    rfl

theorem exists_cons_of_digitRun {isDigit : Char → Bool} {c : Char} {s digits rest : List Char}
    (hc : isDigit c = true) (h : digitRun isDigit (c :: s) = some (digits, rest)) :
    ∃ more, digits = c :: more := by
  rw [digitRun] at h
  split_ifs at h
  cases h
  exact ⟨_, List.takeWhile_cons_of_pos (by rw [hc, Bool.true_or])⟩

theorem extends_readBased {mark s : List Char} {isDigit : Char → Bool}
    (hdigit : ∀ c, isDigit c = true → c.utf8Size = 1) {n : NumberLexeme}
    (h : readBased mark isDigit s = some n) : n.Extends mark s := by
  rw [readBased] at h
  split at h
  · cases h
  · cases h
  · rename_i digits rest hrun
    obtain ⟨rfl, hnarrow⟩ := append_digitRun hdigit hrun
    exact (extends_endInteger h).append _ hnarrow

theorem extends_readExponent {raw s : List Char} {n : NumberLexeme}
    (h : readExponent raw s = some n) : n.Extends raw s := by
  rw [readExponent.eq_def] at h
  split at h
  · rename_i e rest
    by_cases he : (e = 'e' || e = 'E') = true
    · rw [if_pos he] at h
      have hnarrow : e.utf8Size = 1 := by
        rcases Bool.or_eq_true_iff.1 he with he | he <;> rw [of_decide_eq_true he] <;> rfl
      split at h
      rename_i sign rest' hmatch
      -- The sign, if there is one, is part of the number.
      obtain ⟨hsign, rfl⟩ : Narrow sign ∧ rest = sign ++ rest' := by
        split at hmatch <;> cases hmatch
        · exact ⟨.cons rfl (List.forall_mem_nil _), rfl⟩
        · exact ⟨.cons rfl (List.forall_mem_nil _), rfl⟩
        · exact ⟨List.forall_mem_nil _, rfl⟩
      split at h
      · cases h
      · cases h
      · rename_i digits last hrun
        obtain ⟨rfl, hdigits⟩ := append_digitRun (fun _ ↦ utf8Size_of_isDigit) hrun
        exact ((extends_endNumber h).append _ hdigits).append _ (Narrow.cons hnarrow hsign)
    · rw [if_neg he] at h
      exact extends_endNumber h
  · exact extends_endNumber h

theorem extends_readFraction {raw s : List Char} {n : NumberLexeme}
    (h : readFraction raw s = some n) : n.Extends raw s := by
  rw [readFraction] at h
  split at h
  · cases h
  · rename_i digits rest hrun
    obtain ⟨rfl, hnarrow⟩ := append_digitRun (fun _ ↦ utf8Size_of_isDigit) hrun
    exact (extends_readExponent h).append _ hnarrow

theorem extends_readAfterInteger {digits rest : List Char} {n : NumberLexeme}
    (h : readAfterInteger digits rest = some n) : n.Extends digits rest := by
  rw [readAfterInteger.eq_def] at h
  split at h
  · exact (extends_readFraction h).cons _ rfl
  · exact extends_endInteger h
  · exact extends_readExponent h

theorem extends_of_takeWhile {c : Char} {s rest : List Char} {n : NumberLexeme}
    (hc : c.isDigit = true) (h : n.Extends ((c :: s).takeWhile Char.isDigit) rest)
    (hrest : (c :: s).dropWhile Char.isDigit = rest) : n.Extends [c] s := by
  have hdigits : Narrow (s.takeWhile Char.isDigit) := fun x hx ↦
    utf8Size_of_isDigit (List.mem_takeWhile_imp hx)
  rw [List.takeWhile_cons_of_pos hc] at h
  rw [List.dropWhile_cons_of_pos hc] at hrest
  have happend := h.append [c] hdigits
  rwa [← hrest, List.takeWhile_append_dropWhile] at happend

theorem extends_readNumber {c : Char} {s : List Char} {n : NumberLexeme} (hc : c.isDigit = true)
    (h : readNumber (c :: s) = some n) : n.Extends [c] s := by
  have hhex : ∀ c, (hexValue? c).isSome = true → c.utf8Size = 1 := by
    intro c hc
    obtain ⟨d, hd⟩ := Option.isSome_iff_exists.1 hc
    exact utf8Size_of_hexValue? hd
  have hoctal : ∀ c, isOctalDigit c = true → c.utf8Size = 1 := fun c hc ↦
    utf8Size_of_between (b := '7') (by decide) hc
  have hbinary : ∀ c : Char, (c == '0' || c == '1') = true → c.utf8Size = 1 := by
    intro c hc
    rcases Bool.or_eq_true_iff.1 hc with hc | hc <;> rw [beq_iff_eq.1 hc] <;> rfl
  -- After the zero of a base mark stands one of two letters.
  have hmark : ∀ {d rest} {x y : Char}, x.utf8Size = 1 → y.utf8Size = 1 →
      (d = x || d = y) = true → n.Extends ['0', d] rest → n.Extends ['0'] (d :: rest) := by
    intro d rest x y hx hy hd hext
    refine hext.cons ['0'] ?_
    rcases Bool.or_eq_true_iff.1 hd with hd | hd <;> rwa [of_decide_eq_true hd]
  rw [readNumber.eq_def] at h
  split at h
  · rename_i d rest heq
    obtain ⟨rfl, rfl⟩ := List.cons.inj heq
    by_cases hx : (d = 'x' || d = 'X') = true
    · rw [if_pos hx] at h
      exact hmark rfl rfl hx (extends_readBased hhex h)
    rw [if_neg hx] at h
    by_cases ho : (d = 'o' || d = 'O') = true
    · rw [if_pos ho] at h
      exact hmark rfl rfl ho (extends_readBased hoctal h)
    rw [if_neg ho] at h
    by_cases hb : (d = 'b' || d = 'B') = true
    · rw [if_pos hb] at h
      exact hmark rfl rfl hb (extends_readBased hbinary h)
    rw [if_neg hb] at h
    by_cases hd : d.isDigit = true
    · rw [if_pos hd] at h
      dsimp only at h
      split_ifs at h
      · exact extends_of_takeWhile hc (extends_endNumber h) rfl
      · split at h
        · exact extends_of_takeWhile hc ((extends_readFraction h).cons _ rfl) ‹_›
        · exact extends_of_takeWhile hc (extends_readExponent h) rfl
    · rw [if_neg hd] at h
      split_ifs at h
      exact extends_readAfterInteger h
  · split at h
    · cases h
    · rename_i digits rest hrun
      obtain ⟨hsplit, hnarrow⟩ := append_digitRun (fun _ ↦ utf8Size_of_isDigit) hrun
      obtain ⟨more, rfl⟩ := exists_cons_of_digitRun hc hrun
      obtain ⟨-, rfl⟩ := List.cons.inj hsplit
      exact (extends_readAfterInteger h).append [c] (List.forall_mem_cons.1 hnarrow).2

theorem NumberLexeme.Extends.dropBytes? {n : NumberLexeme} {s : List Char} (h : n.Extends [] s) :
    Text.dropBytes? n.raw.length s = some n.rest := by
  obtain ⟨more, hmore, hraw, rfl⟩ := h
  rw [hraw, List.nil_append, ← hmore.byteLength_eq]
  exact Text.dropBytes?_append more n.rest

/-! ### Regular expressions -/

theorem append_readRegexBody {inClass escaped : Bool} {raw s body rest : List Char}
    (h : readRegexBody inClass escaped raw s = some (body, rest)) :
    raw.reverse ++ s = body ++ '/' :: rest := by
  induction s generalizing inClass escaped raw with
  | nil => cases h
  | cons c s ih =>
    rw [readRegexBody] at h
    split_ifs at h with hline hescaped hslash <;>
      first
      | (rw [← ih h, List.reverse_cons, List.append_assoc, List.singleton_append])
      | (cases h
         simp only [Bool.and_eq_true, decide_eq_true_eq] at hslash
         rw [hslash.1])

theorem append_readRegex {s raw rest : List Char} (h : readRegex s = some (raw, rest)) :
    '/' :: s = raw ++ rest := by
  rw [readRegex] at h
  split at h
  · cases h
  · rename_i body last hbody
    dsimp only at h
    split_ifs at h
    cases h
    have hs := append_readRegexBody hbody
    rw [List.reverse_nil, List.nil_append] at hs
    rw [hs, List.append_assoc, List.cons_append, List.cons_append,
      List.takeWhile_append_dropWhile]

/-! ### Tokens -/

theorem punctuators_narrow : ∀ p ∈ punctuators, p ≠ [] ∧ Narrow p := by
  have hall : punctuators.all (fun p ↦ !p.isEmpty && p.all fun c ↦ c.utf8Size == 1) = true := by
    decide +kernel
  simpa [Narrow] using hall

theorem readPunctuator_eq_some {s p : List Char} (h : readPunctuator s = some p) :
    p ∈ punctuators ∧ p <+: s := by
  refine ⟨List.mem_of_find?_eq_some h, ?_⟩
  have hp := List.find?_some h
  simp only [Bool.and_eq_true] at hp
  exact List.isPrefixOf_iff_prefix.1 hp.1

/-- What a token says of the text at which it stands. -/
def Token.StartsAt (s : List Char) : Token → Prop
  | .punctuator p => p.toList <+: s
  | .name _ false => ∃ c rest, s = c :: rest ∧ isIdentifierStart c = true
  | _ => True

/-- Whether a token takes a part of the text. -/
def Token.isReal : Token → Bool
  | .eof => false
  | .invalid => false
  | _ => true

/-- A token that was read from a text: it has the size that it says, and stands where it says. -/
structure Lexeme.ReadFrom (l : Lexeme) (s : List Char) : Prop where
  dropBytes? : Text.dropBytes? l.size s = some l.rest
  startsAt : l.token.StartsAt s
  size_pos : l.token.isReal = true → 0 < l.size

theorem Lexeme.readFrom_invalid (s : List Char) : (Lexeme.invalid s).ReadFrom s :=
  ⟨dropBytes?_zero s, trivial, nofun⟩

theorem NumberLexeme.Extends.readFrom {n : NumberLexeme} {c : Char} {s : List Char}
    (h : n.Extends [c] s) (hc : c.utf8Size = 1) : n.toLexeme.ReadFrom (c :: s) := by
  have hlength : 0 < n.raw.length := by
    obtain ⟨more, -, hraw, -⟩ := h
    rw [hraw]
    exact Nat.zero_lt_succ _
  refine ⟨(h.cons [] hc).dropBytes?, ?_, fun _ ↦ hlength⟩
  rw [toLexeme]
  split <;> trivial

/-- **A token takes as many bytes as it says**, and what follows it is the rest that it gives. -/
theorem readFrom_read (s : List Char) : (Token.read s).ReadFrom s := by
  cases s with
  | nil => exact ⟨rfl, trivial, nofun⟩
  | cons c s =>
    rw [Token.read.eq_def]
    dsimp only
    split
    · -- a name
      split
      · exact Lexeme.readFrom_invalid _
      · rename_i n hn
        obtain ⟨k, hk, hdrop⟩ := dropBytes?_readName hn
        obtain ⟨hpos, hstart⟩ := readName_start hn
        refine ⟨by rw [hk, Nat.zero_add]; exact hdrop, ?_, fun _ ↦ hpos⟩
        cases hescaped : n.escaped with
        | false => exact hstart hescaped
        | true => trivial
    split
    · rename_i hdigit
      split
      · exact Lexeme.readFrom_invalid _
      · exact (extends_readNumber hdigit ‹_›).readFrom (utf8Size_of_isDigit hdigit)
    split
    · -- a number that starts with its point
      rename_i hpoint
      split
      · exact Lexeme.readFrom_invalid _
      · simp only [Bool.and_eq_true, decide_eq_true_eq] at hpoint
        obtain ⟨rfl, -⟩ := hpoint
        exact (extends_readFraction ‹_›).readFrom rfl
    split
    · -- a string: its quotation marks take a byte each
      rename_i hquote
      have hc : c.utf8Size = 1 := by
        rcases Bool.or_eq_true_iff.1 hquote with hc | hc <;> rw [of_decide_eq_true hc] <;> rfl
      split
      · exact Lexeme.readFrom_invalid _
      · rename_i l hl
        have hsplit := append_readString hl
        rw [List.reverse_nil, List.nil_append] at hsplit
        refine ⟨?_, trivial, fun _ ↦ Nat.zero_lt_succ _⟩
        dsimp only
        rw [hsplit, show byteLength l.raw + 2 = 1 + (byteLength l.raw + 1) by omega,
          dropBytes?_narrow hc, dropBytes?_append_add]
        exact (dropBytes?_narrow hc _ 0).trans (dropBytes?_zero _)
    split
    · rename_i hquote
      split
      · exact Lexeme.readFrom_invalid _
      · obtain ⟨k, hk, hdrop⟩ := dropBytes?_readTemplate ‹_›
        refine ⟨?_, trivial, fun _ ↦ by dsimp only; omega⟩
        dsimp only
        rw [hk, hquote, dropBytes?_narrow rfl, hdrop]
    split
    · rename_i hhash
      split
      · exact Lexeme.readFrom_invalid _
      · obtain ⟨k, hk, hdrop⟩ := dropBytes?_readName ‹_›
        refine ⟨?_, trivial, fun _ ↦ by dsimp only; omega⟩
        dsimp only
        rw [hk, hhash, dropBytes?_narrow rfl, hdrop]
    · split
      · exact Lexeme.readFrom_invalid _
      · rename_i p hp
        obtain ⟨hmem, hprefix⟩ := readPunctuator_eq_some hp
        obtain ⟨hne, hnarrow⟩ := punctuators_narrow p hmem
        refine ⟨?_, ?_, fun _ ↦ List.length_pos_iff.2 hne⟩
        · obtain ⟨rest, hrest⟩ := hprefix
          dsimp only
          rw [← hrest, List.drop_left, ← Narrow.byteLength_eq hnarrow, dropBytes?_append]
        · rwa [Token.StartsAt, String.toList_ofList]

/-! ### Cursors -/

namespace Cursor

/-- A cursor stands where it says in a source: its offsets are those of its texts, in order, and it
has the token that is there. -/
structure StandsIn (s : List Char) (c : Cursor) : Prop where
  before : IsCut s c.before
  source : dropBytes? c.start s = some c.source
  rest : dropBytes? c.stop s = some c.rest
  before_le : c.before ≤ c.start
  start_le : c.start ≤ c.stop
  startsAt : c.token.StartsAt c.source
  start_lt : c.token.isReal = true → c.start < c.stop

variable {s rest : List Char} {c : Cursor} {offset : ℕ}

theorem StandsIn.isCut_start (h : c.StandsIn s) : IsCut s c.start := by
  rw [IsCut, h.source]
  rfl

theorem before_moveTo (c : Cursor) (lineStart : Bool) (offset : ℕ) (rest : List Char) :
    (c.moveTo lineStart offset rest).before = offset := by
  rw [moveTo]
  split <;> rfl

theorem standsIn_moveTo (c : Cursor) (lineStart : Bool) (h : dropBytes? offset s = some rest) :
    (c.moveTo lineStart offset rest).StandsIn s := by
  have hcut : IsCut s offset := by
    rw [IsCut, h]
    rfl
  rw [moveTo]
  split
  · exact ⟨hcut, h, h, Nat.le_refl _, Nat.le_refl _, trivial,
      fun hreal ↦ absurd hreal Bool.false_ne_true⟩
  · rename_i trivia source hread
    obtain ⟨n, hn, hdrop⟩ := dropBytes?_readTrivia hread
    have hsource : dropBytes? (offset + trivia.size) s = some source := by
      rw [hn, Nat.zero_add, dropBytes?_add h, hdrop]
    have htoken := readFrom_read source
    refine ⟨hcut, hsource, ?_, Nat.le_add_right _ _, Nat.le_add_right _ _, htoken.startsAt,
      fun hreal ↦ Nat.lt_add_of_pos_right (htoken.size_pos hreal)⟩
    rw [dropBytes?_add hsource]
    exact htoken.dropBytes?

theorem StandsIn.next (h : c.StandsIn s) : c.next.StandsIn s :=
  standsIn_moveTo c false h.rest

end Cursor

end AppletBundle.Script
