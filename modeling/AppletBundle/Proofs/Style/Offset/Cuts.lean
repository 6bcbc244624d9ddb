import AppletBundle.Proofs.Style.Offset.Stylesheet

/-!
# Readers stay between characters

The readers of selectors and stylesheets go from byte to byte, and a backslash in a string or in a
compound makes them skip a single byte of the character behind it, so that they may stand inside a
character. They only stop at bytes below 128, which are characters of their own, or at the end of the
text; so whatever they find is a cut. Every reader was compared with one that takes characters, and
what it finds is where a rest of the text begins: that is a cut (`isCut_offset`), and it is no smaller
than another if it begins a shorter rest (`offset_le_of_suffix`).

The reader of a block goes from rule to rule. One turn cuts off a rule (`turn?`), and is never without
a result between characters; it ends behind the rule, between characters again, so all turns do
(`bounds_of_transGen_follows`).

The main result is `readers_stay_at_cuts`.
-/

namespace AppletBundle.Style

open AppletBundle.Text

namespace Offset

variable {t : List Char} {i pos next later : ℕ}

/-! ### One reader after the other -/

theorem exists_nextDelimiter? (h : IsCut t i) :
    ∃ found, nextDelimiter? t i = some found ∧ ∀ j c, found = some (j, c) →
      i ≤ j ∧ IsCut t j ∧ byte? t j = some c ∧ (c = '\x7b' ∨ c = ';') := by
  obtain ⟨rest, hrest, rfl⟩ := h.exists_rest
  refine ⟨_, nextDelimiter?_offset hrest, fun j c hfound ↦ ?_⟩
  obtain ⟨⟨before, delimiter, after⟩, hsplit, heq⟩ := Option.map_eq_some_iff.1 hfound
  obtain ⟨rfl, rfl⟩ := Prod.mk.inj heq
  obtain ⟨hwhole, hdelimiter⟩ := splitAtDelimiter?_eq hsplit
  have hsuffix : delimiter :: after <:+ rest := hwhole ▸ List.suffix_append _ _
  have hnarrow : delimiter.toNat < 128 := by
    rcases hdelimiter with rfl | rfl <;> decide
  exact ⟨offset_le_of_suffix hsuffix, isCut_offset (hsuffix.trans hrest),
    byte?_narrow (hsuffix.trans hrest) hnarrow, hdelimiter⟩

theorem exists_matchingBrace? (h : byte? t i = some '\x7b') :
    ∃ found, matchingBrace? t i = some found ∧ ∀ j, found = some j →
      i < j ∧ IsCut t j ∧ byte? t j = some '\x7d' := by
  obtain ⟨rest, hrest, rfl⟩ := exists_rest_of_byte? h (by decide)
  refine ⟨_, matchingBrace?_offset hrest, fun j hfound ↦ ?_⟩
  obtain ⟨⟨body, after⟩, hclose, rfl⟩ := Option.map_eq_some_iff.1 hfound
  have hsuffix : '\x7d' :: after <:+ rest := closeBlock?_eq hclose ▸ List.suffix_append _ _
  have hclosing := hsuffix.trans (suffix_of_cons_suffix hrest)
  have hle : offset t rest ≤ offset t ('\x7d' :: after) := offset_le_of_suffix hsuffix
  have hopen := offset_succ hrest (by decide)
  have hlt : offset t ('\x7b' :: rest) < offset t ('\x7d' :: after) := by omega
  exact ⟨hlt, isCut_offset hclosing, byte?_narrow hclosing (by decide)⟩

theorem exists_skipComment? (h : byte? t i = some '/') (hstar : byte? t (i + 1) = some '*') :
    ∃ j, skipComment? t i = some j ∧ i + 2 ≤ j ∧ IsCut t j := by
  obtain ⟨rest, hrest, rfl⟩ := exists_rest_of_byte? h (by decide)
  have hslash := offset_succ hrest (by decide)
  rw [hslash, byte?_eq_some_iff (by decide) (suffix_of_cons_suffix hrest)] at hstar
  obtain ⟨inner, rfl⟩ := List.head?_eq_some_iff.1 hstar
  have hinner := suffix_of_cons_suffix hrest
  have hstop := offset_succ hinner (by decide)
  have hle : offset t inner ≤ offset t (afterComment inner) :=
    offset_le_of_suffix (afterComment_suffix inner)
  exact ⟨_, skipComment?_offset hrest, by omega,
    isCut_offset ((afterComment_suffix inner).trans (suffix_of_cons_suffix hinner))⟩

theorem exists_triviaFrom? (h : IsCut t i) : ∃ j, triviaFrom? t i = some j ∧ i ≤ j ∧ IsCut t j := by
  obtain ⟨rest, hrest, rfl⟩ := h.exists_rest
  have hsuffix : afterTrivia rest <:+ rest := List.drop_suffix _ _
  exact ⟨_, triviaFrom?_offset hrest, offset_le_of_suffix hsuffix,
    isCut_offset (hsuffix.trans hrest)⟩

theorem exists_insertionPoint? (t : List Char) :
    ∃ found, insertionPoint? t = some found ∧ ∀ j, found = some j → IsCut t j := by
  refine ⟨_, insertionPoint?_eq t, fun j hfound ↦ ?_⟩
  obtain ⟨n, -, rfl⟩ := Option.map_eq_some_iff.1 hfound
  rw [← offset_drop]
  exact isCut_offset (List.drop_suffix n t)

theorem exists_splitTopLevel? (t : List Char) :
    ∃ parts, splitTopLevel? t ',' = some parts ∧ ∀ part ∈ parts, ∃ start stop,
      start ≤ stop ∧ IsCut t start ∧ IsCut t stop ∧ slice? t start stop = some part := by
  refine ⟨_, splitTopLevel?_eq t, fun part hpart ↦ ?_⟩
  obtain ⟨before, after, ht⟩ := infix_of_mem_splitTopLevel (s := .start) hpart
  have hpart : part ++ after <:+ t := ⟨before, by rw [← List.append_assoc, ht]⟩
  have hafter := (List.suffix_append part after).trans hpart
  exact ⟨_, _, offset_le_of_suffix (List.suffix_append part after), isCut_offset hpart,
    isCut_offset hafter, slice?_offset hpart⟩

/-! ### The reader of a block -/

/-- What the reader of a block cuts off in one turn. -/
inductive Cutting where
  | statement (text : List Char)
  | block (before body : List Char)

/-- One turn of the reader of a block: the rule that begins at an offset, and the offset behind it. The
last turn finds no rule. -/
def turn? (t : List Char) (pos : ℕ) : Option (Option (Cutting × ℕ)) :=
  (nextDelimiter? t pos).bind fun found ↦
    match found with
    | none => some none
    | some (stop, delimiter) =>
      if delimiter = ';' then
        (slice? t pos (stop + 1)).map fun text ↦ some (.statement text, stop + 1)
      else
        (matchingBrace? t stop).bind fun found ↦
          match found with
          | none => some none
          | some close =>
            (slice? t (stop + 1) close).bind fun body ↦
              (slice? t pos stop).map fun before ↦ some (.block before body, close + 1)

/-- The text of what was cut off once it is scoped, and the names of the keyframes that it declares. -/
def Cutting.scoped? (scope : Scope) : Cutting → Option (List Char × List (List Char))
  | statement text => some (text, [])
  | block before body => scopeRule? scope (scopeBlockFrom? scope body 0) before body

/-- **The reader of a block makes turns** until it finds no rule. -/
theorem scopeBlockFrom?_turn (scope : Scope) (t : List Char) (pos : ℕ) :
    scopeBlockFrom? scope t pos =
      (turn? t pos).bind fun turn ↦
        match turn with
        | none => (slice? t pos (byteLength t)).map fun tail ↦ (tail, [])
        | some (cutting, next) =>
          (cutting.scoped? scope).bind fun first ↦
            (scopeBlockFrom? scope t next).map fun more ↦
              (first.1 ++ more.1, first.2 ++ more.2) := by
  rw [scopeBlockFrom?_step, turn?]
  rcases nextDelimiter? t pos with - | - | ⟨stop, delimiter⟩
  · rfl
  · rfl
  · dsimp only [Option.bind_some]
    split
    · rw [Option.bind_map]
      rfl
    · rcases matchingBrace? t stop with - | - | close
      · rfl
      · rfl
      · dsimp only [Option.bind_some]
        rcases slice? t (stop + 1) close with - | body
        · rfl
        · rcases slice? t pos stop with - | before <;> rfl

/-- The reader of a block comes from an offset to another in one turn. -/
def Follows (t : List Char) (pos next : ℕ) : Prop :=
  ∃ cutting, turn? t pos = some (some (cutting, next))

theorem exists_turn? (h : IsCut t pos) :
    ∃ turn, turn? t pos = some turn ∧ ∀ cutting next, turn = some (cutting, next) →
      pos < next ∧ IsCut t next := by
  obtain ⟨found, hnext, hfound⟩ := exists_nextDelimiter? h
  rw [turn?, hnext, Option.bind_some]
  rcases found with - | ⟨stop, delimiter⟩
  · exact ⟨none, rfl, nofun⟩
  obtain ⟨hle, hstop, hbyte, hdelimiter⟩ := hfound stop delimiter rfl
  dsimp only
  split
  · rename_i hsemicolon
    subst hsemicolon
    have hcut := isCut_succ_of_byte? hbyte (by decide)
    obtain ⟨text, htext⟩ := Option.isSome_iff_exists.1 (isSome_slice? (by omega) h hcut)
    rw [htext]
    refine ⟨_, rfl, fun cutting next heq ↦ ?_⟩
    obtain ⟨-, rfl⟩ := Prod.mk.inj (Option.some.inj heq)
    exact ⟨by omega, hcut⟩
  · rename_i hsemicolon
    obtain rfl := hdelimiter.resolve_right hsemicolon
    have hcut := isCut_succ_of_byte? hbyte (by decide)
    obtain ⟨found, hclose, hfound⟩ := exists_matchingBrace? hbyte
    rw [hclose, Option.bind_some]
    rcases found with - | close
    · exact ⟨none, rfl, nofun⟩
    obtain ⟨hlt, hclosing, hbrace⟩ := hfound close rfl
    obtain ⟨body, hbody⟩ := Option.isSome_iff_exists.1 (isSome_slice? hlt hcut hclosing)
    obtain ⟨before, hbefore⟩ := Option.isSome_iff_exists.1 (isSome_slice? hle h hstop)
    dsimp only
    rw [hbody, Option.bind_some, hbefore]
    refine ⟨_, rfl, fun cutting next heq ↦ ?_⟩
    obtain ⟨-, rfl⟩ := Prod.mk.inj (Option.some.inj heq)
    exact ⟨by omega, isCut_succ_of_byte? hbrace (by decide)⟩

theorem Follows.bounds (h : Follows t pos next) (hpos : IsCut t pos) :
    pos < next ∧ IsCut t next := by
  obtain ⟨cutting, hturn⟩ := h
  obtain ⟨turn, hturn', hbounds⟩ := exists_turn? hpos
  exact hbounds cutting next (Option.some.inj (hturn'.symm.trans hturn))

/-- **The reader of a block goes forward from cut to cut**, however many turns it makes. -/
theorem bounds_of_transGen_follows (h : Relation.TransGen (Follows t) pos later)
    (hpos : IsCut t pos) : pos < later ∧ IsCut t later := by
  induction h with
  | single hone => exact hone.bounds hpos
  | tail _ hone ih =>
    obtain ⟨hlt, hcut⟩ := hone.bounds ih.2
    exact ⟨ih.1.trans hlt, hcut⟩

/-! ### The result -/

/-- **Readers stay between characters.** From a cut, the search for a delimiter and the reader of white
space and comments have a result; so have the search for the brace that closes another, from that one
on, the reader of a comment, from its first two characters on, the split at the top level and the
search for the place of an attribute. What they find is a cut, at or behind the offset at which they
began; the brace that closes another stands behind it.

The reader of a block is made of turns. At every cut a turn and the rest of the text are there to be
cut off, and later turns begin at cuts with greater offsets. -/
theorem readers_stay_at_cuts (t : List Char) :
    (∀ i, IsCut t i →
      (∃ found, nextDelimiter? t i = some found ∧ ∀ j c, found = some (j, c) →
        i ≤ j ∧ IsCut t j ∧ byte? t j = some c ∧ (c = '\x7b' ∨ c = ';')) ∧
      ∃ j, triviaFrom? t i = some j ∧ i ≤ j ∧ IsCut t j) ∧
    (∀ i, byte? t i = some '\x7b' → ∃ found, matchingBrace? t i = some found ∧
      ∀ j, found = some j → i < j ∧ IsCut t j ∧ byte? t j = some '\x7d') ∧
    (∀ i, byte? t i = some '/' → byte? t (i + 1) = some '*' →
      ∃ j, skipComment? t i = some j ∧ i + 2 ≤ j ∧ IsCut t j) ∧
    (∃ parts, splitTopLevel? t ',' = some parts ∧ ∀ part ∈ parts, ∃ start stop,
      start ≤ stop ∧ IsCut t start ∧ IsCut t stop ∧ slice? t start stop = some part) ∧
    (∃ found, insertionPoint? t = some found ∧ ∀ j, found = some j → IsCut t j) ∧
    (∀ scope pos, scopeBlockFrom? scope t pos =
      (turn? t pos).bind fun turn ↦
        match turn with
        | none => (slice? t pos (byteLength t)).map fun tail ↦ (tail, [])
        | some (cutting, next) =>
          (cutting.scoped? scope).bind fun first ↦
            (scopeBlockFrom? scope t next).map fun more ↦
              (first.1 ++ more.1, first.2 ++ more.2)) ∧
    ∀ pos, IsCut t pos →
      (turn? t pos).isSome = true ∧ (slice? t pos (byteLength t)).isSome = true ∧
        ∀ later, Relation.TransGen (Follows t) pos later → pos < later ∧ IsCut t later := by
  refine ⟨fun i hi ↦ ⟨exists_nextDelimiter? hi, exists_triviaFrom? hi⟩,
    fun i ↦ exists_matchingBrace?, fun i ↦ exists_skipComment?, exists_splitTopLevel? t,
    exists_insertionPoint? t, fun scope pos ↦ scopeBlockFrom?_turn scope t pos,
    fun pos hpos ↦ ⟨?_, ?_, fun later hlater ↦ bounds_of_transGen_follows hlater hpos⟩⟩
  · obtain ⟨turn, hturn, -⟩ := exists_turn? hpos
    rw [hturn]
    rfl
  · have hle : pos ≤ byteLength t := by
      obtain ⟨rest, -, rfl⟩ := hpos.exists_rest
      exact Nat.sub_le _ _
    exact isSome_slice? hle hpos (isCut_byteLength t)

/-- A rule with a string in which a character of two bytes is escaped. -/
def escapedRule : List Char :=
  "a\x7bb:\"\\é\"\x7d".toList

/-- Behind the backslash the reader stands inside the character, and it comes out at the brace. -/
theorem readers_stay_at_cuts_escaped :
    byte? escapedRule 1 = some '\x7b' ∧ ¬ IsCut escapedRule 7 ∧
      matchingBrace? escapedRule 1 = some (some 9) ∧ IsCut escapedRule 9 ∧
      IsCut escapedRule 0 ∧ (turn? escapedRule 0).isSome = true := by
  have hopen : byte? escapedRule 1 = some '\x7b' := by decide +kernel
  have hstart : IsCut escapedRule 0 := by decide
  have hclose : matchingBrace? escapedRule 1 = some (some 9) := by
    have hsuffix : '\x7b' :: "b:\"\\é\"\x7d".toList <:+ escapedRule := ⟨['a'], rfl⟩
    exact (matchingBrace?_offset hsuffix).trans (by decide)
  obtain ⟨-, hbrace, -, -, -, -, hturns⟩ := readers_stay_at_cuts escapedRule
  obtain ⟨found, hfound, hbounds⟩ := hbrace 1 hopen
  obtain rfl := Option.some.inj (hclose.symm.trans hfound)
  exact ⟨hopen, by decide, hclose, (hbounds 9 rfl).2.1, hstart, (hturns 0 hstart).1⟩

end Offset

end AppletBundle.Style
