import AppletBundle.Bundle.Context
import AppletBundle.Entry.Page
import AppletBundle.Proofs.Json.Quotation

/-!
# The manifest in the entry page

The manifest stands in a script of the entry page, where a text that could close an element is
guarded by backslashes. No closing tag is left in a guarded text (`not_infix_guardClosings`).

Guarding changes a written value in its strings only, and there it writes a slash in another way:
the characters inside quotes still spell the same text (`Json.Spells.guarded`). So a guarded value is
read back as it was before (`ReadsBack`, with one lemma for each kind of value in a manifest), and
the manifest is decoded from the page (`pageText_manifest`).
-/

namespace AppletBundle

open Json

namespace Entry

/-! ### Guarded texts -/

/-- Whether a slash after a text would follow an opening bracket. -/
def endsOpen (afterBracket : Bool) (s : List Char) : Bool :=
  (s.getLast?.map (· == '<')).getD afterBracket

theorem endsOpen_cons (b : Bool) (c : Char) (s : List Char) :
    endsOpen b (c :: s) = endsOpen (c == '<') s := by
  cases s <;> rfl

/-- A slash that is guarded is no bracket, so what follows it is read as after any slash. -/
theorem guardClosings_cons (b : Bool) (c : Char) (s : List Char) :
    guardClosings b (c :: s) =
      (if b && c == '/' then ['\\', c] else [c]) ++ guardClosings (c == '<') s := by
  rw [guardClosings]
  split
  · rename_i hslash
    obtain rfl : c = '/' := by simpa using (Bool.and_eq_true_iff.1 hslash).2
    rfl
  · rfl

theorem guardClosings_append (b : Bool) (s t : List Char) :
    guardClosings b (s ++ t) = guardClosings b s ++ guardClosings (endsOpen b s) t := by
  induction s generalizing b with
  | nil => rfl
  | cons c s ih =>
    rw [List.cons_append, guardClosings_cons, guardClosings_cons, ih, endsOpen_cons,
      List.append_assoc]

/-- Only slashes are guarded. -/
theorem guardClosings_of_not_mem {s : List Char} (hs : '/' ∉ s) (b : Bool) :
    guardClosings b s = s := by
  induction s generalizing b with
  | nil => rfl
  | cons c s ih =>
    rw [List.mem_cons, not_or] at hs
    rw [guardClosings, if_neg (by simp [Ne.symm hs.1]), ih hs.2]

theorem not_prefix_guardClosings (s : List Char) : ¬ ['/'] <+: guardClosings true s := by
  cases s with
  | nil => simp [guardClosings]
  | cons c s =>
    rw [guardClosings_cons]
    by_cases hc : c = '/'
    · simp [hc]
    · simp [hc, Ne.symm hc]

/-- **No closing tag is left** in a guarded text. -/
theorem not_infix_guardClosings (b : Bool) (s : List Char) :
    ¬ ['<', '/'] <:+: guardClosings b s := by
  induction s generalizing b with
  | nil => simp [guardClosings]
  | cons c s ih =>
    have hcons : ¬ ['<', '/'] <:+: c :: guardClosings (c == '<') s := by
      rw [List.infix_cons_iff, List.cons_prefix_cons]
      rintro (⟨rfl, hslash⟩ | hrest)
      · exact not_prefix_guardClosings s hslash
      · exact ih _ hrest
    rw [guardClosings_cons]
    split
    · rw [List.cons_append, List.infix_cons_iff, List.cons_prefix_cons]
      rintro (⟨hbackslash, -⟩ | hrest)
      · exact absurd hbackslash (by decide)
      · exact hcons hrest
    · exact hcons

/-! ### Guarded strings -/

/-- The digits of a control character are no slash. -/
theorem digitChar_control_ne_slash : ∀ n < 32,
    '/' ≠ Nat.digitChar (n / 16) ∧ '/' ≠ Nat.digitChar (n % 16) := by
  decide

end Entry

/-- A guarded character is written in one of the ways to write it: a slash may stand after a
backslash, and what stands after a backslash is not guarded. -/
theorem Json.Escapes.guarded {c : Char} {cs : List Char} (h : Escapes c cs) (b : Bool) :
    Escapes c (Entry.guardClosings b cs) := by
  cases h with
  | plain hquote hslash hc =>
    by_cases hguard : b = true ∧ c = '/'
    · obtain ⟨rfl, rfl⟩ := hguard
      exact .letter rfl
    · have hself : Entry.guardClosings b [c] = [c] := by
        rw [Entry.guardClosings, if_neg (by simpa using hguard), Entry.guardClosings]
      rw [hself]
      exact .plain hquote hslash hc
  | @letter e he =>
    have hself : Entry.guardClosings b ['\\', e] = ['\\', e] := by simp [Entry.guardClosings]
    rw [hself]
    exact .letter he
  | number hc =>
    obtain ⟨hhigh, hlow⟩ := Entry.digitChar_control_ne_slash _ hc
    rw [Entry.guardClosings_of_not_mem (by simp [hhigh, hlow])]
    exact .number hc

/-- **Guarded characters spell the same text.** -/
theorem Json.Spells.guarded {s body : List Char} (h : Spells s body) (b : Bool) :
    Spells s (Entry.guardClosings b body) := by
  induction h generalizing b with
  | nil => exact .nil
  | cons h _ ih =>
    rw [Entry.guardClosings_append]
    exact .cons (h.guarded b) (ih _)

namespace Entry

/-- The quotes around a text are not guarded. -/
theorem exists_guardClosings_quotedChars (s rest : List Char) :
    ∃ body, Spells s body ∧ guardClosings false (quotedChars s ++ rest) =
      '"' :: body ++ '"' :: guardClosings false rest := by
  refine ⟨guardClosings false (s.flatMap escaped), (spells_flatMap_escaped s).guarded false, ?_⟩
  rw [quotedChars, List.cons_append, List.cons_append, guardClosings_cons, List.append_assoc,
    guardClosings_append, List.singleton_append, guardClosings_cons]
  simp

/-! ### Guarded values -/

/-- A value that is read back when it has been written and guarded, whatever comes after. -/
def ReadsBack (v : Json) : Prop :=
  ∀ depth fuel rest, (guardClosings false (printAt depth v)).length ≤ fuel →
    readValue fuel (guardClosings false (printAt depth v) ++ rest) = some (v, rest)

theorem readsBack_null : ReadsBack .null := by
  intro depth fuel rest hfuel
  have hself : guardClosings false (printAt depth .null) = "null".toList := by
    rw [printAt]
    rfl
  rw [hself] at hfuel ⊢
  obtain ⟨fuel, rfl⟩ := Nat.exists_eq_add_of_le' (Nat.one_le_of_lt hfuel)
  simp [readValue, skipGap, isGap, afterWord, String.length]

theorem readsBack_string (s : String) : ReadsBack (.string s) := by
  intro depth fuel rest hfuel
  obtain ⟨body, hspells, hguarded⟩ := exists_guardClosings_quotedChars s.toList []
  have hself : guardClosings false (printAt depth (.string s)) = '"' :: body ++ ['"'] := by
    rw [printAt, ← List.append_nil (quotedChars _), hguarded, guardClosings]
  rw [hself] at hfuel ⊢
  obtain ⟨fuel, rfl⟩ := Nat.exists_eq_add_of_le' (Nat.one_le_of_lt hfuel)
  rw [List.append_assoc, List.singleton_append, hspells.readValue, String.ofList_toList]

theorem skipGap_newLine (depth : ℕ) (s : List Char) : skipGap (newLine depth ++ s) = skipGap s := by
  have hgap : ∀ n : ℕ, (List.replicate n ' ' ++ s).dropWhile isGap = s.dropWhile isGap := by
    intro n
    exact List.dropWhile_append_of_pos fun c hc ↦ (List.eq_of_mem_replicate hc) ▸ rfl
  exact hgap _

/-- White space in front of a value is skipped. -/
theorem readValue_congr {s t : List Char} (h : skipGap s = skipGap t) (fuel : ℕ) :
    readValue fuel s = readValue fuel t := by
  cases fuel with
  | zero => rw [readValue, readValue]
  | succ fuel => rw [readValue, readValue, h]

theorem readMembers_congr {s t : List Char} (h : skipGap s = skipGap t) (fuel : ℕ) :
    readMembers fuel s = readMembers fuel t := by
  cases fuel with
  | zero => rw [readMembers, readMembers]
  | succ fuel => rw [readMembers, readMembers, h]

/-- What comes after a member of an object: the other members, and the end of the object. -/
def afterMember (depth outer : ℕ) (ms : List (String × Json)) : List Char :=
  printMembers depth ms ++ (newLine outer ++ ['\x7d'])

/-- The members of an object and its end. -/
def fromMember (depth outer : ℕ) (m : String × Json) (ms : List (String × Json)) : List Char :=
  quotedChars m.1.toList ++ ([':', ' '] ++ (printAt depth m.2 ++ afterMember depth outer ms))

theorem afterMember_cons (depth outer : ℕ) (m : String × Json) (ms : List (String × Json)) :
    afterMember depth outer (m :: ms) = ',' :: (newLine depth ++ fromMember depth outer m ms) := by
  simp [afterMember, fromMember, printMembers]

theorem printAt_object (depth : ℕ) (m : String × Json) (ms : List (String × Json)) :
    printAt depth (.object (m :: ms)) =
      '\x7b' :: (newLine (depth + 1) ++ fromMember (depth + 1) depth m ms) := by
  simp [printAt, fromMember, afterMember]

theorem slash_not_mem_newLine (depth : ℕ) : '/' ∉ newLine depth := by
  simp [newLine]

theorem guardClosings_newLine (b : Bool) (depth : ℕ) (s : List Char) :
    guardClosings b (newLine depth ++ s) = newLine depth ++ guardClosings false s := by
  have hend : endsOpen b (newLine depth) = false := by
    rw [newLine, endsOpen_cons]
    cases hlast : (List.replicate (2 * depth) ' ').getLast? with
    | none => simp [endsOpen, hlast]
    | some c =>
      have hc := List.eq_of_mem_replicate (List.mem_of_getLast? hlast)
      simp [endsOpen, hlast, hc]
  rw [guardClosings_append, guardClosings_of_not_mem (slash_not_mem_newLine depth), hend]

/-- Behind a value nothing is guarded. -/
theorem guardClosings_afterMember (b : Bool) (depth outer : ℕ) (ms : List (String × Json)) :
    guardClosings b (afterMember depth outer ms) =
      guardClosings false (afterMember depth outer ms) := by
  cases ms with
  | nil => rw [afterMember, printMembers, List.nil_append, guardClosings_newLine,
      guardClosings_newLine]
  | cons m ms => rw [afterMember_cons, guardClosings_cons, guardClosings_cons]; simp

theorem exists_guardClosings_fromMember (depth outer : ℕ) (m : String × Json)
    (ms : List (String × Json)) :
    ∃ body, Spells m.1.toList body ∧ guardClosings false (fromMember depth outer m ms) =
      '"' :: body ++ '"' :: ':' :: ' ' :: (guardClosings false (printAt depth m.2) ++
        guardClosings false (afterMember depth outer ms)) := by
  obtain ⟨body, hspells, hguarded⟩ := exists_guardClosings_quotedChars m.1.toList
    ([':', ' '] ++ (printAt depth m.2 ++ afterMember depth outer ms))
  refine ⟨body, hspells, hguarded.trans ?_⟩
  rw [guardClosings_append, guardClosings_append, guardClosings_afterMember]
  rfl

/-- Reading a member is reading its name and its value. -/
theorem readMembers_member {name body value rest : List Char} (hname : Spells name body)
    {fuel : ℕ} {v : Json} (hvalue : readValue fuel (value ++ rest) = some (v, rest)) :
    readMembers (fuel + 1) ('"' :: body ++ '"' :: ':' :: ' ' :: (value ++ rest)) =
      match skipGap rest with
      | '\x7d' :: rest => some ([(some (.ofList name), v)], rest)
      | ',' :: rest => (readMembers fuel rest).map fun r ↦ ((some (.ofList name), v) :: r.1, r.2)
      | _ => none := by
  have hquote : ∀ s, skipGap ('"' :: s) = '"' :: s := fun _ ↦ rfl
  have hcolon : ∀ s, skipGap (':' :: s) = ':' :: s := fun _ ↦ rfl
  have hspace : readValue fuel (' ' :: (value ++ rest)) = some (v, rest) := by
    have hskip : skipGap (' ' :: (value ++ rest)) = skipGap (value ++ rest) := rfl
    rw [readValue_congr hskip, hvalue]
  rw [readMembers, List.cons_append, hquote]
  simp only [hname.readString, hcolon, hspace, Option.bind_eq_bind, Option.bind_some,
    Option.pure_def]
  rcases skipGap rest with - | ⟨c, s⟩
  · rfl
  by_cases hclosing : c = '\x7d'
  · subst hclosing
    rfl
  by_cases hcomma : c = ','
  · subst hcomma
    show (readMembers fuel s >>= _) = (readMembers fuel s).map _
    cases readMembers fuel s <;> rfl
  · simp [hclosing, hcomma]

/-- **Guarded members are read back** up to the end of their object. -/
theorem readMembers_guarded (depth outer fuel : ℕ) (m : String × Json) (ms : List (String × Json))
    (h : ∀ n ∈ m :: ms, ReadsBack n.2) (rest : List Char)
    (hfuel : (guardClosings false (fromMember depth outer m ms)).length ≤ fuel) :
    readMembers fuel (guardClosings false (fromMember depth outer m ms) ++ rest) =
      some ((m :: ms).map fun n ↦ (some n.1, n.2), rest) := by
  induction ms generalizing m fuel with
  | nil =>
    obtain ⟨body, hspells, hguarded⟩ := exists_guardClosings_fromMember depth outer m []
    rw [hguarded] at hfuel ⊢
    obtain ⟨fuel, rfl⟩ := Nat.exists_eq_add_of_le' (Nat.one_le_of_lt hfuel)
    have hend : guardClosings false (afterMember depth outer []) = newLine outer ++ ['\x7d'] := by
      rw [afterMember, printMembers, List.nil_append, guardClosings_newLine]
      rfl
    have hvalue := h m List.mem_cons_self depth fuel (newLine outer ++ '\x7d' :: rest) (by
      simp only [List.length_append, List.length_cons] at hfuel
      omega)
    rw [hend]
    simp only [List.append_assoc, List.cons_append, List.nil_append]
    rw [← List.cons_append, readMembers_member hspells hvalue, skipGap_newLine]
    simp [skipGap, isGap]
  | cons n ms ih =>
    obtain ⟨body, hspells, hguarded⟩ := exists_guardClosings_fromMember depth outer m (n :: ms)
    rw [hguarded] at hfuel ⊢
    obtain ⟨fuel, rfl⟩ := Nat.exists_eq_add_of_le' (Nat.one_le_of_lt hfuel)
    have hnext : guardClosings false (afterMember depth outer (n :: ms)) =
        ',' :: (newLine depth ++ guardClosings false (fromMember depth outer n ms)) := by
      rw [afterMember_cons, guardClosings_cons, guardClosings_newLine]
      rfl
    rw [hnext] at hfuel ⊢
    have hvalue := h m List.mem_cons_self depth fuel
      (',' :: (newLine depth ++ (guardClosings false (fromMember depth outer n ms) ++ rest))) (by
        simp only [List.length_append, List.length_cons] at hfuel
        omega)
    have hrest := ih fuel n (fun k hk ↦ h k (List.mem_cons_of_mem m hk)) (by
      simp only [List.length_append, List.length_cons] at hfuel
      omega)
    simp only [List.append_assoc, List.cons_append]
    rw [← List.cons_append, readMembers_member hspells hvalue]
    show (readMembers fuel (newLine depth ++ _)).map _ = _
    rw [readMembers_congr (skipGap_newLine depth _), hrest, String.ofList_toList]
    rfl

/-- A list is read back if each of its elements is. -/
theorem mapM_map_eq_some {α β : Type} {f : α → β} {g : β → Option α} (h : ∀ a, g (f a) = some a)
    (as : List α) : (as.map f).mapM g = some as := by
  induction as with
  | nil => rfl
  | cons a as ih => rw [List.map_cons, List.mapM_cons, h, ih]; rfl

theorem ofMembers_map (ms : List (String × Json)) :
    ofMembers (ms.map fun m ↦ (some m.1, m.2)) = .object ms := by
  rw [ofMembers, mapM_map_eq_some fun _ ↦ by rfl]

/-- Reading an object that is not empty is reading its members. -/
theorem readValue_members {fuel : ℕ} {t s rest : List Char} {members : List (Option String × Json)}
    (hskip : skipGap t = '"' :: s)
    (hmembers : readMembers fuel ('"' :: s) = some (members, rest)) :
    readValue (fuel + 1) ('\x7b' :: t) = some (ofMembers members, rest) := by
  have hbrace : skipGap ('\x7b' :: t) = '\x7b' :: t := rfl
  rw [readValue, hbrace]
  simp only [hskip]
  show (readMembers fuel ('"' :: s)).map _ = _
  rw [hmembers]
  rfl

/-- **Objects of values that are read back are read back.** -/
theorem readsBack_object {ms : List (String × Json)} (h : ∀ m ∈ ms, ReadsBack m.2) :
    ReadsBack (.object ms) := by
  intro depth fuel rest hfuel
  cases ms with
  | nil =>
    have hself : guardClosings false (printAt depth (.object [])) = ['\x7b', '\x7d'] := by
      rw [printAt]
      rfl
    rw [hself] at hfuel ⊢
    obtain ⟨fuel, rfl⟩ := Nat.exists_eq_add_of_le' (Nat.one_le_of_lt hfuel)
    simp [readValue, skipGap, isGap]
  | cons m ms =>
    have hguarded : guardClosings false (printAt depth (.object (m :: ms))) =
        '\x7b' :: (newLine (depth + 1) ++
          guardClosings false (fromMember (depth + 1) depth m ms)) := by
      rw [printAt_object, guardClosings_cons, guardClosings_newLine]
      rfl
    rw [hguarded] at hfuel ⊢
    obtain ⟨fuel, rfl⟩ := Nat.exists_eq_add_of_le' (Nat.one_le_of_lt hfuel)
    have hmembers := readMembers_guarded (depth + 1) depth fuel m ms h rest (by
      simp only [List.length_append, List.length_cons] at hfuel
      omega)
    -- the object is not empty: a quote comes first
    obtain ⟨s, hfirst⟩ : ∃ s, guardClosings false (fromMember (depth + 1) depth m ms) ++ rest =
        '"' :: s := by
      obtain ⟨body, -, hbody⟩ := exists_guardClosings_fromMember (depth + 1) depth m ms
      exact ⟨_, by rw [hbody]; rfl⟩
    have hskip : skipGap (newLine (depth + 1) ++ '"' :: s) = '"' :: s := by
      rw [skipGap_newLine]
      rfl
    rw [hfirst] at hmembers
    rw [List.cons_append, List.append_assoc, hfirst, readValue_members hskip hmembers,
      ofMembers_map]

/-- **What is read back is what a guarded text is decoded to.** -/
theorem parse?_guarded {v : Json} (h : ReadsBack v) :
    parse? (guardClosings false v.pretty.toList) = some v := by
  have hread := h 0 (2 * (guardClosings false (printAt 0 v)).length + 2) [] (by omega)
  rw [List.append_nil] at hread
  rw [pretty, String.toList_ofList, parse?, hread]
  rfl

/-! ### Reading the manifest -/

/-- The path that a data value is, or none. -/
def pathOf? : Json → Option (Option Path)
  | .null => some none
  | .string text => some (some ⟨text⟩)
  | _ => none

/-- The page that a data value tells of. -/
def entryOf? : Json → Option ManifestEntry
  | .object [("route", .string route), ("identity", .string identity), ("script", script),
      ("style", style), ("markup", markup)] => do
    return ⟨route, identity, ← pathOf? script, ← pathOf? style, ← pathOf? markup⟩
  | _ => none

/-- The pages that a data value tells of, by their routes. -/
def manifestOf? : Json → Option (List (String × ManifestEntry))
  | .object members => members.mapM fun m ↦ (entryOf? m.2).map (m.1, ·)
  | _ => none

theorem pathOf?_ofOption (p : Option Path) : pathOf? (.ofOption (p.map Path.text)) = some p := by
  cases p <;> rfl

theorem entryOf?_toJson (e : ManifestEntry) : entryOf? e.toJson = some e := by
  simp [entryOf?, ManifestEntry.toJson, pathOf?_ofOption]

theorem manifestOf?_manifestValue (c : BuildContext) :
    manifestOf? c.manifestValue = some c.manifest.entries :=
  mapM_map_eq_some (fun m ↦ congrArg (Option.map (m.1, ·)) (entryOf?_toJson m.2)) _

theorem readsBack_ofOption (text : Option String) : ReadsBack (.ofOption text) := by
  cases text with
  | none => exact readsBack_null
  | some text => exact readsBack_string text

theorem readsBack_manifestValue (c : BuildContext) : ReadsBack c.manifestValue := by
  refine readsBack_object fun m hm ↦ ?_
  obtain ⟨e, -, rfl⟩ := List.mem_map.1 hm
  refine readsBack_object ?_
  simp only [List.forall_mem_cons]
  exact ⟨readsBack_string _, readsBack_string _, readsBack_ofOption _, readsBack_ofOption _,
    readsBack_ofOption _, by simp⟩

/-! ### The page -/

/-- The page in front of the manifest. -/
def pageOpening (modules : List Path) : String :=
  "<!DOCTYPE html>\n<html>\n  <head>\n    <meta charset=\"utf-8\" />\n" ++
  "    <meta name=\"viewport\" content=\"width=device-width, initial-scale=1\" />\n" ++
  String.join ((modules.filter fun p ↦ moduleKind? p == some .style).map styleElement) ++
  "  </head>\n  <body>\n    <div id=\"root\"></div>\n    <script>\n" ++ "      "

/-- The page behind the manifest. -/
def pageClosing (modules : List Path) : String :=
  ";\n" ++ "    </script>\n" ++
  String.join ((modules.filter fun p ↦ !(moduleKind? p == some .style)).map scriptElement) ++
  "  </body>\n</html>\n"

theorem pageText_eq (modules : List Path) (manifest : String) :
    pageText modules manifest = pageOpening modules ++ "window.manifest = " ++
      .ofList (guardClosings false manifest.toList) ++ pageClosing modules := by
  have hindent : "      window.manifest = " = "      " ++ "window.manifest = " := by simp
  unfold pageText pageOpening pageClosing
  rw [List.partition_eq_filter_filter]
  simp only [hindent, String.append_assoc, Function.comp_def]

/-- **The manifest in the entry page is safe and faithful.** What stands behind the assignment has
no closing tag in it, and it is decoded to the entries of the manifest, each under its route and in
order. -/
theorem pageText_manifest (modules : List Path) (c : BuildContext) :
    ∃ inlined : String,
      pageText modules c.manifestText =
        pageOpening modules ++ "window.manifest = " ++ inlined ++ pageClosing modules ∧
      ¬ ['<', '/'] <:+: inlined.toList ∧
      (parse? inlined.toList).bind manifestOf? = some c.manifest.entries := by
  refine ⟨.ofList (guardClosings false c.manifestText.toList), pageText_eq modules c.manifestText,
    ?_, ?_⟩
  · rw [String.toList_ofList]
    exact not_infix_guardClosings false _
  · rw [String.toList_ofList, BuildContext.manifestText, parse?_guarded (readsBack_manifestValue c),
      Option.bind_some, manifestOf?_manifestValue]

end Entry

end AppletBundle
