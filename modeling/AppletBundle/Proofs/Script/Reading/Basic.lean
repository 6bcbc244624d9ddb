import AppletBundle.Proofs.Script.Lexemes
import AppletBundle.Proofs.Script.NamePlaces
import AppletBundle.Script.Parser.Function

/-!
# What parsers read

`Reads s span p Q` says what a parser makes of a source wherever it starts in a range: the cursor
moves forwards and stays between characters (`Leads`), and `Q` holds of the result. Where a part of
the source ends is not known before it is read, so `Q` is promised only if the parser stops inside
the range; whoever knows where it stopped takes the range up to there.

There is a rule for each way to put parsers together, and one lemma for each of the productions,
which follows their text. `Passing` adds to what is said of a result that a token was passed, which
the first step of a production decides (`Reads.first`, `Reads.pass`).

The grammar is recursive, so what a production reads depends on what the grammar reads of the goals
inside it. That is `GrammarReads`.
-/

namespace AppletBundle.Script.Parser

open Text

/-- A cursor stands after another one in a source, or where that stands. -/
structure Leads (s : List Char) (c c' : Cursor) : Prop where
  standsIn : c'.StandsIn s
  before_le : c.before ≤ c'.before
  start_le : c.start ≤ c'.start

/-- What a parser that starts at a cursor makes of a source: it moves the cursor forwards, and if it
stays in a range, there is something to say of its result. -/
def ReadsFrom {α : Type} (s : List Char) (span : Span) (c : Cursor) (p : Parser α) (Q : α → Prop) :
    Prop :=
  ∀ a c', p c = .ok (a, c') → Leads s c c' ∧ (c'.before ≤ span.stop → Q a)

/-- What a parser makes of a source wherever it starts in a range. -/
def Reads {α : Type} (s : List Char) (span : Span) (p : Parser α) (Q : α → Prop) : Prop :=
  ∀ c : Cursor, c.StandsIn s → span.start ≤ c.start → ReadsFrom s span c p Q

/-- What a step that passes a token says of its result; from then on the range cannot end before it
starts. -/
def Passing {α : Type} (span : Span) (Q : α → Prop) (a : α) : Prop :=
  span.start ≤ span.stop ∧ Q a

variable {α β : Type} {s : List Char} {span : Span} {c : Cursor} {p : Parser α} {Q : α → Prop}
  {f : α → Parser β} {R : β → Prop}

/-! ### Rules -/

theorem Leads.refl (hc : c.StandsIn s) : Leads s c c :=
  ⟨hc, Nat.le_refl _, Nat.le_refl _⟩

theorem Leads.trans {c₁ c₂ c₃ : Cursor} (h : Leads s c₁ c₂) (h' : Leads s c₂ c₃) : Leads s c₁ c₃ :=
  ⟨h'.standsIn, h.before_le.trans h'.before_le, h.start_le.trans h'.start_le⟩

theorem leads_moveTo (hc : c.StandsIn s) {n : ℕ} {rest : List Char} (lineStart : Bool)
    (h : dropBytes? (c.start + n) s = some rest) :
    Leads s c (c.moveTo lineStart (c.start + n) rest) := by
  have hstands := Cursor.standsIn_moveTo c lineStart h
  have hbefore := Cursor.before_moveTo c lineStart (c.start + n) rest
  have hle := hc.before_le
  have hle' := hstands.before_le
  exact ⟨hstands, by omega, by omega⟩

theorem leads_next (hc : c.StandsIn s) : Leads s c c.next := by
  have hstop : c.start + (c.stop - c.start) = c.stop := Nat.add_sub_cancel' hc.start_le
  have hrest : dropBytes? (c.start + (c.stop - c.start)) s = some c.rest := by rw [hstop, hc.rest]
  have h := leads_moveTo hc false hrest
  rwa [hstop] at h

/-- Steps one after the other: what the first one says of its result may be used for the second. -/
theorem ReadsFrom.bind (hp : ReadsFrom s span c p Q) (hc : span.start ≤ c.start)
    (hf : ∀ a c', p c = .ok (a, c') → c'.StandsIn s → span.start ≤ c'.start →
      ReadsFrom s span c' (f a) fun b ↦ Q a → R b) : ReadsFrom s span c (p >>= f) R := by
  intro b c₂ h
  obtain ⟨a, c₁, ha, hb⟩ := bind_eq_ok.1 h
  obtain ⟨hlead, hQ⟩ := hp a c₁ ha
  obtain ⟨hlead', hR⟩ := hf a c₁ ha hlead.standsIn (hc.trans hlead.start_le) b c₂ hb
  exact ⟨hlead.trans hlead', fun hstop ↦ hR hstop (hQ (hlead'.before_le.trans hstop))⟩

theorem ReadsFrom.andThen (hp : ReadsFrom s span c p Q) (hc : span.start ≤ c.start)
    (hf : ∀ a, Reads s span (f a) fun b ↦ Q a → R b) : ReadsFrom s span c (p >>= f) R :=
  hp.bind hc fun a c' _ hc' hstart' ↦ hf a c' hc' hstart'

theorem ReadsFrom.skip (hp : ReadsFrom s span c p fun _ ↦ True) (hc : span.start ≤ c.start)
    (hf : ∀ a, Reads s span (f a) R) : ReadsFrom s span c (p >>= f) R :=
  hp.bind hc fun a c' _ hc' hstart' b c'' h ↦
    (hf a c' hc' hstart' b c'' h).imp_right fun hR hstop _ ↦ hR hstop

theorem ReadsFrom.fail {expected : String} : ReadsFrom s span c (Parser.fail expected) Q :=
  fun _ _ h ↦ absurd h (fail_ne_ok _ _ _)

theorem ReadsFrom.get {f : Cursor → Parser β} (h : ReadsFrom s span c (f c) R) :
    ReadsFrom s span c (MonadState.get >>= f) R :=
  h

theorem ReadsFrom.token {f : Token → Parser β} (h : ReadsFrom s span c (f c.token) R) :
    ReadsFrom s span c (Parser.token >>= f) R :=
  h

namespace Reads

theorem bind (hp : Reads s span p Q) (hf : ∀ a, Reads s span (f a) fun b ↦ Q a → R b) :
    Reads s span (p >>= f) R := fun c hc hstart ↦
  (hp c hc hstart).andThen hstart hf

/-- A step of whose result nothing is said. -/
theorem skip (hp : Reads s span p fun _ ↦ True) (hf : ∀ a, Reads s span (f a) R) :
    Reads s span (p >>= f) R := fun c hc hstart ↦
  (hp c hc hstart).skip hstart hf

theorem mono {Q' : α → Prop} (hp : Reads s span p Q) (h : ∀ a, Q a → Q' a) : Reads s span p Q' :=
  fun c hc hstart a c' ha ↦ (hp c hc hstart a c' ha).imp_right fun hQ hstop ↦ h a (hQ hstop)

theorem forget (hp : Reads s span p Q) : Reads s span p fun _ ↦ True :=
  hp.mono fun _ _ ↦ trivial

theorem weaken (hp : Reads s span p (Passing span Q)) : Reads s span p Q :=
  hp.mono fun _ ↦ And.right

/-- A first step that passes a token. -/
theorem first (hp : Reads s span p (Passing span Q))
    (hf : ∀ a, Reads s span (f a) fun b ↦ Q a → R b) :
    Reads s span (p >>= f) (Passing span R) :=
  hp.bind fun a ↦ (hf a).mono fun _ hR hQ ↦ ⟨hQ.1, hR hQ.2⟩

/-- A first step that passes a token, and of whose result nothing is said. -/
theorem pass (hp : Reads s span p (Passing span fun _ ↦ True)) (hf : ∀ a, Reads s span (f a) R) :
    Reads s span (p >>= f) (Passing span R) :=
  hp.first fun a ↦ (hf a).mono fun _ hR _ ↦ hR

theorem pure {a : α} (h : Q a) : Reads s span (Pure.pure a) Q := by
  intro c hc _ b c' hb
  cases hb
  exact ⟨.refl hc, fun _ ↦ h⟩

theorem map {g : α → β} (hp : Reads s span p fun a ↦ R (g a)) : Reads s span (g <$> p) R := by
  rw [map_eq_pure_bind]
  exact hp.bind fun a ↦ .pure id

theorem fail {expected : String} : Reads s span (Parser.fail expected) Q :=
  fun _ _ _ ↦ .fail

theorem ite_of {b : Prop} [Decidable b] {q : Parser α} (hp : b → Reads s span p Q)
    (hq : ¬ b → Reads s span q Q) : Reads s span (if b then p else q) Q := by
  split
  · exact hp ‹_›
  · exact hq ‹_›

theorem ite {b : Prop} [Decidable b] {q : Parser α} (hp : Reads s span p Q)
    (hq : Reads s span q Q) : Reads s span (if b then p else q) Q :=
  .ite_of (fun _ ↦ hp) fun _ ↦ hq

/-- A step that decides between two ways to go on. -/
theorem branch {p : Parser Bool} {q r : Parser β} (hp : Reads s span p fun _ ↦ True)
    (hq : Reads s span q R) (hr : Reads s span r R) :
    Reads s span (p >>= fun b ↦ if b = true then q else r) R :=
  hp.skip fun _ ↦ .ite hq hr

/-- A part that may be missing. -/
theorem optional {b : Prop} [Decidable b] {next : Option α → Parser β} (hp : Reads s span p Q)
    (hnext : ∀ o, Reads s span (next o) fun r ↦ (∀ a ∈ o, Q a) → R r) :
    Reads s span (if b then some <$> p >>= next else Pure.pure none >>= next) R := by
  refine .ite (.bind (.map (hp.mono fun a ha ↦ ?_)) hnext) (.bind (.pure nofun) hnext)
  exact fun b hb ↦ Option.some.inj hb ▸ ha

/-- A node that may be missing; the test tells that it is there. -/
theorem optionalNode {b : Prop} [Decidable b] {p : Parser Node} {next : Option Node → Parser β}
    (hp : Reads s span p (Node.StandsIn span))
    (hnext : ∀ o, Reads s span (next o) fun r ↦ Node.StandsIn.ofOption span o → R r) :
    Reads s span (if b then some <$> p >>= next else Pure.pure none >>= next) R :=
  .ite (.bind (.map hp) hnext) (.bind (.pure trivial) hnext)

/-- A node that may be missing; the test tells that it is missing. -/
theorem optionalNode' {b : Prop} [Decidable b] {p : Parser Node} {next : Option Node → Parser β}
    (hp : Reads s span p (Node.StandsIn span))
    (hnext : ∀ o, Reads s span (next o) fun r ↦ Node.StandsIn.ofOption span o → R r) :
    Reads s span (if b then Pure.pure none >>= next else some <$> p >>= next) R :=
  .ite (.bind (.pure trivial) hnext) (.bind (.map hp) hnext)

/-- Looking at the cursor. -/
theorem get {f : Cursor → Parser β} (hf : ∀ c, Reads s span (f c) R) :
    Reads s span (MonadState.get >>= f) R :=
  fun c hc hstart ↦ hf c c hc hstart

theorem get_from {f : Cursor → Parser β}
    (hf : ∀ c : Cursor, c.StandsIn s → span.start ≤ c.start → ReadsFrom s span c (f c) R) :
    Reads s span (MonadState.get >>= f) R :=
  hf

/-- Looking at the cursor before a step, which may say something of it. -/
theorem get_bind {f : Cursor → α → Parser β} {Q : Cursor → α → Prop}
    (hp : ∀ c : Cursor, c.StandsIn s → span.start ≤ c.start → ReadsFrom s span c p (Q c))
    (hf : ∀ c a, Reads s span (f c a) fun b ↦ Q c a → R b) :
    Reads s span (MonadState.get >>= fun c ↦ p >>= f c) R := fun c hc hstart ↦
  (hp c hc hstart).andThen hstart (hf c)

end Reads

/-! ### Basic steps -/

theorem start_le_stop_of_contains {offset : ℕ} (h : span.contains offset = true) :
    span.start ≤ span.stop := by
  rw [Span.contains, Bool.and_eq_true, decide_eq_true_eq, decide_eq_true_eq] at h
  exact h.1.trans h.2.le

theorem passes_advance : Reads s span advance (Passing span fun _ ↦ True) := by
  intro c hc hstart a c' h
  cases h
  refine ⟨leads_next hc, fun hstop ↦ ⟨?_, trivial⟩⟩
  rw [Cursor.next, Cursor.before_moveTo] at hstop
  exact hstart.trans (hc.start_le.trans hstop)

theorem reads_advance : Reads s span advance fun _ ↦ True :=
  passes_advance.weaken

/-- Behind a token the place of the token lies in the range. -/
theorem readsFrom_advance (hc : c.StandsIn s) (hstart : span.start ≤ c.start)
    (hreal : c.token.isReal = true) :
    ReadsFrom s span c advance fun _ ↦ span.contains c.start = true := by
  intro a c' h
  cases h
  refine ⟨leads_next hc, fun hstop ↦ ?_⟩
  have hlt := hc.start_lt hreal
  rw [Cursor.next, Cursor.before_moveTo] at hstop
  rw [Span.contains, Bool.and_eq_true, decide_eq_true_eq, decide_eq_true_eq]
  omega

theorem reads_token : Reads s span token fun _ ↦ True :=
  .get fun _ ↦ .pure trivial

theorem reads_peek : Reads s span peek fun _ ↦ True :=
  .get fun _ ↦ .pure trivial

theorem reads_atPunctuator (t : String) : Reads s span (atPunctuator t) fun _ ↦ True :=
  .get fun _ ↦ .pure trivial

theorem reads_atWord (w : String) : Reads s span (atWord w) fun _ ↦ True :=
  .get fun _ ↦ .pure trivial

theorem reads_eat (t : String) : Reads s span (eat t) fun _ ↦ True :=
  .branch (reads_atPunctuator t) (.skip reads_advance fun _ ↦ .pure trivial) (.pure trivial)

theorem reads_eatWord (w : String) : Reads s span (eatWord w) fun _ ↦ True :=
  .branch (reads_atWord w) (.skip reads_advance fun _ ↦ .pure trivial) (.pure trivial)

/-- A token that decides between two ways to go on and is passed on one of them. -/
theorem passes_test {test : Parser Bool} {q r : Parser β} (ht : Reads s span test fun _ ↦ True)
    (hq : Reads s span q R) (hr : Reads s span r (Passing span R)) :
    Reads s span ((do
      if ← test then
        advance
        return true
      else return false) >>= fun b ↦ if b = true then q else r) (Passing span R) := by
  have heat : Reads s span (do
      if ← test then
        advance
        return true
      else return false) fun b ↦ b = true → span.start ≤ span.stop :=
    .branch ht (.bind passes_advance fun _ ↦ .pure fun h _ ↦ h.1) (.pure nofun)
  exact .bind heat fun b ↦ .ite_of (fun hb ↦ hq.mono fun _ hR h ↦ ⟨h hb, hR⟩) fun _ ↦
    hr.mono fun _ hR _ ↦ hR

theorem passes_eat {t : String} {q r : Parser β} (hq : Reads s span q R)
    (hr : Reads s span r (Passing span R)) :
    Reads s span (eat t >>= fun b ↦ if b = true then q else r) (Passing span R) :=
  passes_test (reads_atPunctuator t) hq hr

theorem passes_eatWord {w : String} {q r : Parser β} (hq : Reads s span q R)
    (hr : Reads s span r (Passing span R)) :
    Reads s span (eatWord w >>= fun b ↦ if b = true then q else r) (Passing span R) :=
  passes_test (reads_atWord w) hq hr

theorem passes_expect (t : String) : Reads s span (expect t) (Passing span fun _ ↦ True) :=
  passes_eat (.pure trivial) .fail

theorem passes_expectWord (w : String) : Reads s span (expectWord w) (Passing span fun _ ↦ True) :=
  passes_eatWord (.pure trivial) .fail

theorem reads_expect (t : String) : Reads s span (expect t) fun _ ↦ True :=
  (passes_expect t).weaken

theorem reads_expectWord (w : String) : Reads s span (expectWord w) fun _ ↦ True :=
  (passes_expectWord w).weaken

theorem reads_semicolon : Reads s span semicolon fun _ ↦ True :=
  .get fun _ ↦ .ite reads_advance (.ite (.pure trivial) .fail)

/-- The defaults that are part of no pattern yet do not change where the cursor stands. -/
theorem reads_setDefaults (f : Cursor → List ℕ) :
    Reads s span (modify fun c ↦ { c with defaults := f c }) fun _ ↦ True := by
  intro c hc _ a c' h
  cases h
  exact ⟨⟨⟨hc.before, hc.source, hc.rest, hc.before_le, hc.start_le, hc.startsAt, hc.start_lt⟩,
    Nat.le_refl _, Nat.le_refl _⟩, fun _ ↦ trivial⟩

theorem passes_identifier (ctx : Context) :
    Reads s span (identifier ctx) (Passing span (Binding.StandsIn span)) := by
  refine .get_from fun c hc hstart ↦ ?_
  split
  · rename_i htoken
    split
    · exact (readsFrom_advance hc hstart (by rw [htoken]; rfl)).andThen hstart fun _ ↦
        .pure fun h ↦ ⟨start_le_stop_of_contains h, h⟩
    · exact .fail
  · exact .fail

theorem reads_identifier (ctx : Context) :
    Reads s span (identifier ctx) (Binding.StandsIn span) :=
  (passes_identifier ctx).weaken

theorem reads_word : Reads s span word fun _ ↦ True := by
  refine .skip reads_token fun t ↦ ?_
  split
  · exact .skip reads_advance fun _ ↦ .pure trivial
  · exact .fail

theorem reads_collect {n : ℕ} {step : Parser (Option α)}
    (h : Reads s span step fun o ↦ ∀ a ∈ o, Q a) :
    Reads s span (collect n step) fun as ↦ ∀ a ∈ as, Q a := by
  induction n with
  | zero => exact .fail
  | succ n ih =>
    refine .bind h fun o ↦ ?_
    cases o with
    | none => exact .pure fun _ ↦ List.forall_mem_nil _
    | some a => exact .bind ih fun as ↦ .pure fun has ha ↦ List.forall_mem_cons.2 ⟨ha a rfl, has⟩

theorem reads_commaList {n : ℕ} {close : String} {item : Parser α} (h : Reads s span item Q) :
    Reads s span (commaList n close item) fun as ↦ ∀ a ∈ as, Q a := by
  refine reads_collect (.branch (reads_eat close) (.pure nofun) (.bind h fun a ↦ ?_))
  have hsome : Q a → ∀ b ∈ some a, Q b := fun ha b hb ↦ Option.some.inj hb ▸ ha
  exact .branch (reads_atPunctuator close) (.pure hsome)
    (.skip (reads_expect ",") fun _ ↦ .pure hsome)

theorem reads_nodes {n : ℕ} {step : Parser (Option Node)}
    (h : Reads s span step (Node.StandsIn.ofOption span)) :
    Reads s span (collect n step) (Node.StandsIn.ofList span) := by
  refine (reads_collect (Q := Node.StandsIn span) (h.mono ?_)).mono fun ns ↦
    Node.StandsIn.ofList_iff.2
  rintro o ho n rfl
  exact ho

theorem reads_nodeList {n : ℕ} {close : String} {item : Parser Node}
    (h : Reads s span item (Node.StandsIn span)) :
    Reads s span (commaList n close item) (Node.StandsIn.ofList span) :=
  (reads_commaList h).mono fun _ ↦ Node.StandsIn.ofList_iff.2

/-! ### Steps that read no goal -/

theorem standsIn_withComments {comments : List Comment} {n : Node} (h : n.StandsIn span) :
    (withComments comments n).StandsIn span := by
  rw [withComments]
  split <;> exact h

theorem reads_modifiers (inClass : Bool) : Reads s span (modifiers inClass) fun _ ↦ True := by
  refine .skip reads_peek fun (after, newline) ↦ .skip reads_token fun t ↦ ?_
  split
  · exact .ite (.skip reads_advance fun _ ↦ .pure trivial) (.pure trivial)
  · exact .ite (.skip reads_advance fun _ ↦ .pure trivial) (.pure trivial)
  · exact .ite (.skip reads_advance fun _ ↦ .skip (reads_eat "*") fun _ ↦ .pure trivial)
      (.pure trivial)
  · exact .ite (.skip reads_advance fun _ ↦ .pure trivial) (.pure trivial)
  · exact .skip reads_advance fun _ ↦ .pure trivial
  · exact .pure trivial

/-! ### Grammars -/

/-- A grammar reads each of its goals, and stops at the closing bracket of an element. -/
structure GrammarReads (s : List Char) (span : Span) (g : Grammar) : Prop where
  passes : ∀ goal, Reads s span (g.parse goal) (Passing span (Node.StandsIn span))
  closes : ∀ ctx c n c', g.parse (.element ctx) c = .ok (n, c') → c'.source.head? = some '>'

variable {g : Grammar} (hg : GrammarReads s span g) {ctx : Context}

include hg

theorem GrammarReads.parse (goal : Goal) : Reads s span (g.parse goal) (Node.StandsIn span) :=
  (hg.passes goal).weaken

/-! ### Patterns -/

/-- The name of a property stands in the range, computed or not. -/
theorem readsFrom_propertyKey (hc : c.StandsIn s) (hstart : span.start ≤ c.start) :
    ReadsFrom s span c (propertyKey g ctx) fun r ↦
      r.1.StandsIn span ∧ span.contains c.start = true := by
  have hreal : ∀ {r : Node × Bool}, r.1.StandsIn span → c.token.isReal = true →
      ReadsFrom s span c (advance >>= fun _ ↦ pure r) fun r ↦
        r.1.StandsIn span ∧ span.contains c.start = true := fun hr htoken ↦
    (readsFrom_advance hc hstart htoken).andThen hstart fun _ ↦ .pure fun h ↦ ⟨hr, h⟩
  refine ReadsFrom.token ?_
  split <;> rename_i htoken
  · exact hreal trivial (by rw [htoken]; rfl)
  · exact hreal trivial (by rw [htoken]; rfl)
  · exact hreal trivial (by rw [htoken]; rfl)
  · exact hreal trivial (by rw [htoken]; rfl)
  · refine (readsFrom_advance hc hstart (by rw [htoken]; rfl)).andThen hstart fun _ ↦
      .bind (hg.parse _) fun key ↦ ?_
    exact .skip (reads_expect "]") fun _ ↦ .pure fun hkey h ↦ ⟨hkey, h⟩
  · exact .fail

theorem reads_bindingElement : Reads s span (bindingElement g ctx) (Node.StandsIn span) :=
  .bind (hg.parse _) fun _ ↦ .branch (reads_eat "=")
    (.bind (hg.parse _) fun _ ↦ .pure fun hvalue htarget ↦ ⟨htarget, hvalue⟩) (.pure id)

theorem reads_arrayPatternElements :
    Reads s span (arrayPatternElements g ctx) (Node.StandsIn.ofList span) :=
  reads_nodes <| .branch (reads_eat "]") (.pure trivial) <|
    .branch (reads_eat ",") (.pure trivial) <|
      .branch (reads_eat "...")
        (.bind (hg.parse _) fun _ ↦ .branch (reads_atPunctuator "]") (.pure id) .fail)
        (.bind (reads_bindingElement hg) fun _ ↦ .branch (reads_atPunctuator "]") (.pure id)
          (.skip (reads_expect ",") fun _ ↦ .pure id))

theorem reads_patternProperty : Reads s span (patternProperty g ctx) (Node.StandsIn span) := by
  refine .branch (reads_eat "...")
    (.bind (reads_identifier ctx) fun _ ↦ .branch (reads_atPunctuator "\x7d") (.pure id) .fail) ?_
  refine .get_bind (fun c hc hstart ↦ readsFrom_propertyKey hg hc hstart) fun c (key, computed) ↦
    .branch (reads_eat ":") ?_ ?_
  · exact .bind (reads_bindingElement hg) fun _ ↦ .pure fun hvalue h ↦ ⟨h.1, hvalue⟩
  · dsimp only
    split
    · refine .ite (.branch (reads_eat "=") ?_ (.pure fun h ↦ ⟨h.2, trivial⟩)) .fail
      exact .bind (hg.parse _) fun _ ↦ .pure fun hvalue h ↦ ⟨h.2, hvalue⟩
    · exact .fail

theorem passes_bindingTarget :
    Reads s span (bindingTarget g ctx) (Passing span (Node.StandsIn span)) :=
  passes_eat (.bind (reads_arrayPatternElements hg) fun _ ↦ .pure id) <|
    passes_eat (.bind (reads_nodeList (reads_patternProperty hg)) fun _ ↦ .pure id)
      (.first (passes_identifier ctx) fun _ ↦ .pure id)

theorem reads_parameters : Reads s span (parameters g ctx) (Node.StandsIn.ofList span) :=
  reads_nodeList <| .branch (reads_eat "...")
    (.bind (hg.parse _) fun _ ↦ .branch (reads_atPunctuator ")") (.pure id) .fail)
    (reads_bindingElement hg)

/-! ### Functions -/

theorem reads_directivePrologue (n : ℕ) :
    Reads s span (directivePrologue g ctx n) fun r ↦ Node.StandsIn.ofList span r.2 := by
  induction n with
  | zero => exact .fail
  | succ n ih =>
    refine .skip reads_token fun t ↦ ?_
    split
    · refine .bind (hg.parse _) fun statement ↦ .ite (.bind ih fun _ ↦ .pure fun h _ ↦ h) ?_
      exact .pure fun h ↦ ⟨h, trivial⟩
    · exact .pure trivial

theorem reads_statementsToBrace :
    Reads s span (statementsToBrace g ctx) (Node.StandsIn.ofList span) :=
  reads_nodes <| .branch (reads_eat "\x7d") (.pure trivial) (.bind (hg.parse _) fun _ ↦ .pure id)

theorem reads_functionBody :
    Reads s span (functionBody g ctx) fun r ↦ Node.StandsIn.ofList span r.2 := by
  refine .skip (reads_expect "\x7b") fun _ ↦ .bind (reads_directivePrologue hg _) fun _ ↦
    .bind (reads_nodes ?_) fun _ ↦ .skip (reads_expect "\x7d") fun _ ↦
      .pure fun hbody hfirst ↦ Node.StandsIn.ofList_append.2 ⟨hfirst, hbody⟩
  refine .get_from fun c hc hstart ↦ ?_
  split
  · split
    · exact (Reads.pure trivial : Reads s span _ _) c hc hstart
    · -- The comments of the cursor are given away; it stands where it stood.
      intro o c' h
      cases h
      exact ⟨⟨⟨hc.before, hc.source, hc.rest, hc.before_le, hc.start_le, hc.startsAt, hc.start_lt⟩,
        Nat.le_refl _, Nat.le_refl _⟩, fun _ ↦ trivial⟩
  · exact (Reads.bind (hg.parse _) fun _ ↦ .pure id :
      Reads s span _ (Node.StandsIn.ofOption span)) c hc hstart

theorem reads_functionRest {form : DefinitionForm} {name : Option Binding}
    {isAsync isGenerator : Bool} :
    Reads s span (functionRest g form name isAsync isGenerator) fun f ↦
      (∀ b ∈ name, b.StandsIn span) → f.StandsIn span :=
  .skip (reads_expect "(") fun _ ↦ .bind (reads_parameters hg) fun _ ↦
    .bind (reads_functionBody hg) fun _ ↦ .pure fun hbody hparams hname ↦ ⟨hname, hparams, hbody⟩

theorem passes_functionDefinition {form : DefinitionForm} {nameRequired isAsync : Bool} :
    Reads s span (functionDefinition g ctx form nameRequired isAsync)
      (Passing span (Node.StandsIn span)) := by
  exact .pass (passes_expectWord "function") fun _ ↦ .skip (reads_eat "*") fun _ ↦
    .skip reads_token fun _ ↦ .optional (reads_identifier _) fun _ ↦ reads_functionRest hg

theorem reads_arrowFunction {isAsync : Bool} {params : List Node} :
    Reads s span (arrowFunction g ctx isAsync params) fun n ↦
      Node.StandsIn.ofList span params → n.StandsIn span :=
  .skip (reads_expect "=>") fun _ ↦ .branch (reads_atPunctuator "\x7b")
    (.bind (reads_functionBody hg) fun _ ↦ .pure fun hbody hparams ↦ ⟨hparams, hbody⟩)
    (.bind (hg.parse _) fun _ ↦ .pure fun hvalue hparams ↦ ⟨hparams, hvalue⟩)

/-! ### Members -/

theorem reads_methodFunction {m : Modifiers} :
    Reads s span (methodFunction g m) (Node.StandsIn span) := by
  refine .get fun c ↦ .bind (reads_functionRest hg) fun f ↦ ?_
  have hf : ((∀ b ∈ (none : Option Binding), b.StandsIn span) → f.StandsIn span) →
      f.StandsIn span := fun h ↦ h nofun
  split
  · refine .ite (.pure hf) ?_
    exact fun _ _ _ _ _ h ↦ by cases h
  · exact .pure hf

theorem reads_objectProperty : Reads s span (objectProperty g ctx) (Node.StandsIn span) := by
  refine .branch (reads_eat "...") (.bind (hg.parse _) fun _ ↦ .pure id) <|
    .skip (reads_modifiers false) fun m ↦
      .get_bind (fun c hc hstart ↦ readsFrom_propertyKey hg hc hstart) fun c (key, computed) ↦
        .skip (reads_atPunctuator "(") fun _ ↦ .ite ?_ (.branch (reads_eat ":") ?_ ?_)
  · exact .bind (reads_methodFunction hg) fun _ ↦ .pure fun hf h ↦ ⟨trivial, h.1, hf⟩
  · exact .bind (hg.parse _) fun _ ↦ .pure fun hvalue h ↦ ⟨h.1, hvalue⟩
  · dsimp only
    split
    · refine .ite (.branch (reads_eat "=") ?_ (.pure fun h ↦ h.2)) .fail
      exact .bind (hg.parse _) fun value ↦ .skip (reads_setDefaults _) fun _ ↦
        .pure fun hvalue h ↦ ⟨h.2, hvalue⟩
    · exact .fail

theorem reads_objectLiteral : Reads s span (objectLiteral g ctx) (Node.StandsIn span) :=
  .bind (reads_nodeList (reads_objectProperty hg)) fun _ ↦ .pure id

/-! ### Classes -/

theorem reads_decoratorList : Reads s span (decoratorList g ctx) (Node.StandsIn.ofList span) :=
  reads_nodes <| .branch (reads_eat "@") (.bind (hg.parse _) fun _ ↦ .pure id) (.pure trivial)

theorem reads_memberKey : Reads s span (memberKey g ctx) fun r ↦ r.1.StandsIn span := by
  intro c hc hstart
  refine ReadsFrom.token ?_
  split
  · exact (Reads.ite .fail (.skip reads_advance fun _ ↦ .pure trivial) : Reads s span _ _) c hc
      hstart
  · exact fun r c' h ↦ (readsFrom_propertyKey hg hc hstart r c' h).imp_right fun h hstop ↦
      (h hstop).1

theorem reads_classMember {decorators : List Node} {isStatic : Bool} :
    Reads s span (classMember g ctx decorators isStatic) fun n ↦
      Node.StandsIn.ofList span decorators → n.StandsIn span := by
  refine .skip (reads_modifiers true) fun m ↦ .bind (reads_memberKey hg) fun (key, computed) ↦
    .ite .fail <| .skip (reads_atPunctuator "(") fun _ ↦ .ite (.ite .fail ?_) (.ite .fail ?_)
  · exact .bind (reads_methodFunction hg) fun _ ↦ .pure fun hf hkey hds ↦ ⟨hds, hkey, hf⟩
  · exact .skip (reads_eat "=") fun _ ↦ .optionalNode (hg.parse _) fun _ ↦
      .skip reads_semicolon fun _ ↦ .pure fun hvalue hkey hds ↦ ⟨hds, hkey, hvalue⟩

theorem reads_classElement : Reads s span (classElement g ctx) (Node.StandsIn span) := by
  refine .bind (reads_decoratorList hg) fun ds ↦ .branch (reads_atWord "static") ?_
    (reads_classMember hg)
  refine .skip reads_peek fun (after, newline) ↦ .ite ?_ (.ite ?_ (reads_classMember hg))
  · exact .skip reads_advance fun _ ↦ .skip reads_advance fun _ ↦
      .bind (reads_statementsToBrace hg) fun _ ↦ .pure fun hbody _ ↦ hbody
  · exact .skip reads_advance fun _ ↦ reads_classMember hg

theorem reads_classBody : Reads s span (classBody g ctx) (Node.StandsIn.ofList span) := by
  refine .skip (reads_expect "\x7b") fun _ ↦
    .bind (reads_collect (Q := fun o ↦ ∀ n ∈ o, n.StandsIn span) ?_) fun members ↦ .pure fun h ↦ ?_
  · refine .branch (reads_eat "\x7d") (.pure nofun) <| .branch (reads_eat ";") (.pure ?_) <|
      .get fun c ↦ .bind (reads_classElement hg) fun n ↦ .pure fun hn ↦ ?_
    · rintro o ho n rfl
      cases ho
    · rintro o ho m rfl
      obtain rfl := Option.some.inj (Option.some.inj ho)
      exact standsIn_withComments hn
  · rw [Node.StandsIn.ofList_iff]
    intro n hn
    obtain ⟨o, ho, hon⟩ := List.mem_filterMap.1 hn
    exact h o ho n hon

theorem passes_classDefinition {form : DefinitionForm} {nameRequired : Bool} {ds : List Node} :
    Reads s span (classDefinition g ctx form nameRequired ds) (Passing span fun n ↦
      Node.StandsIn.ofList span ds → n.StandsIn span) :=
  .pass (passes_expectWord "class") fun _ ↦ .skip reads_token fun _ ↦
    .optional (reads_identifier ctx) fun _ ↦ .skip (reads_eatWord "extends") fun _ ↦
      .optionalNode (hg.parse _) fun _ ↦ .bind (reads_classBody hg) fun _ ↦
        .pure fun hmembers hsuper hname hds ↦ ⟨hds, hname, hsuper, hmembers⟩

theorem passes_plainClass {form : DefinitionForm} {nameRequired : Bool} :
    Reads s span (classDefinition g ctx form nameRequired []) (Passing span (Node.StandsIn span)) :=
  (passes_classDefinition hg).mono fun _ h ↦ ⟨h.1, h.2 trivial⟩

theorem passes_decoratedClass {form : DefinitionForm} {nameRequired : Bool} {ds : List Node} :
    Reads s span (classDefinition g ctx form nameRequired ds) fun n ↦
      Node.StandsIn.ofList span ds → Passing span (Node.StandsIn span) n :=
  (passes_classDefinition hg).mono fun _ h hds ↦ ⟨h.1, h.2 hds⟩

end AppletBundle.Script.Parser
