import AppletBundle.Proofs.Script.Reading.Basic
import AppletBundle.Script.Parser.Expression

/-!
# What the parser reads of an expression

The lexer cuts tokens without knowing the grammar, so some productions read their token again: as
the rest of a template, as a regular expression, or as the name or the text of an element. They move
the cursor by hand, by a count of bytes from the start of the token. That this stays between
characters rests on what the token says of the text at its start (`Cursor.StandsIn.startsAt`).

An element ends in front of its closing bracket, which the production around it takes. So that an
element stops there is part of what is known of a grammar (`closes_element`).
-/

namespace AppletBundle.Script.Parser

open Text

variable {α β : Type} {s : List Char} {span : Span} {c : Cursor} {p : Parser α} {Q : α → Prop}
  {f : α → Parser β} {R : β → Prop} {g : Grammar} {ctx : Context}

/-! ### Reading a token again -/

theorem readsFrom_jump (hc : c.StandsIn s) {n : ℕ} {rest : List Char}
    (h : dropBytes? n c.source = some rest) :
    ReadsFrom s span c (jump n rest) fun _ ↦ c.start + n ≤ span.stop := by
  intro a c' hjump
  cases hjump
  refine ⟨leads_moveTo hc false ((dropBytes?_add hc.source n).trans h), fun hstop ↦ ?_⟩
  rwa [Cursor.before_moveTo] at hstop

theorem readsFrom_jumpRaw (hc : c.StandsIn s) {n : ℕ} {rest : List Char}
    (h : dropBytes? n c.source = some rest) :
    ReadsFrom s span c (jumpRaw n rest) fun _ ↦ True := by
  have hrest : dropBytes? (c.start + n) s = some rest := (dropBytes?_add hc.source n).trans h
  have hcut : IsCut s (c.start + n) := by
    rw [IsCut, hrest]
    rfl
  intro a c' hjump
  cases hjump
  exact ⟨⟨⟨hcut, hrest, hrest, Nat.le_refl _, Nat.le_refl _, trivial,
      fun hreal ↦ absurd hreal Bool.false_ne_true⟩,
    hc.before_le.trans (Nat.le_add_right _ _), Nat.le_add_right _ _⟩, fun _ ↦ trivial⟩

theorem dropBytes?_one {ch : Char} (hch : ch.utf8Size = 1) {t : List Char} (h : t.head? = some ch) :
    dropBytes? 1 t = some (t.drop 1) := by
  obtain ⟨rest, rfl⟩ := List.head?_eq_some_iff.1 h
  exact (dropBytes?_narrow hch rest 0).trans (dropBytes?_zero rest)

/-- Text that takes the characters of a class from the place of the token. -/
theorem dropBytes?_dropWhile (isPart : Char → Bool) (t : List Char) :
    dropBytes? (byteLength (t.takeWhile isPart)) t = some (t.dropWhile isPart) := by
  have h := dropBytes?_append (t.takeWhile isPart) (t.dropWhile isPart)
  rwa [List.takeWhile_append_dropWhile] at h

/-- Raw text behind a character of one byte. -/
theorem reads_jumpRaw_one {ch : Char} (hch : ch.utf8Size = 1) {q : Parser β} {R : β → Prop}
    (hq : Reads s span q R) (hc : c.StandsIn s) (hstart : span.start ≤ c.start)
    (hhead : c.source.head? = some ch) :
    ReadsFrom s span c (do
      jumpRaw 1 ((← MonadState.get).source.drop 1)
      q) R :=
  ReadsFrom.get <| (readsFrom_jumpRaw hc (dropBytes?_one hch hhead)).skip hstart fun _ ↦ hq

/-- A punctuator stands at the start of the text of its token. -/
theorem head?_source (hc : c.StandsIn s) {t : String} (htoken : c.token = .punctuator t) :
    t.toList <+: c.source := by
  have h := hc.startsAt
  rwa [htoken] at h

theorem reads_continueTemplate : Reads s span continueTemplate fun _ ↦ True := by
  refine .get_from fun c hc hstart ↦ ?_
  split
  · rename_i htoken
    split
    · exact .fail
    · rename_i t ht
      have hstarts := hc.startsAt
      rw [htoken] at hstarts
      obtain ⟨tail, htail⟩ := hstarts
      obtain ⟨k, hk, hdrop⟩ := dropBytes?_readTemplate ht
      have hrest : dropBytes? (c.start + t.size) s = some t.rest := by
        rw [dropBytes?_add hc.source, hk,
          dropBytes?_add (dropBytes?_one rfl (by rw [← htail]; rfl)), hdrop]
      intro u c' h
      cases h
      exact ⟨⟨⟨hc.before, hc.source, hrest, hc.before_le, Nat.le_add_right _ _, trivial,
        fun _ ↦ by dsimp only; omega⟩, Nat.le_refl _, Nat.le_refl _⟩, fun _ ↦ trivial⟩
  · exact .fail

/-- A regular expression starts with a slash, which is the first character of the token. -/
theorem readsFrom_regex (hc : c.StandsIn s) (hstart : span.start ≤ c.start)
    (hslash : c.source.head? = some '/') :
    ReadsFrom s span c regex (Passing span (Node.StandsIn span)) := by
  refine ReadsFrom.get ?_
  split
  · exact .fail
  · rename_i raw rest hregex
    obtain ⟨tail, htail⟩ := List.head?_eq_some_iff.1 hslash
    have happend := append_readRegex hregex
    rw [htail, List.drop_one, List.tail_cons, ← htail] at happend
    have hdrop : dropBytes? (byteLength raw) c.source = some rest := by
      rw [happend, dropBytes?_append]
    exact (readsFrom_jump hc hdrop).andThen hstart fun _ ↦
      .pure fun hstop ↦ ⟨hstart.trans ((Nat.le_add_right _ _).trans hstop), trivial⟩

/-! ### Tags -/

theorem reads_atChar (ch : Char) : Reads s span (atChar ch) fun _ ↦ True :=
  .get fun _ ↦ .pure trivial

theorem ReadsFrom.atChar {ch : Char} {p q : Parser α}
    (hp : c.source.head? = some ch → ReadsFrom s span c p Q) (hq : ReadsFrom s span c q Q) :
    ReadsFrom s span c (Parser.atChar ch >>= fun b ↦ if b = true then p else q) Q := by
  show ReadsFrom s span c (if decide (c.source.head? = some ch) = true then p else q) Q
  split
  · exact hp (of_decide_eq_true ‹_›)
  · exact hq

theorem expectClosing_eq_ok {u : Unit} {c' : Cursor} (h : expectClosing c = .ok (u, c')) :
    c' = c ∧ c.source.head? = some '>' := by
  have hrun : (if decide (c.source.head? = some '>') = true then pure () else Parser.fail ">" :
      Parser Unit) c = .ok (u, c') := h
  split at hrun
  · cases hrun
    exact ⟨rfl, of_decide_eq_true ‹_›⟩
  · exact absurd hrun (fail_ne_ok _ _ _)

theorem ReadsFrom.expectClosing {f : Unit → Parser α}
    (hf : c.source.head? = some '>' → ReadsFrom s span c (f ()) Q) :
    ReadsFrom s span c (Parser.expectClosing >>= f) Q := by
  intro a c' h
  obtain ⟨u, c₁, hclosing, ha⟩ := bind_eq_ok.1 h
  obtain ⟨rfl, hhead⟩ := expectClosing_eq_ok hclosing
  exact hf hhead a c' ha

theorem reads_expectClosing : Reads s span expectClosing fun _ ↦ True :=
  .branch (reads_atChar '>') (.pure trivial) .fail

/-- The name of a tag or an attribute stands in the range. -/
theorem readsFrom_tagWord (hc : c.StandsIn s) (hstart : span.start ≤ c.start) :
    ReadsFrom s span c tagWord fun _ ↦ span.contains c.start = true := by
  refine ReadsFrom.get ?_
  split
  · rename_i htoken
    have hname := hc.startsAt
    rw [htoken] at hname
    obtain ⟨ch, rest, hsource, hch⟩ := hname
    have hpos : 0 < byteLength (c.source.takeWhile fun ch ↦ isIdentifierPart ch || ch == '-') := by
      rw [hsource, List.takeWhile_cons_of_pos
        (by rw [isIdentifierPart_of_isIdentifierStart hch, Bool.true_or])]
      exact byteLength_pos (List.cons_ne_nil _ _)
    refine (readsFrom_jump hc (dropBytes?_dropWhile _ _)).andThen hstart fun _ ↦
      .pure fun hstop ↦ ?_
    rw [Span.contains, Bool.and_eq_true, decide_eq_true_eq, decide_eq_true_eq]
    omega
  · exact .fail

theorem reads_tagWord : Reads s span tagWord fun _ ↦ True := fun _ hc hstart a c' h ↦
  (readsFrom_tagWord hc hstart a c' h).imp_right fun _ _ ↦ trivial

theorem reads_tagMembers (n : ℕ) (target : Node) :
    Reads s span (tagMembers target n) fun r ↦ target.StandsIn span → r.StandsIn span := by
  induction n generalizing target with
  | zero => exact .fail
  | succ n ih =>
    exact .branch (reads_eat ".") (.skip reads_tagWord fun _ ↦ ih _) (.pure id)

theorem standsIn_tagOfWord {offset : ℕ} (h : span.contains offset = true) (text : String) :
    (tagOfWord offset text).StandsIn span := by
  rw [tagOfWord]
  split_ifs
  · trivial
  · trivial
  · exact h

theorem reads_tagName (g : Grammar) : Reads s span (tagName g) (Node.StandsIn span) := by
  refine .get_bind (fun c hc hstart ↦ readsFrom_tagWord hc hstart) fun c text ↦
    .branch (reads_eat ":") (.skip reads_tagWord fun _ ↦ .pure fun _ ↦ trivial) <|
      .branch (reads_atPunctuator ".") ?_ (.pure fun h ↦ standsIn_tagOfWord h text)
  refine (reads_tagMembers _ _).mono fun r hr h ↦ hr ?_
  split_ifs
  · trivial
  · exact h

/-- A string without escapes takes its characters and two quotation marks. -/
theorem readsFrom_attributeString (hc : c.StandsIn s) (hstart : span.start ≤ c.start)
    {quote : Char} (hquote : quote.utf8Size = 1) (hhead : c.source.head? = some quote) :
    ReadsFrom s span c (attributeString quote) (Node.StandsIn span) := by
  refine ReadsFrom.get ?_
  dsimp only
  split
  · exact .fail
  · rename_i last rest hrest
    have hlast : last = quote := by
      have h := List.head?_dropWhile_not (fun ch ↦ decide (ch ≠ quote)) (c.source.drop 1)
      rw [hrest] at h
      simpa using h
    have htext := dropBytes?_dropWhile (fun ch ↦ decide (ch ≠ quote)) (c.source.drop 1)
    have hdrop : dropBytes?
        (byteLength ((c.source.drop 1).takeWhile fun ch ↦ decide (ch ≠ quote)) + 2) c.source =
          some rest := by
      rw [Nat.add_comm _ 2, show 2 = 1 + 1 from rfl, Nat.add_assoc,
        dropBytes?_add (dropBytes?_one hquote hhead), Nat.add_comm 1, dropBytes?_add htext, hrest]
      exact (dropBytes?_narrow (hlast ▸ hquote) rest 0).trans (dropBytes?_zero rest)
    exact (readsFrom_jump hc hdrop).andThen hstart fun _ ↦ .pure fun _ ↦ trivial

/-! ### Where an element stops -/

/-- Whatever a parser makes of a source, it stops at a closing angle bracket. -/
def Closes {α : Type} (p : Parser α) : Prop :=
  ∀ c a c', p c = .ok (a, c') → c'.source.head? = some '>'

theorem Closes.bind (hf : ∀ a, Closes (f a)) : Closes (p >>= f) := by
  intro c b c' h
  obtain ⟨a, c₁, -, hb⟩ := bind_eq_ok.1 h
  exact hf a c₁ b c' hb

theorem Closes.ite {b : Prop} [Decidable b] {q : Parser α} (hp : Closes p) (hq : Closes q) :
    Closes (if b then p else q) := by
  split
  · exact hp
  · exact hq

theorem closes_expectClosing (a : α) : Closes (expectClosing >>= fun _ ↦ pure a) := by
  intro c b c' h
  obtain ⟨u, c₁, hclosing, hb⟩ := bind_eq_ok.1 h
  obtain ⟨rfl, hhead⟩ := expectClosing_eq_ok hclosing
  cases hb
  exact hhead

theorem closes_element (g : Grammar) (ctx : Context) : Closes (element g ctx) := by
  refine .bind fun _ ↦ .bind fun _ ↦ .ite ?_ ?_
  · exact .bind fun _ ↦ .bind fun _ ↦ .bind fun _ ↦ closes_expectClosing _
  · refine .bind fun _ ↦ .bind fun _ ↦ .bind fun _ ↦ .ite (closes_expectClosing _) ?_
    refine .bind fun _ ↦ .bind fun _ ↦ .bind fun _ ↦ .bind fun _ ↦ .bind fun _ ↦
      .ite (closes_expectClosing _) ?_
    exact fun c a c' h ↦ absurd h (fail_ne_ok _ _ _)

/-! ### Steps without a goal -/

theorem reads_target (n : Node) :
    Reads s span (target n) fun t ↦ n.StandsIn span → t.StandsIn span := by
  unfold target
  split
  · exact .fail
  · exact .skip (reads_setDefaults _) fun _ ↦ .pure fun hn ↦ Node.standsIn_toTarget hn ‹_›

theorem reads_arrowParameters (items : List Node) :
    Reads s span (arrowParameters items) fun params ↦
      Node.StandsIn.ofList span items → Node.StandsIn.ofList span params := by
  unfold arrowParameters
  split
  · exact .fail
  · rename_i ts used htargets
    refine .skip (reads_setDefaults _) fun _ ↦ ?_
    split
    · exact .fail
    · exact .pure fun hitems ↦ Node.standsIn_toBinding_ofList
        (Node.standsIn_toTarget_ofElements hitems htargets) ‹_›

theorem standsIn_splitRest {ns : List Node} (h : Node.StandsIn.ofList span ns) :
    Node.StandsIn.ofList span (splitRest ns).1 ∧ Node.StandsIn.ofList span (splitRest ns).2 := by
  induction ns using splitRest.induct with
  | case1 => exact ⟨trivial, trivial⟩
  | case2 t => exact ⟨trivial, h⟩
  | case3 n ns hrest ih =>
    rw [splitRest]
    · exact ⟨⟨h.1, (ih h.2).1⟩, (ih h.2).2⟩
    · exact hrest

theorem reads_atArrow : Reads s span atArrow fun _ ↦ True :=
  .get fun _ ↦ .pure trivial

theorem passes_superExpression :
    Reads s span superExpression (Passing span (Node.StandsIn span)) := by
  refine .pass passes_advance fun _ ↦ .skip reads_token fun t ↦ ?_
  split
  · exact .pure trivial
  · exact .pure trivial
  · exact .pure trivial
  · exact .fail

theorem reads_propertyAccess {target : Node} {optional : Bool} :
    Reads s span (propertyAccess target optional) fun n ↦
      target.StandsIn span → n.StandsIn span := by
  refine .skip reads_token fun t ↦ ?_
  split
  · exact .skip reads_advance fun _ ↦ .pure id
  · exact .skip reads_word fun _ ↦ .pure id

theorem reads_updateTarget (n : Node) :
    Reads s span (updateTarget n) fun t ↦ n.StandsIn span → t.StandsIn span :=
  .ite (.pure id) .fail

/-! ### Markup -/

variable (hg : GrammarReads s span g)

include hg

theorem passes_expression :
    Reads s span (expression g ctx) (Passing span (Node.StandsIn span)) := by
  refine .first (hg.passes _) fun first ↦ .bind (reads_nodes <| .branch (reads_eat ",")
    (.bind (hg.parse _) fun _ ↦ .pure id) (.pure trivial)) fun others ↦ .ite ?_ ?_
  · exact .pure fun _ hfirst ↦ hfirst
  · exact .pure fun hothers hfirst ↦ ⟨hfirst, hothers⟩

theorem reads_expression : Reads s span (expression g ctx) (Node.StandsIn span) :=
  (passes_expression hg).weaken

/-- An element is followed by its closing bracket, which the caller skips. -/
theorem reads_element_bind {f : Node → Parser β}
    (hf : ∀ n, ∀ c : Cursor, c.StandsIn s → span.start ≤ c.start → c.source.head? = some '>' →
      ReadsFrom s span c (f n) fun b ↦ Passing span (Node.StandsIn span) n → R b) :
    Reads s span (g.parse (.element ctx) >>= f) R := fun c hc hstart ↦
  (hg.passes _ c hc hstart).bind hstart fun n c' hn hc' hstart' ↦
    hf n c' hc' hstart' (hg.closes ctx c n c' hn)

/-- An element with the closing bracket behind it. -/
theorem passes_wholeElement :
    Reads s span (do
      let n ← g.parse (.element ctx)
      jump 1 ((← get).source.drop 1)
      return n) (Passing span (Node.StandsIn span)) :=
  reads_element_bind hg fun _ _ hc hstart hhead ↦ ReadsFrom.get <|
    (readsFrom_jump hc (dropBytes?_one rfl hhead)).andThen hstart fun _ ↦ .pure fun _ ↦ id

theorem reads_attributeValue : Reads s span (attributeValue g ctx) (Node.StandsIn span) := by
  intro c hc hstart
  refine ReadsFrom.atChar (readsFrom_attributeString hc hstart rfl) <|
    ReadsFrom.atChar (readsFrom_attributeString hc hstart rfl) ?_
  refine (Reads.branch (reads_eat "\x7b") ?_ (.branch (reads_atPunctuator "<")
    (passes_wholeElement hg).weaken .fail) : Reads s span _ _) c hc hstart
  exact .bind (reads_expression hg) fun _ ↦ .skip (reads_expect "\x7d") fun _ ↦ .pure id

theorem reads_attributes : Reads s span (attributes g ctx) (Node.StandsIn.ofList span) := by
  refine reads_nodes (.skip reads_token fun t ↦ ?_)
  split
  · refine .skip reads_tagWord fun text ↦ .skip (reads_eat ":") fun _ ↦ ?_
    have hvalue : ∀ name, Reads s span (do
        if ← eat "=" then return some (.tagAttribute name (some (← attributeValue g ctx)))
        else return some (.tagAttribute name none)) (Node.StandsIn.ofOption span) := fun name ↦
      .branch (reads_eat "=") (.bind (reads_attributeValue hg) fun _ ↦ .pure id) (.pure trivial)
    exact .ite (.skip (.map reads_tagWord.forget) hvalue)
      (.skip (.pure trivial) hvalue)
  · exact .skip reads_advance fun _ ↦ .skip (reads_expect "...") fun _ ↦
      .bind (hg.parse _) fun _ ↦ .skip (reads_expect "\x7d") fun _ ↦ .pure id
  · exact .pure trivial

theorem reads_childValue : Reads s span (childValue g ctx) (Node.StandsIn span) := by
  -- The closing brace is the token, so it stands at the start of the text.
  have hclose : ∀ child : Node, Reads s span (do
      if ← atPunctuator "\x7d" then
        jumpRaw 1 ((← MonadState.get).source.drop 1)
        return child
      else fail "\x7d") fun n ↦ child.StandsIn span → n.StandsIn span := by
    intro child c hc hstart
    show ReadsFrom s span c (if decide (c.token = .punctuator "\x7d") = true then _ else _) _
    split
    · rename_i htoken
      have hstarts := hc.startsAt
      rw [of_decide_eq_true htoken] at hstarts
      obtain ⟨rest, hrest⟩ := hstarts
      exact reads_jumpRaw_one rfl (.pure id) hc hstart (by rw [← hrest]; rfl)
    · exact .fail
  exact .skip reads_advance fun _ ↦ .skip (reads_atPunctuator "\x7d") fun _ ↦
    .skip (reads_eat "...") fun _ ↦ .ite (.bind (.pure trivial) hclose) <|
      .ite (.bind (.map (hg.parse _)) hclose) (.bind (.map (reads_expression hg)) hclose)

theorem reads_children : Reads s span (children g ctx) (Node.StandsIn.ofList span) := by
  have hreread : Reads s span (modify fun c ↦ c.moveTo false c.start c.source) fun _ ↦ True := by
    intro c hc _ a c' h
    cases h
    exact ⟨leads_moveTo hc (n := 0) false hc.source, fun _ ↦ trivial⟩
  refine reads_nodes (.get_from fun c hc hstart ↦ ?_)
  split
  · exact .fail
  · refine (Reads.skip hreread fun _ ↦ .skip reads_peek fun (after, _) ↦ .ite ?_ ?_ :
      Reads s span _ _) c hc hstart
    · exact .skip reads_advance fun _ ↦ .skip reads_advance fun _ ↦ .pure trivial
    · exact reads_element_bind hg fun n c hc hstart hhead ↦
        reads_jumpRaw_one rfl (.pure And.right) hc hstart hhead
  · exact (Reads.skip hreread fun _ ↦ .bind (reads_childValue hg) fun _ ↦ .pure id :
      Reads s span _ (Node.StandsIn.ofOption span)) c hc hstart
  · exact (readsFrom_jumpRaw hc (dropBytes?_dropWhile _ _)).andThen hstart fun _ ↦
      .pure fun _ ↦ trivial

theorem passes_element : Reads s span (element g ctx) (Passing span (Node.StandsIn span)) := by
  refine .pass (passes_expect "<") fun _ c hc hstart ↦ ReadsFrom.atChar (fun hhead ↦ ?_) ?_
  · exact reads_jumpRaw_one rfl (.bind (reads_children hg) fun _ ↦ .skip reads_expectClosing fun _ ↦
      .pure id) hc hstart hhead
  · refine (Reads.bind (reads_tagName g) fun name ↦ .bind (reads_attributes hg) fun attrs ↦
      .branch (reads_eat "/") (.skip reads_expectClosing fun _ ↦ .pure ?_) ?_ : Reads s span _ _)
        c hc hstart
    · exact fun hattrs hname ↦ ⟨hname, hattrs, trivial⟩
    · refine fun c hc hstart ↦ ReadsFrom.expectClosing fun hhead ↦
        reads_jumpRaw_one rfl (.bind (reads_children hg) fun _ ↦
          .skip (reads_tagName g).forget fun _ ↦
            .ite (.skip reads_expectClosing fun _ ↦ .pure ?_) .fail) hc hstart hhead
      exact fun hinner hattrs hname ↦ ⟨hname, hattrs, hinner⟩

/-! ### Literals with values -/

theorem passes_templateParts {tagged : Bool} (n : ℕ) :
    Reads s span (templateParts g ctx tagged n) (Passing span fun r ↦
      Node.StandsIn.ofList span r.2) := by
  induction n with
  | zero => exact .fail
  | succ n ih =>
    refine .skip reads_token fun t ↦ ?_
    split
    · exact .ite .fail <| .pass passes_advance fun _ ↦ .ite (.pure trivial) <|
        .bind (reads_expression hg) fun _ ↦ .skip reads_continueTemplate fun _ ↦
          .bind ih.weaken fun _ ↦ .pure fun hvalues hvalue ↦ ⟨hvalue, hvalues⟩
    · exact .fail

theorem reads_spreadOrValue :
    Reads s span (do
      if ← eat "..." then Node.spread <$> g.parse (.assignment ctx.withIn)
      else g.parse (.assignment ctx.withIn)) (Node.StandsIn span) :=
  .branch (reads_eat "...") (.map (hg.parse _)) (hg.parse _)

theorem reads_arrayLiteral : Reads s span (arrayLiteral g ctx) (Node.StandsIn span) := by
  refine .map (reads_nodes ?_)
  refine .branch (reads_eat "]") (.pure trivial) <| .branch (reads_eat ",") (.pure trivial) <|
    .skip (reads_eat "...") fun _ ↦ ?_
  have hnext : ∀ element : Node, Reads s span (do
      if ← atPunctuator "]" then return some element
      else
        expect ","
        return some element) fun o ↦ element.StandsIn span → Node.StandsIn.ofOption span o :=
    fun _ ↦ .branch (reads_atPunctuator "]") (.pure id) (.skip (reads_expect ",") fun _ ↦ .pure id)
  exact .ite (.bind (.map (hg.parse _)) hnext) (.bind (hg.parse _) hnext)

theorem reads_callArguments : Reads s span (callArguments g ctx) (Node.StandsIn.ofList span) :=
  reads_nodeList (reads_spreadOrValue hg)

/-! ### Parentheses and arrow functions -/

theorem reads_parenItems (n : ℕ) :
    Reads s span (parenItems g ctx n) fun r ↦ Node.StandsIn.ofList span r.items := by
  induction n with
  | zero => exact .fail
  | succ n ih =>
    refine .branch (reads_eat ")") (.pure trivial) <| .branch (reads_eat "...") ?_ ?_
    · exact .bind (hg.parse _) fun _ ↦ .skip (reads_expect ")") fun _ ↦ .pure fun ht ↦ ⟨ht, trivial⟩
    · exact .bind (hg.parse _) fun _ ↦ .branch (reads_eat ",")
        (.bind ih fun _ ↦ .pure fun hmore hitem ↦ ⟨hitem, hmore⟩)
        (.skip (reads_expect ")") fun _ ↦ .pure fun hitem ↦ ⟨hitem, trivial⟩)

theorem reads_parenthesized {arrow : Bool} :
    Reads s span (parenthesized g ctx arrow) (Node.StandsIn span) := by
  refine .bind (reads_parenItems hg _) fun inside ↦ .skip reads_atArrow fun _ ↦
    .ite ?_ (.ite .fail ?_)
  · refine .bind (reads_arrowParameters _) fun params ↦ (reads_arrowFunction hg).mono ?_
    intro n hn hparams hitems
    obtain ⟨hfirst, hrest⟩ := standsIn_splitRest hitems
    exact hn (Node.StandsIn.ofList_append.2 ⟨hparams hfirst, hrest⟩)
  · split
    · rename_i item heq
      exact .pure fun h ↦ (heq ▸ h : Node.StandsIn.ofList span [item]).1
    · exact .pure id

theorem passes_nameOrArrow {arrow : Bool} :
    Reads s span (nameOrArrow g ctx arrow) (Passing span (Node.StandsIn span)) :=
  .first (passes_identifier ctx) fun _ ↦ .skip reads_atArrow fun _ ↦
    .ite ((reads_arrowFunction hg).mono fun _ hn hb ↦ hn ⟨hb, trivial⟩) (.pure id)

theorem passes_asyncPrimary {arrow : Bool} :
    Reads s span (asyncPrimary g ctx arrow) (Passing span (Node.StandsIn span)) := by
  refine .get fun c ↦ .ite ?_ (.ite ?_ (passes_nameOrArrow hg))
  · exact .pass passes_advance fun _ ↦ (passes_functionDefinition hg).weaken
  · exact .pass passes_advance fun _ ↦ .bind (reads_identifier _) fun _ ↦
      (reads_arrowFunction hg).mono fun _ hn hb ↦ hn ⟨hb, trivial⟩

/-! ### Values and their accesses -/

theorem passes_newExpression :
    Reads s span (newExpression g ctx) (Passing span (Node.StandsIn span)) := by
  refine .pass passes_advance fun _ ↦ .branch (reads_eat ".")
    (.skip (reads_expectWord "target") fun _ ↦ .pure trivial) <|
      .bind (hg.parse _) fun _ ↦ .branch (reads_atPunctuator "?.") .fail <|
        .branch (reads_eat "(") ?_ ?_
  · exact .bind (reads_callArguments hg) fun _ ↦ .pure fun hargs hcallee ↦ ⟨hcallee, hargs⟩
  · exact .pure fun hcallee ↦ ⟨hcallee, trivial⟩

theorem passes_importExpression :
    Reads s span (importExpression g ctx) (Passing span (Node.StandsIn span)) := by
  refine .pass passes_advance fun _ ↦ .branch (reads_eat ".")
    (.skip (reads_expectWord "meta") fun _ ↦ .pure trivial) <| .skip (reads_expect "(") fun _ ↦
      .bind (reads_callArguments hg) fun args ↦ ?_
  split
  · exact .fail
  · exact .pure id
  · exact .pure id
  · exact .fail

theorem passes_wordPrimary {arrow : Bool} (text : String) :
    Reads s span (wordPrimary g ctx arrow text) (Passing span (Node.StandsIn span)) := by
  unfold wordPrimary
  split
  · exact .pass passes_advance fun _ ↦ .pure trivial
  · exact .pass passes_advance fun _ ↦ .pure trivial
  · exact .pass passes_advance fun _ ↦ .pure trivial
  · exact .pass passes_advance fun _ ↦ .pure trivial
  · exact passes_functionDefinition hg
  · exact passes_plainClass hg
  · exact passes_newExpression hg
  · exact passes_importExpression hg
  · exact passes_superExpression
  · exact passes_asyncPrimary hg
  · exact passes_nameOrArrow hg

theorem passes_primary {arrow : Bool} :
    Reads s span (primary g ctx arrow) (Passing span (Node.StandsIn span)) := by
  intro c hc hstart
  refine ReadsFrom.token ?_
  have hleaf : ∀ n : Node, n.StandsIn span →
      ReadsFrom s span c (advance >>= fun _ ↦ pure n) (Passing span (Node.StandsIn span)) :=
    fun n hn ↦ Reads.pass passes_advance (fun _ ↦ .pure hn) c hc hstart
  split
  · exact Reads.ite (passes_nameOrArrow hg) (passes_wordPrimary hg _) c hc hstart
  · exact hleaf _ trivial
  · exact hleaf _ trivial
  · exact hleaf _ trivial
  · exact (Reads.first (passes_templateParts hg _) fun _ ↦ .pure id :
      Reads s span _ (Passing span (Node.StandsIn span))) c hc hstart
  · rename_i t htoken
    have hprefix := head?_source hc htoken
    split
    · exact Reads.pass passes_advance (fun _ ↦ reads_parenthesized hg) c hc hstart
    · exact Reads.pass passes_advance (fun _ ↦ reads_arrayLiteral hg) c hc hstart
    · exact Reads.pass passes_advance (fun _ ↦ reads_objectLiteral hg) c hc hstart
    · obtain ⟨tail, htail⟩ := hprefix
      exact readsFrom_regex hc hstart (by rw [← htail]; rfl)
    · obtain ⟨tail, htail⟩ := hprefix
      exact readsFrom_regex hc hstart (by rw [← htail]; rfl)
    · exact passes_wholeElement hg c hc hstart
    · exact Reads.bind (reads_decoratorList hg) (fun ds ↦ passes_decoratedClass hg) c hc hstart
    · exact .fail
  · exact .fail

theorem reads_accesses {calls : Bool} (n : ℕ) (target : Node) (chained : Bool) :
    Reads s span (accesses g ctx calls n target chained) fun r ↦
      target.StandsIn span → r.StandsIn span := by
  induction n generalizing target chained with
  | zero => exact .fail
  | succ n ih =>
    have hend : Reads s span (pure (if chained then .chain target else target)) fun r ↦
        target.StandsIn span → r.StandsIn span := by
      refine .pure fun h ↦ ?_
      split <;> exact h
    have hcall : ∀ b chained, Reads s span (do
        let args ← callArguments g ctx
        accesses g ctx calls n (.call target args b) chained) fun r ↦
          target.StandsIn span → r.StandsIn span := fun b chained ↦
      .bind (reads_callArguments hg) fun args ↦ (ih _ _).mono fun r hr hargs htarget ↦
        hr ⟨htarget, hargs⟩
    have hindex : ∀ b chained, Reads s span (do
        let key ← expression g ctx.withIn
        expect "]"
        accesses g ctx calls n (.index target key b) chained) fun r ↦
          target.StandsIn span → r.StandsIn span := fun b chained ↦
      .bind (reads_expression hg) fun key ↦ .skip (reads_expect "]") fun _ ↦
        (ih _ _).mono fun r hr hkey htarget ↦ hr ⟨htarget, hkey⟩
    have hproperty : ∀ b chained, Reads s span (do
        let next ← propertyAccess target b
        accesses g ctx calls n next chained) fun r ↦ target.StandsIn span → r.StandsIn span :=
      fun b chained ↦ .bind reads_propertyAccess fun next ↦ (ih _ _).mono fun r hr hnext htarget ↦
        hr (hnext htarget)
    refine .skip reads_token fun t ↦ ?_
    split
    · exact .skip reads_advance fun _ ↦ hproperty _ _
    · exact .skip reads_advance fun _ ↦ hindex _ _
    · exact .ite (.skip reads_advance fun _ ↦ hcall _ _) hend
    · exact .ite (.skip reads_advance fun _ ↦ .branch (reads_eat "[") (hindex _ _) <|
        .branch (reads_eat "(") (hcall _ _) (hproperty _ _)) .fail
    · exact .ite .fail (.bind (passes_templateParts hg _).weaken fun _ ↦ (ih _ _).mono
        fun r hr hvalues htarget ↦ hr ⟨htarget, hvalues⟩)
    · exact hend

theorem passes_leftHandSide {calls arrow : Bool} :
    Reads s span (leftHandSide g ctx calls arrow) (Passing span (Node.StandsIn span)) := by
  refine .skip (reads_atWord "async") fun isAsync ↦ .first (passes_primary hg) fun target ↦
    .ite (.pure id) ?_
  split
  · rename_i b
    refine .skip (reads_atPunctuator "(") fun _ ↦ .get fun c ↦ .ite ?_ (reads_accesses hg _ _ _)
    refine .skip reads_advance fun _ ↦ .bind (reads_callArguments hg) fun args ↦
      .branch reads_atArrow ?_ ((reads_accesses hg _ _ _).mono fun r hr hargs htarget ↦
        hr ⟨htarget, hargs⟩)
    exact .bind (reads_arrowParameters _) fun _ ↦ (reads_arrowFunction hg).mono
      fun n hn hparams hargs _ ↦ hn (hparams hargs)
  · exact reads_accesses hg _ _ _

/-! ### Operators -/

theorem passes_unary {arrow : Bool} :
    Reads s span (unary g ctx arrow) (Passing span (Node.StandsIn span)) := by
  refine .skip reads_token fun t ↦ ?_
  split
  · exact .pass passes_advance fun _ ↦ .bind (hg.parse _) fun _ ↦
      .branch (reads_atPunctuator "**") .fail (.pure id)
  · refine .ite ?_ (.ite ?_ ?_)
    · exact .pass passes_advance fun _ ↦ .bind (hg.parse _) fun _ ↦
        .bind (reads_updateTarget _) fun _ ↦ .pure fun hn h ↦ hn h
    · exact .pass passes_advance fun _ ↦ .bind (hg.parse _) fun _ ↦ .pure id
    · have hafter : ∀ (value : Node) op, Reads s span (do
          let argument ← updateTarget value
          advance
          return Node.update op false argument) fun n ↦ value.StandsIn span → n.StandsIn span :=
        fun value op ↦ .bind (reads_updateTarget value) fun _ ↦ .skip reads_advance fun _ ↦ .pure id
      exact .first (passes_leftHandSide hg) fun value ↦ .get fun c ↦ .ite (.pure id) <|
        .ite (hafter _ _) <| .ite (hafter _ _) (.pure id)

theorem reads_binaryRest {level : ℕ} (n : ℕ) (left : Node) :
    Reads s span (binaryRest g ctx level n left) fun r ↦ left.StandsIn span → r.StandsIn span := by
  induction n generalizing left with
  | zero => exact .fail
  | succ n ih =>
    refine .skip reads_token fun t ↦ ?_
    split
    · exact .pure id
    · exact .ite (.pure id) <| .skip reads_advance fun _ ↦ .bind (hg.parse _) fun right ↦
        .ite .fail ((ih _).mono fun r hr hright hleft ↦ hr ⟨hleft, hright⟩)

theorem passes_binary {level : ℕ} {arrow : Bool} :
    Reads s span (binary g ctx level arrow) (Passing span (Node.StandsIn span)) := by
  refine .skip reads_token fun t ↦ ?_
  split
  · exact .pass passes_advance fun _ ↦ .ite (.skip (reads_expectWord "in") fun _ ↦
      .bind (hg.parse _) fun _ ↦ reads_binaryRest hg _ _) .fail
  · exact .first (hg.passes _) fun left ↦ .ite (.pure id) (reads_binaryRest hg _ _)

theorem passes_yieldExpression :
    Reads s span (yieldExpression g ctx) (Passing span (Node.StandsIn span)) := by
  have hvalue : Reads s span (do return .yield false (some (← g.parse (.assignment ctx))))
      (Node.StandsIn span) := .bind (hg.parse _) fun _ ↦ .pure id
  refine .pass passes_advance fun _ ↦ .get fun c ↦ .ite (.pure trivial) ?_
  split
  · exact .ite (.skip reads_advance fun _ ↦ .bind (hg.parse _) fun _ ↦ .pure id)
      (.ite (.pure trivial) hvalue)
  · exact .pure trivial
  · exact .pure trivial
  · exact .pure trivial
  · exact hvalue

theorem passes_assignment :
    Reads s span (assignment g ctx) (Passing span (Node.StandsIn span)) := by
  refine .skip (reads_atWord "yield") fun _ ↦ .ite (passes_yieldExpression hg) <|
    .first (passes_binary hg) fun left ↦ .ite (.pure id) <| .branch (reads_eat "?") ?_ ?_
  · exact .bind (hg.parse _) fun _ ↦ .skip (reads_expect ":") fun _ ↦ .bind (hg.parse _) fun _ ↦
      .pure fun halternate hconsequent htest ↦ ⟨htest, hconsequent, halternate⟩
  · refine .skip reads_token fun t ↦ ?_
    split
    · refine .ite ?_ (.ite ?_ (.pure id))
      · exact .bind (reads_target _) fun _ ↦ .skip reads_advance fun _ ↦ .bind (hg.parse _) fun _ ↦
          .pure fun hvalue htarget hleft ↦ ⟨htarget hleft, hvalue⟩
      · exact .bind (reads_updateTarget _) fun _ ↦ .skip reads_advance fun _ ↦
          .bind (hg.parse _) fun _ ↦ .pure fun hvalue htarget hleft ↦ ⟨htarget hleft, hvalue⟩
    · exact .pure id

end AppletBundle.Script.Parser
