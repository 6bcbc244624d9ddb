import AppletBundle.Proofs.Script.Reading.Expression
import AppletBundle.Proofs.Script.WellFormed
import AppletBundle.Script.Parser.Module

/-!
# Where the statements of a source stand

The grammar reads every goal (`grammarReads_grammar`), by induction on the depth to which it goes:
each production reads what the productions inside it read. An item of a module is read in the range
that it takes, so it stands between characters and holds the names of its tree (`ItemStandsIn`), and
the items of a source follow one another (`InARow`).

So what other results assume of a program is true of every source that is read: its items are
placed (`placed_of_parseScript`) and it is laid out (`laidOut_of_parseScript`). Whatever is asked of
a module that was read can be put together (`isSome_assemble?_of_annotate`).
-/

namespace AppletBundle.Script

namespace Parser

open Text

section Reading

variable {s : List Char} {span : Span} {c : Cursor} {g : Grammar} {ctx : Context}

/-! ### Steps of statements -/

theorem reads_variableKind? (afterLet : Token → Bool) :
    Reads s span (variableKind? afterLet) fun _ ↦ True := by
  refine .get fun c ↦ ?_
  split <;> exact .pure trivial

theorem passes_skipKeywords (count : ℕ) :
    Reads s span (skipKeywords count) (Passing span fun _ ↦ True) :=
  .pass passes_advance fun _ ↦ .ite reads_advance (.pure trivial)

theorem reads_atLoopWord : Reads s span atLoopWord fun _ ↦ True :=
  .skip (reads_atWord "of") fun _ ↦ .skip (reads_atWord "in") fun _ ↦ .pure trivial

theorem passes_jumpLabel : Reads s span (jumpLabel ctx) (Passing span fun _ ↦ True) := by
  refine .pass passes_advance fun _ ↦ .get fun c ↦ .ite ?_ ?_
  · exact .skip (.map (reads_identifier ctx).forget) fun _ ↦ .skip reads_semicolon fun _ ↦
      .pure trivial
  · exact .skip (.pure trivial) fun _ ↦ .skip reads_semicolon fun _ ↦ .pure trivial

theorem reads_atEnd : Reads s span atEnd fun _ ↦ True :=
  .get fun _ ↦ .pure trivial

theorem reads_onlyInLists {place : StatementPlace} {p : Parser Node} {Q : Node → Prop}
    (hp : Reads s span p Q) : Reads s span (onlyInLists place p) Q :=
  .ite hp .fail

/-! ### Imports and exports of names -/

theorem reads_moduleSource : Reads s span moduleSource fun _ ↦ True := by
  refine .skip reads_token fun t ↦ ?_
  split
  · exact .skip reads_advance fun _ ↦ .pure trivial
  · exact .fail

theorem readsFrom_moduleName (hc : c.StandsIn s) (hstart : span.start ≤ c.start) :
    ReadsFrom s span c moduleName fun _ ↦ span.contains c.start = true := by
  refine ReadsFrom.token ?_
  split
  · rename_i htoken
    exact (readsFrom_advance hc hstart (by rw [htoken]; rfl)).andThen hstart fun _ ↦ .pure id
  · refine ReadsFrom.andThen (Q := fun _ ↦ span.contains c.start = true) ?_ hstart
      fun _ ↦ .pure id
    refine ReadsFrom.token ?_
    split
    · rename_i htoken
      exact (readsFrom_advance hc hstart (by rw [htoken]; rfl)).andThen hstart fun _ ↦ .pure id
    · exact .fail

theorem reads_moduleName : Reads s span moduleName fun _ ↦ True := fun _ hc hstart a c' h ↦
  (readsFrom_moduleName hc hstart a c' h).imp_right fun _ _ ↦ trivial

theorem reads_importAttribute : Reads s span importAttribute fun _ ↦ True :=
  .skip reads_moduleName fun _ ↦ .skip (reads_expect ":") fun _ ↦
    .skip reads_moduleSource fun _ ↦ .pure trivial

theorem reads_importAttributes (g : Grammar) :
    Reads s span (importAttributes g) fun _ ↦ True := by
  have hentries : ∀ w, Reads s span (do
      expect "\x7b"
      return some (ImportAttributes.mk w (← commaList g.bound "\x7d" importAttribute)))
      fun _ ↦ True := fun _ ↦
    .skip (reads_expect "\x7b") fun _ ↦ .skip (reads_commaList reads_importAttribute).forget
      fun _ ↦ .pure trivial
  refine .get fun c ↦ ?_
  split
  · exact .skip reads_advance fun _ ↦ hentries _
  · exact .ite (.pure trivial) (.skip reads_advance fun _ ↦ hentries _)
  · exact .pure trivial

theorem reads_importSpecifier :
    Reads s span (importSpecifier ctx) fun i ↦ i.binding.StandsIn span := by
  refine .get_bind (fun c hc hstart ↦ readsFrom_moduleName hc hstart) fun c imported ↦
    .branch (reads_eatWord "as") ?_ (.ite (.pure id) .fail)
  exact .bind (reads_identifier ctx) fun _ ↦ .pure fun hb _ ↦ hb

theorem reads_importClause (g : Grammar) :
    Reads s span (importClause g ctx) fun specifiers ↦
      ∀ i ∈ specifiers, i.binding.StandsIn span :=
  .branch (reads_eat "*")
    (.skip (reads_expectWord "as") fun _ ↦ .bind (reads_identifier ctx) fun _ ↦
      .pure fun hb ↦ List.forall_mem_singleton.2 hb)
    (.skip (reads_expect "\x7b") fun _ ↦ reads_commaList reads_importSpecifier)

theorem reads_importDeclaration (g : Grammar) :
    Reads s span (importDeclaration g ctx) (Node.StandsIn span) := by
  have hrest : ∀ specifiers : Option (List ImportSpecifier), Reads s span (do
      let source ← moduleSource
      let attributes ← importAttributes g
      semicolon
      return Node.importFrom specifiers source attributes) fun n ↦
        (∀ i ∈ specifiers.getD [], i.binding.StandsIn span) → n.StandsIn span := fun specifiers ↦
    .skip reads_moduleSource fun _ ↦ .skip (reads_importAttributes g) fun _ ↦
      .skip reads_semicolon fun _ ↦ .pure id
  refine .skip reads_token fun t ↦ ?_
  split
  · exact .bind (.pure (List.forall_mem_nil _)) hrest
  · have hmore : ∀ (b : Binding) (more : List ImportSpecifier), Reads s span (do
        expectWord "from"
        let specifiers ← pure (some (.default b :: more))
        let source ← moduleSource
        let attributes ← importAttributes g
        semicolon
        return Node.importFrom specifiers source attributes) fun n ↦
          (∀ i ∈ more, i.binding.StandsIn span) → b.StandsIn span → n.StandsIn span :=
      fun b more ↦ .skip (reads_expectWord "from") fun _ ↦ (hrest (some (.default b :: more))).mono
        fun _ h hmore hb ↦ h (List.forall_mem_cons.2 ⟨hb, hmore⟩)
    refine .bind (reads_identifier ctx) fun b ↦ .branch (reads_eat ",") ?_ ?_
    · exact .bind (reads_importClause g) (hmore b)
    · exact .bind (.pure (List.forall_mem_nil _)) (hmore b)
  · exact .bind (reads_importClause g) fun specifiers ↦ .skip (reads_expectWord "from") fun _ ↦
      hrest (some specifiers)

theorem reads_exportSpecifier : Reads s span exportSpecifier fun _ ↦ True :=
  .skip reads_moduleName fun _ ↦ .branch (reads_eatWord "as")
    (.skip reads_moduleName fun _ ↦ .pure trivial) (.pure trivial)

theorem reads_exportAll (g : Grammar) : Reads s span (exportAll g) (Node.StandsIn span) := by
  have hrest : ∀ exported, Reads s span (do
      expectWord "from"
      let source ← moduleSource
      let attributes ← importAttributes g
      semicolon
      return Node.exportAll exported source attributes) (Node.StandsIn span) := fun _ ↦
    .skip (reads_expectWord "from") fun _ ↦ .skip reads_moduleSource fun _ ↦
      .skip (reads_importAttributes g) fun _ ↦ .skip reads_semicolon fun _ ↦ .pure trivial
  exact .branch (reads_eatWord "as") (.skip (.map reads_moduleName) hrest)
    (.skip (.pure trivial) hrest)

theorem reads_exportList (g : Grammar) :
    Reads s span (exportList g ctx) (Node.StandsIn span) := by
  refine .skip (reads_commaList reads_exportSpecifier).forget fun _ ↦
    .branch (reads_eatWord "from") ?_ (.ite (.skip reads_semicolon fun _ ↦ .pure trivial) .fail)
  exact .skip reads_moduleSource fun _ ↦ .skip (reads_importAttributes g) fun _ ↦
    .skip reads_semicolon fun _ ↦ .pure trivial

/-- What an export holds stands in the range, from a place between two characters on. -/
def ExportStandsIn (s : List Char) (span : Span) (e : ExportedNode) : Prop :=
  e.node.StandsIn span ∧ IsCut s e.innerStart

/-! ### Statements -/

variable (hg : GrammarReads s span g)

include hg

theorem reads_declarators : Reads s span (declarators g ctx) (Node.StandsIn.ofList span) := by
  have hone : Reads s span (do
      let t ← g.parse (.bindingTarget ctx)
      if ← eat "=" then return Node.declarator t (some (← g.parse (.assignment ctx)))
      else return Node.declarator t none) (Node.StandsIn span) :=
    .bind (hg.parse _) fun _ ↦ .branch (reads_eat "=")
      (.bind (hg.parse _) fun _ ↦ .pure fun hvalue htarget ↦ ⟨htarget, hvalue⟩)
      (.pure fun htarget ↦ ⟨htarget, trivial⟩)
  exact .bind hone fun _ ↦ .bind (reads_nodes <| .branch (reads_eat ",")
    (.bind hone fun _ ↦ .pure id) (.pure trivial)) fun _ ↦
      .pure fun hothers hfirst ↦ ⟨hfirst, hothers⟩

theorem reads_variableStatement {kind : VariableKind} :
    Reads s span (variableStatement g ctx kind) (Node.StandsIn span) :=
  .bind (reads_declarators hg) fun _ ↦ .ite (.skip reads_semicolon fun _ ↦ .pure id) .fail

theorem reads_loopOver {isAwait : Bool} {left : Node} :
    Reads s span (loopOver g ctx isAwait left) fun head ↦
      left.StandsIn span → ∀ body : Node, body.StandsIn span → (head body).StandsIn span := by
  refine .branch (reads_eatWord "of") ?_ (.ite .fail ?_)
  · exact .bind (hg.parse _) fun _ ↦ .skip (reads_expect ")") fun _ ↦
      .pure fun hright hleft body hbody ↦ ⟨hleft, hright, hbody⟩
  · exact .skip (reads_expectWord "in") fun _ ↦ .bind (reads_expression hg) fun _ ↦
      .skip (reads_expect ")") fun _ ↦ .pure fun hright hleft body hbody ↦ ⟨hleft, hright, hbody⟩

theorem reads_loopWhile {init : Option Node} :
    Reads s span (loopWhile g ctx init) fun head ↦ Node.StandsIn.ofOption span init →
      ∀ body : Node, body.StandsIn span → (head body).StandsIn span := by
  refine .skip (reads_expect ";") fun _ ↦ .skip (reads_atPunctuator ";") fun _ ↦
    .optionalNode' (reads_expression hg) fun _ ↦ .skip (reads_expect ";") fun _ ↦
      .skip (reads_atPunctuator ")") fun _ ↦ .optionalNode' (reads_expression hg) fun _ ↦
        .skip (reads_expect ")") fun _ ↦ .pure ?_
  exact fun hstep htest hinit body hbody ↦ ⟨hinit, htest, hstep, hbody⟩

theorem reads_forHead {isAwait : Bool} :
    Reads s span (forHead g ctx isAwait) fun head ↦
      ∀ body : Node, body.StandsIn span → (head body).StandsIn span := by
  refine .skip (reads_variableKind? _) fun o ↦ ?_
  split
  · refine .skip (passes_skipKeywords _).weaken fun _ ↦ .bind (reads_declarators hg) fun ds ↦ ?_
    split
    · exact .branch reads_atLoopWord (reads_loopOver hg) (.ite .fail (reads_loopWhile hg))
    · exact .ite .fail (reads_loopWhile hg)
  · have hinit : Reads s span (loopWhile g ctx none) fun head ↦
        ∀ body : Node, body.StandsIn span → (head body).StandsIn span :=
      (reads_loopWhile hg).mono fun _ h ↦ h trivial
    have hover : ∀ left : Node, Reads s span (do loopOver g ctx isAwait (← target left)) fun head ↦
        left.StandsIn span → ∀ body : Node, body.StandsIn span → (head body).StandsIn span :=
      fun left ↦ .bind (reads_target left) fun _ ↦ (reads_loopOver hg).mono
        fun _ h htarget hleft ↦ h (htarget hleft)
    refine .branch (reads_atPunctuator ";") (.ite .fail hinit) <|
      .skip (reads_atWord "async") fun _ ↦ .bind (reads_expression hg) fun left ↦
        .branch reads_atLoopWord ?_ (.ite .fail (reads_loopWhile hg))
    split
    · exact .skip (reads_atWord "of") fun _ ↦ .ite .fail (hover _)
    · exact hover _

theorem passes_forStatement :
    Reads s span (forStatement g ctx) (Passing span (Node.StandsIn span)) := by
  have hrest : ∀ isAwait, Reads s span (do
      expect "("
      let head ← forHead g ctx isAwait
      return head (← g.parse (.statement ctx .single))) (Node.StandsIn span) := fun isAwait ↦
    .skip (reads_expect "(") fun _ ↦ .bind (reads_forHead hg) fun _ ↦ .bind (hg.parse _) fun body ↦
      .pure fun hbody hhead ↦ hhead body hbody
  exact .pass passes_advance fun _ ↦
    .ite (.skip (reads_eatWord "await") hrest) (.skip (.pure trivial) hrest)

theorem reads_condition : Reads s span (condition g ctx) (Node.StandsIn span) :=
  .skip (reads_expect "(") fun _ ↦ .bind (reads_expression hg) fun _ ↦
    .skip (reads_expect ")") fun _ ↦ .pure id

theorem passes_ifStatement :
    Reads s span (ifStatement g ctx) (Passing span (Node.StandsIn span)) :=
  .pass passes_advance fun _ ↦ .bind (reads_condition hg) fun _ ↦ .bind (hg.parse _) fun _ ↦
    .skip (reads_eatWord "else") fun _ ↦ .optionalNode (hg.parse _) fun _ ↦
      .pure fun halternate hconsequent htest ↦ ⟨htest, hconsequent, halternate⟩

theorem reads_caseBody : Reads s span (caseBody g ctx) (Node.StandsIn.ofList span) := by
  exact reads_nodes <| .skip (reads_atPunctuator "\x7d") fun _ ↦
    .skip (reads_atWord "case") fun _ ↦ .skip (reads_atWord "default") fun _ ↦
      .ite (.pure trivial) (.bind (hg.parse _) fun _ ↦ .pure id)

theorem passes_switchStatement :
    Reads s span (switchStatement g ctx) (Passing span (Node.StandsIn span)) := by
  refine .pass passes_advance fun _ ↦ .bind (reads_condition hg) fun _ ↦
    .skip (reads_expect "\x7b") fun _ ↦ .bind (reads_nodes ?_) fun cases ↦
      .ite (.pure fun hcases hdiscriminant ↦ ⟨hdiscriminant, hcases⟩) .fail
  refine .branch (reads_eat "\x7d") (.pure trivial) <| .branch (reads_eatWord "default") ?_ ?_
  · exact .skip (reads_expect ":") fun _ ↦ .bind (reads_caseBody hg) fun _ ↦
      .pure fun hbody ↦ ⟨trivial, hbody⟩
  · exact .skip (reads_expectWord "case") fun _ ↦ .bind (reads_expression hg) fun _ ↦
      .skip (reads_expect ":") fun _ ↦ .bind (reads_caseBody hg) fun _ ↦
        .pure fun hbody htest ↦ ⟨htest, hbody⟩

theorem passes_block : Reads s span (block g ctx) (Passing span (Node.StandsIn span)) :=
  .pass (passes_expect "\x7b") fun _ ↦ .bind (reads_statementsToBrace hg) fun _ ↦ .pure id

theorem reads_catchClause : Reads s span (catchClause g ctx) (Node.StandsIn span) := by
  have hbody : ∀ param, Reads s span (do
      expect "\x7b"
      return Node.catchClause param (← statementsToBrace g ctx)) fun n ↦
        Node.StandsIn.ofOption span param → n.StandsIn span := fun param ↦
    .skip (reads_expect "\x7b") fun _ ↦ .bind (reads_statementsToBrace hg) fun _ ↦
      .pure fun hbody hparam ↦ ⟨hparam, hbody⟩
  refine .branch (reads_eat "(") ?_ (.bind (.pure trivial) hbody)
  exact .bind (hg.parse _) fun t ↦ .skip (reads_expect ")") fun _ ↦ hbody (some t)

theorem passes_tryStatement :
    Reads s span (tryStatement g ctx) (Passing span (Node.StandsIn span)) :=
  .pass passes_advance fun _ ↦ .bind (passes_block hg).weaken fun _ ↦
    .skip (reads_eatWord "catch") fun _ ↦ .optionalNode (reads_catchClause hg) fun _ ↦
      .skip (reads_eatWord "finally") fun _ ↦ .optionalNode (passes_block hg).weaken fun _ ↦
        .ite .fail <| .pure fun hfinalizer hhandler hbody ↦ ⟨hbody, hhandler, hfinalizer⟩

theorem passes_returnStatement :
    Reads s span (returnStatement g ctx) (Passing span (Node.StandsIn span)) :=
  .ite (.pass passes_advance fun _ ↦ .skip reads_atEnd fun _ ↦
    .optionalNode' (reads_expression hg) fun _ ↦ .skip reads_semicolon fun _ ↦ .pure id) .fail

theorem passes_throwStatement :
    Reads s span (throwStatement g ctx) (Passing span (Node.StandsIn span)) :=
  .pass passes_advance fun _ ↦ .get fun _ ↦ .ite .fail <| .bind (reads_expression hg) fun _ ↦
    .skip reads_semicolon fun _ ↦ .pure id

theorem passes_expressionStatement :
    Reads s span (expressionStatement g ctx) (Passing span (Node.StandsIn span)) := by
  refine .get fun c ↦ .ite ?_ ?_
  · exact .first (passes_identifier ctx) fun _ ↦ .skip reads_advance fun _ ↦
      .bind (hg.parse _) fun _ ↦ .pure fun hbody _ ↦ hbody
  · exact .first (passes_expression hg) fun _ ↦ .skip reads_semicolon fun _ ↦ .pure id

theorem passes_functionDeclaration {place : StatementPlace} {isAsync : Bool} :
    Reads s span (functionDeclaration g ctx place isAsync) (Passing span (Node.StandsIn span)) := by
  refine .first (passes_functionDefinition hg) fun f ↦ ?_
  split
  · exact .ite .fail (.pure id)
  · exact .pure id

theorem passes_wordStatement {place : StatementPlace} (text : String) :
    Reads s span (wordStatement g ctx place text) (Passing span (Node.StandsIn span)) := by
  unfold wordStatement
  split
  · exact passes_ifStatement hg
  · exact passes_forStatement hg
  · exact .pass passes_advance fun _ ↦ .bind (reads_condition hg) fun _ ↦ .bind (hg.parse _) fun _ ↦
      .pure fun hbody htest ↦ ⟨htest, hbody⟩
  · exact .pass passes_advance fun _ ↦ .bind (hg.parse _) fun _ ↦
      .skip (reads_expectWord "while") fun _ ↦ .bind (reads_condition hg) fun _ ↦
        .skip (reads_eat ";") fun _ ↦ .pure fun htest hbody ↦ ⟨hbody, htest⟩
  · exact passes_switchStatement hg
  · exact passes_tryStatement hg
  · exact passes_throwStatement hg
  · exact passes_returnStatement hg
  · exact .map (passes_jumpLabel.mono fun _ h ↦ h)
  · exact .map (passes_jumpLabel.mono fun _ h ↦ h)
  · exact .pass passes_advance fun _ ↦ .skip reads_semicolon fun _ ↦ .pure trivial
  · exact .pass passes_advance fun _ ↦ .bind (reads_condition hg) fun _ ↦ .bind (hg.parse _) fun _ ↦
      .pure fun hbody htarget ↦ ⟨htarget, hbody⟩
  · exact passes_functionDeclaration hg
  · exact reads_onlyInLists (passes_plainClass hg)
  · exact .skip reads_peek fun (after, newline) ↦ .ite
      (.pass passes_advance fun _ ↦ (passes_functionDeclaration hg).weaken)
      (passes_expressionStatement hg)
  · exact passes_expressionStatement hg

theorem passes_bareStatement {place : StatementPlace} :
    Reads s span (bareStatement g ctx place) (Passing span (Node.StandsIn span)) := by
  have hvariables : ∀ kind count, Reads s span (do
      skipKeywords count
      variableStatement g ctx.withIn kind) (Passing span (Node.StandsIn span)) := fun kind count ↦
    .pass (passes_skipKeywords _) fun _ ↦ reads_variableStatement hg
  refine .skip reads_token fun t ↦ ?_
  split
  · exact passes_block hg
  · exact .pass passes_advance fun _ ↦ .pure trivial
  · exact .bind (reads_decoratorList hg) fun _ ↦ reads_onlyInLists (passes_decoratedClass hg)
  · refine .skip (reads_variableKind? _) fun o ↦ ?_
    split
    · exact .ite (hvariables _ _) (reads_onlyInLists (hvariables _ _))
    · exact passes_wordStatement hg _
  · exact passes_expressionStatement hg

theorem passes_statement {place : StatementPlace} :
    Reads s span (statement g ctx place) (Passing span (Node.StandsIn span)) :=
  .get fun _ ↦ .first (passes_bareStatement hg) fun _ ↦ .pure standsIn_withComments

/-! ### Items of a module -/

theorem reads_exportDefault : Reads s span (exportDefault g ctx) (Node.StandsIn span) := by
  have hvalue : Reads s span (do
      let value ← g.parse (.assignment ctx)
      semicolon
      return value) (Node.StandsIn span) :=
    .bind (hg.parse _) fun _ ↦ .skip reads_semicolon fun _ ↦ .pure id
  refine .get fun c ↦ ?_
  split
  · exact (passes_functionDefinition hg).weaken
  · exact (passes_plainClass hg).weaken
  · exact .bind (reads_decoratorList hg) fun _ ↦ (passes_classDefinition hg).weaken
  · exact .ite (.skip reads_advance fun _ ↦
      (passes_functionDefinition hg).weaken) hvalue
  · exact hvalue

theorem reads_exportDeclaration :
    Reads s span (exportDeclaration g ctx) (ExportStandsIn s span) := by
  refine .get_from fun c hc hstart ↦ ?_
  have hcut := hc.isCut_start
  have hwrap : ∀ declaration : Node, Reads s span
      (pure ⟨c.start, .exportDeclaration declaration⟩ : Parser ExportedNode) fun e ↦
        declaration.StandsIn span → ExportStandsIn s span e := fun _ ↦ .pure fun h ↦ ⟨h, hcut⟩
  refine (Reads.branch (reads_eat "*")
    (.bind (reads_exportAll g) fun _ ↦ .pure fun h ↦ ⟨h, hcut⟩) <| .branch (reads_eat "\x7b")
      (.bind (reads_exportList g) fun _ ↦ .pure fun h ↦ ⟨h, hcut⟩) <|
        .branch (reads_eatWord "default") (.get_from fun c' hc' hstart' ↦ ?_) <|
          .skip (reads_variableKind? _) fun o ↦ ?_ : Reads s span _ (ExportStandsIn s span)) c hc
            hstart
  · have hcut' := hc'.isCut_start
    exact (Reads.bind (reads_exportDefault hg) fun _ ↦ .pure fun h ↦ ⟨h, hcut'⟩ :
      Reads s span _ (ExportStandsIn s span)) c' hc' hstart'
  · split
    · exact .ite (.skip (passes_skipKeywords _).weaken fun _ ↦
        .bind (reads_variableStatement hg) hwrap) (.bind (Q := Node.StandsIn span) .fail hwrap)
    · split
      · exact .bind (passes_functionDeclaration hg).weaken hwrap
      · exact .bind (passes_plainClass hg).weaken hwrap
      · exact .bind (reads_decoratorList hg) fun _ ↦
          .bind (passes_classDefinition hg).weaken fun _ ↦ (hwrap _).mono
            fun _ h hn hds ↦ h (hn hds)
      · exact .ite (.skip reads_advance fun _ ↦ .bind (passes_functionDeclaration hg).weaken hwrap)
          (.bind (Q := Node.StandsIn span) .fail hwrap)
      · exact .bind (Q := Node.StandsIn span) .fail hwrap

theorem passes_moduleItem :
    Reads s span (moduleItem g) (Passing span (ExportStandsIn s span)) := by
  refine .get_from fun c hc hstart ↦ ?_
  have hcut := hc.isCut_start
  have hstatement : Reads s span (do
      return (⟨c.start, ← g.parse (.statement Context.module .list)⟩ : ExportedNode))
      (Passing span (ExportStandsIn s span)) := .first (hg.passes _) fun _ ↦ .pure fun h ↦ ⟨h, hcut⟩
  split
  · refine Reads.ite hstatement (.pass passes_advance fun _ ↦ ?_) c hc hstart
    exact .bind (reads_importDeclaration g) fun _ ↦ .pure fun h ↦ ⟨standsIn_withComments h, hcut⟩
  · refine (Reads.pass passes_advance fun _ ↦ .bind (reads_exportDeclaration hg) fun e ↦ ?_ :
      Reads s span _ (Passing span (ExportStandsIn s span))) c hc hstart
    exact .pure fun h : ExportStandsIn s span e ↦ And.intro (standsIn_withComments h.1) h.2
  · exact hstatement c hc hstart

/-! ### The grammar -/

theorem passes_production (goal : Goal) :
    Reads s span (production g goal) (Passing span (Node.StandsIn span)) := by
  cases goal with
  | assignment ctx => exact passes_assignment hg
  | binary ctx level arrow => exact passes_binary hg
  | unary ctx arrow => exact passes_unary hg
  | leftHandSide ctx calls => exact passes_leftHandSide hg
  | bindingTarget ctx => exact passes_bindingTarget hg
  | statement ctx place => exact passes_statement hg
  | element ctx => exact passes_element hg

omit hg in
/-- **The grammar reads every goal**: the cursor passes a token, moves forwards and stays between
characters, and the names of the tree stand where the source is read. -/
theorem grammarReads_grammar (n : ℕ) : GrammarReads s span (grammar n) := by
  induction n with
  | zero => exact ⟨fun _ ↦ .fail, fun _ _ _ _ h ↦ absurd h (fail_ne_ok _ _ _)⟩
  | succ n ih => exact ⟨passes_production ih, fun ctx ↦ closes_element (grammar n) ctx⟩

end Reading

variable {s : List Char} {k l m : ℕ} {is js : List Item} {g : Grammar}

/-! ### Items in a row -/

/-- An item stands between two cuts of a source, holds the names of its tree, and what it exports
begins at a cut. -/
structure ItemStandsIn (s : List Char) (i : Item) : Prop where
  proper : i.start ≤ i.stop
  cut_start : IsCut s i.start
  cut_stop : IsCut s i.stop
  cut_innerStart : IsCut s i.innerStart
  names : i.node.StandsIn i.span

/-- Items that stand in a source one after the other, from one offset to another. -/
inductive InARow (s : List Char) : ℕ → ℕ → List Item → Prop
  | nil {k l : ℕ} (h : k ≤ l) : InARow s k l []
  | cons {k l : ℕ} {i : Item} {is : List Item} (hstart : k ≤ i.start) (hi : ItemStandsIn s i)
      (his : InARow s i.stop l is) : InARow s k l (i :: is)

namespace InARow

theorem of_le (h : InARow s l m is) (hkl : k ≤ l) : InARow s k m is := by
  cases h with
  | nil h => exact .nil (hkl.trans h)
  | cons hstart hi his => exact .cons (hkl.trans hstart) hi his

theorem append (h : InARow s k l is) (h' : InARow s l m js) : InARow s k m (is ++ js) := by
  induction h with
  | nil hkl => exact h'.of_le hkl
  | cons hstart hi _ ih => exact .cons hstart hi (ih h')

theorem standsIn (h : InARow s k l is) : ∀ i ∈ is, ItemStandsIn s i := by
  induction h with
  | nil => exact List.forall_mem_nil _
  | cons _ hi _ ih => exact List.forall_mem_cons.2 ⟨hi, ih⟩

theorem le_start (h : InARow s k l is) : ∀ i ∈ is, k ≤ i.start := by
  induction h with
  | nil => exact List.forall_mem_nil _
  | cons hstart hi _ ih =>
    exact List.forall_mem_cons.2 ⟨hstart, fun i hmem ↦ (hstart.trans hi.proper).trans (ih i hmem)⟩

theorem ordered (h : InARow s k l is) :
    (is.map Item.span).Pairwise fun r t ↦ r.stop ≤ t.start := by
  induction h with
  | nil => exact .nil
  | cons _ _ his ih => exact .cons (List.forall_mem_map.2 his.le_start) ih

end InARow

/-! ### Reading the items -/

/-- A grammar reads its goals in every range. -/
def ReadsAll (s : List Char) (g : Grammar) : Prop :=
  ∀ span, GrammarReads s span g

theorem itemStandsIn_of_moduleItem (hg : ReadsAll s g) {c c' : Cursor} (hc : c.StandsIn s)
    {e : ExportedNode} (h : moduleItem g c = .ok (e, c')) :
    Leads s c c' ∧ ItemStandsIn s ⟨c.start, c'.before, e.innerStart, e.node⟩ := by
  obtain ⟨hlead, hitem⟩ := passes_moduleItem (hg ⟨c.start, c'.before⟩) c hc (Nat.le_refl _) e c' h
  obtain ⟨hproper, hnames, hinner⟩ := hitem (Nat.le_refl _)
  exact ⟨hlead, hproper, hc.isCut_start, hlead.standsIn.before, hinner, hnames⟩

/-- From a cursor to where it stops, a parser reads items in a row. -/
def RowFrom {α : Type} (s : List Char) (c : Cursor) (p : Parser α) (items : α → List Item) : Prop :=
  ∀ a c', p c = .ok (a, c') → c'.StandsIn s ∧ InARow s c.before c'.before (items a)

/-- Wherever it starts in a source, a parser reads items in a row. -/
def ReadsRow {α : Type} (s : List Char) (p : Parser α) (items : α → List Item) : Prop :=
  ∀ c : Cursor, c.StandsIn s → RowFrom s c p items

theorem RowFrom.get {α : Type} {c : Cursor} {f : Cursor → Parser α} {items : α → List Item}
    (h : RowFrom s c (f c) items) : RowFrom s c (MonadState.get >>= f) items :=
  h

theorem RowFrom.none {α : Type} {c : Cursor} {a : α} {items : α → List Item} (hc : c.StandsIn s)
    (h : items a = []) : RowFrom s c (pure a) items := by
  intro b c' hb
  cases hb
  exact ⟨hc, h ▸ .nil (Nat.le_refl _)⟩

theorem readsRow_collect {n : ℕ} {step : Parser (Option Item)}
    (hstep : ReadsRow s step Option.toList) : ReadsRow s (collect n step) id := by
  induction n with
  | zero => exact fun _ _ _ _ h ↦ absurd h (fail_ne_ok _ _ _)
  | succ n ih =>
    intro c hc is c' h
    obtain ⟨o, c₁, ho, h⟩ := bind_eq_ok.1 h
    obtain ⟨hc₁, hrow⟩ := hstep c hc o c₁ ho
    cases o with
    | none =>
      cases h
      exact ⟨hc₁, hrow⟩
    | some i =>
      obtain ⟨is, c₂, his, h⟩ := bind_eq_ok.1 h
      obtain ⟨hc₂, hrest⟩ := ih c₁ hc₁ is c₂ his
      cases h
      exact ⟨hc₂, hrow.append hrest⟩

theorem readsRow_moduleItems (hg : ReadsAll s g) : ReadsRow s (moduleItems g) id := by
  refine readsRow_collect fun c hc ↦ RowFrom.get ?_
  split
  · exact .none hc rfl
  · intro o c' h
    obtain ⟨e, c₁, he, h⟩ := bind_eq_ok.1 h
    obtain ⟨hlead, hitem⟩ := itemStandsIn_of_moduleItem hg hc he
    cases h
    exact ⟨hlead.standsIn, .cons hc.before_le hitem (.nil (Nat.le_refl _))⟩

/-- A statement that is no directive is the first item; a directive is none, but it is passed. -/
theorem readsRow_directiveItems (hg : ReadsAll s g) (n : ℕ) :
    ReadsRow s (directiveItems g n) Prod.snd := by
  induction n with
  | zero => exact fun _ _ _ _ h ↦ absurd h (fail_ne_ok _ _ _)
  | succ n ih =>
    refine fun c hc ↦ RowFrom.get ?_
    split
    · intro r c' h
      obtain ⟨statement, c₁, hstatement, h⟩ := bind_eq_ok.1 h
      obtain ⟨hlead, hitem⟩ :=
        (hg ⟨c.start, c₁.before⟩).passes _ c hc (Nat.le_refl _) statement c₁ hstatement
      obtain ⟨hproper, hnames⟩ := hitem (Nat.le_refl _)
      split at h
      · obtain ⟨r, c₂, hr, h⟩ := bind_eq_ok.1 h
        obtain ⟨hc₂, hrow⟩ := ih c₁ hlead.standsIn r c₂ hr
        cases h
        exact ⟨hc₂, hrow.of_le hlead.before_le⟩
      · cases h
        exact ⟨hlead.standsIn, .cons hc.before_le
          ⟨hproper, hc.isCut_start, hlead.standsIn.before, hc.isCut_start, hnames⟩
          (.nil (Nat.le_refl _))⟩
    · exact .none hc rfl

theorem readsRow_program (hg : ReadsAll s g) (hashbang : Option String) :
    ReadsRow s (program g hashbang) Program.items := by
  intro c hc p c' h
  obtain ⟨⟨directives, first⟩, c₁, hfirst, h⟩ := bind_eq_ok.1 h
  obtain ⟨rest, c₂, hrest, h⟩ := bind_eq_ok.1 h
  obtain ⟨hc₁, hrow⟩ := readsRow_directiveItems hg _ c hc _ c₁ hfirst
  obtain ⟨hc₂, hrow'⟩ := readsRow_moduleItems hg c₁ hc₁ rest c₂ hrest
  obtain ⟨_, _, hget, h⟩ := bind_eq_ok.1 h
  cases hget
  generalize repeatedName? [] _ = repeated? at h
  cases hdefaults : c₂.defaults with
  | cons d ds =>
    simp only [hdefaults] at h
    cases h
  | nil =>
    simp only [hdefaults] at h
    cases repeated? with
    | none =>
      cases h
      exact ⟨hc₂, hrow.append hrow'⟩
    | some name => exact absurd h (fail_ne_ok _ _ _)

theorem dropBytes?_splitHashbang (s : List Char) :
    dropBytes? (splitHashbang s).2.1 s = some (splitHashbang s).2.2 := by
  unfold splitHashbang
  split
  · rename_i rest
    dsimp only
    rw [Nat.add_comm _ 2, show 2 = 1 + 1 from rfl, Nat.add_assoc, dropBytes?_narrow rfl,
      dropBytes?_narrow rfl]
    exact dropBytes?_dropWhile _ rest
  · exact dropBytes?_zero s

end Parser

open AppletBundle.Script.Parser

variable {source : String} {p : Program}

/-- The items of a source stand in it one after the other. -/
theorem inARow_items (h : parseScript source = .ok p) :
    ∃ k l, InARow source.toList k l p.items := by
  have hstart : (Cursor.ofText (splitHashbang source.toList).2.1
      (splitHashbang source.toList).2.2).StandsIn source.toList :=
    Cursor.standsIn_moveTo _ true (dropBytes?_splitHashbang source.toList)
  simp only [parseScript] at h
  cases hprogram : program (grammar (8 * source.toList.length + 64))
      (splitHashbang source.toList).1 (Cursor.ofText (splitHashbang source.toList).2.1
        (splitHashbang source.toList).2.2) with
  | error e =>
    rw [hprogram] at h
    cases h
  | ok r =>
    rw [hprogram] at h
    cases h
    exact ⟨_, _, (readsRow_program (fun _ ↦ grammarReads_grammar _) _ _ hstart r.1 r.2 hprogram).2⟩

/-- **A parser places what it reads**: items stand one after the other, and each holds its
declarations. -/
theorem placed_of_parseScript (h : parseScript source = .ok p) : p.Placed := by
  obtain ⟨k, l, hrow⟩ := inARow_items h
  exact ⟨hrow.ordered, fun i hi ↦ (hrow.standsIn i hi).proper,
    fun i hi ↦ Node.declaresIn_events i.node (hrow.standsIn i hi).names⟩

/-- What a statement wraps begins where its item says. -/
theorem Node.wrappedFrom?_classify {innerStart start : ℕ} (n : Node)
    (h : start ∈ (n.classify innerStart).1.wrappedFrom?) : start = innerStart := by
  fun_induction Node.classify innerStart n with
  | case1 comments statement ih => exact ih h
  | _ => simp_all [StatementKind.wrappedFrom?]

/-- **A source that is read is laid out**: its items and what they wrap stand between characters,
one after the other, and every name of the module stands in an item that declares it. -/
theorem laidOut_of_parseScript (h : parseScript source = .ok p) : p.LaidOut source := by
  obtain ⟨k, l, hrow⟩ := inARow_items h
  have hitems := hrow.standsIn
  refine (placed_of_parseScript h).laidOut
    (fun i hi ↦ ⟨(hitems i hi).cut_start, (hitems i hi).cut_stop⟩) fun i hi start hstart ↦ ?_
  rw [Node.wrappedFrom?_classify i.node hstart]
  exact (hitems i hi).cut_innerStart

namespace ScriptModule

variable {path : Path} {m : ScriptModule}

theorem exists_annotated_of_annotate (h : annotate path source = .ok m) :
    ∃ p, parseScript source = .ok p ∧ m = p.annotated path source := by
  cases hp : parseScript source with
  | error e =>
    rw [annotate, hp] at h
    cases h
  | ok p => exact ⟨p, rfl, ((annotate_eq_ok_iff hp).1 h).2⟩

/-- **Every statement of a module that was read stands between characters** of its source, and so
does what it wraps. -/
theorem cutAt_of_annotate (h : annotate path source = .ok m) : ∀ s ∈ m.statements, m.CutAt s := by
  obtain ⟨p, hp, rfl⟩ := exists_annotated_of_annotate h
  exact cutAt_annotated (laidOut_of_parseScript hp)

/-- **Whatever is asked of a module that was read can be put together.** -/
theorem isSome_assemble?_of_annotate (h : annotate path source = .ok m) (positions : List ℕ) :
    (m.assemble? positions).isSome = true :=
  isSome_assemble? (cutAt_of_annotate h) positions

/-- Whatever declares a name or is exported in a module that was read can be part of the output. -/
theorem wellAnnotated_of_annotate (h : annotate path source = .ok m) : m.WellAnnotated := by
  obtain ⟨p, hp, rfl⟩ := exists_annotated_of_annotate h
  exact wellAnnotated_annotated path (laidOut_of_parseScript hp)

end ScriptModule

end AppletBundle.Script
