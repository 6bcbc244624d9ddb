import AppletBundle.Proofs.Script.Selection
import AppletBundle.Proofs.Script.WellFormed
import AppletBundle.Proofs.Text.Trim

/-!
# Assembled texts

What a statement contributes to an assembled text is read off the source: the characters between
the ends of what is kept of it (`Statement.keptRange?`), and for a default export the declaration of
its value (`Contributes`). Positions of statements that are not kept, or of none, contribute
nothing.

* `retainedText?_eq_some_iff` says that a slice at byte offsets finds what a statement contributes.
* `assemblePass?_eq` puts the texts together in one pass over the positions, with a flag for the
  first. It is the flag, not whether a text is empty, that decides on the line feed in front.
* `pairwise_keptRanges` keeps the order of statements for what is kept of them.

The main result is `assemble_joins`.
-/

namespace AppletBundle

namespace Text

/-! ### What stands between two offsets -/

/-- A text stands in a source from one offset to another. -/
def StandsBetween (source : List Char) (start stop : ℕ) (t : List Char) : Prop :=
  ∃ front rest, source = front ++ t ++ rest ∧ byteLength front = start ∧
    byteLength (front ++ t) = stop

theorem prefix_of_takeBytes? {n : ℕ} {t front : List Char} (h : takeBytes? n t = some front) :
    front <+: t := by
  induction t generalizing n front with
  | nil =>
    rcases n with - | n
    · exact Option.some.inj h ▸ List.prefix_refl _
    · cases h
  | cons c t ih =>
    rcases n with - | n
    · exact Option.some.inj h ▸ List.nil_prefix
    · rw [takeBytes?] at h
      split at h
      · obtain ⟨front, hfront, rfl⟩ := Option.map_eq_some_iff.1 h
        exact List.cons_prefix_cons.2 ⟨rfl, ih hfront⟩
      · cases h

/-- **A slice is what stands between its offsets.** -/
theorem slice?_eq_some_iff {source t : List Char} {start stop : ℕ} :
    slice? source start stop = some t ↔ StandsBetween source start stop t := by
  constructor
  · intro h
    obtain ⟨hlength, -⟩ := byteLength_of_slice? h
    rw [slice?] at h
    split at h
    · obtain ⟨behind, hdrop, htake⟩ := Option.bind_eq_some_iff.1 h
      obtain ⟨front, rfl⟩ := suffix_of_dropBytes? hdrop
      obtain ⟨rest, rfl⟩ := prefix_of_takeBytes? htake
      have hfront : byteLength front = start := by
        have hdropped := byteLength_of_dropBytes? hdrop
        rw [byteLength_append front] at hdropped
        omega
      refine ⟨front, rest, (List.append_assoc _ _ _).symm, hfront, ?_⟩
      rw [byteLength_append, hfront, hlength]
    · cases h
  · rintro ⟨front, rest, rfl, rfl, rfl⟩
    have hslice : slice? (front ++ (t ++ rest)) (offset (front ++ (t ++ rest)) (t ++ rest))
        (offset (front ++ (t ++ rest)) rest) = some t :=
      slice?_offset (List.suffix_append front (t ++ rest))
    rw [offset_append, ← List.append_assoc, offset_append] at hslice
    exact hslice

end Text

namespace Script

/-! ### What is kept of a statement -/

/-- The offset in a range that is nearest to an offset. -/
def Span.nearest (s : Span) (offset : ℕ) : ℕ :=
  if offset < s.start then s.start else if s.stop < offset then s.stop else offset

theorem Span.nearest_eq {s : Span} (h : s.start ≤ s.stop) (offset : ℕ) :
    s.nearest offset = max s.start (min offset s.stop) := by
  unfold nearest
  split
  · omega
  · split <;> omega

theorem Span.nearest_bounds {s : Span} (h : s.start ≤ s.stop) (offset : ℕ) :
    s.start ≤ s.nearest offset ∧ s.nearest offset ≤ s.stop := by
  rw [nearest_eq h]
  omega

/-- The part of the source that a statement keeps, if it keeps any: all of it, or what an export
wraps, which is looked for between its ends. -/
def Statement.keptRange? (s : Statement) : Option Span :=
  match s.kind with
  | .plain => some s.span
  | .exportWrapper start => some ⟨s.span.nearest start, s.span.stop⟩
  | .defaultExpression start => some ⟨s.span.nearest start, s.span.stop⟩
  | .importLink => none
  | .exportList => none

theorem Statement.isSome_keptRange? (s : Statement) :
    s.keptRange?.isSome = s.kind.isEmittable := by
  unfold keptRange? StatementKind.isEmittable
  rcases s.kind <;> rfl

/-- What is kept of a statement ends with it, and is a part of it. -/
theorem Statement.keptRange?_bounds {s : Statement} (h : s.span.start ≤ s.span.stop) {r : Span}
    (hr : r ∈ s.keptRange?) : s.span.start ≤ r.start ∧ r.start ≤ r.stop ∧ r.stop = s.span.stop := by
  unfold keptRange? at hr
  split at hr
  · obtain rfl := Option.some.inj hr
    exact ⟨le_rfl, h, rfl⟩
  · obtain rfl := Option.some.inj hr
    exact ⟨(Span.nearest_bounds h _).1, (Span.nearest_bounds h _).2, rfl⟩
  · obtain rfl := Option.some.inj hr
    exact ⟨(Span.nearest_bounds h _).1, (Span.nearest_bounds h _).2, rfl⟩
  · cases hr
  · cases hr

theorem Statement.retainedFrom?_eq {s : Statement} (h : s.span.start ≤ s.span.stop) :
    s.retainedFrom? = s.keptRange?.map Span.start := by
  unfold retainedFrom? keptRange?
  rcases s.kind with - | start | start | - | -
  · rfl
  · exact congrArg some (Span.nearest_eq h start).symm
  · exact congrArg some (Span.nearest_eq h start).symm
  · rfl
  · rfl

namespace ScriptModule

variable {m : ScriptModule} {s : Statement}

/-- A semicolon ends the value, white space aside. -/
def IsClosed (value : List Char) : Prop :=
  ∃ front blanks, value = front ++ ';' :: blanks ∧ ∀ c ∈ blanks, Text.isBlank c

/-- The text declares the default binding for a value, and ends in a semicolon that is the value's
or is added. -/
def DeclaresDefault (m : ScriptModule) (value t : List Char) : Prop :=
  ∃ close, t = "const ".toList ++ m.defaultBinding.toList ++ " = ".toList ++ value ++ close ∧
    (IsClosed value ∧ close = [] ∨ ¬ IsClosed value ∧ close = [';'])

/-- A text is what a statement contributes: what is kept of it, or a declaration of it. -/
def Contributes (m : ScriptModule) (s : Statement) (t : List Char) : Prop :=
  ∃ r ∈ s.keptRange?, ∃ kept, Text.StandsBetween m.source.toList r.start r.stop kept ∧
    match s.kind with
    | .defaultExpression _ => m.DeclaresDefault kept t
    | _ => t = kept

theorem isClosed_iff {value : List Char} :
    IsClosed value ↔ (Text.trimEnd value).getLast? = some ';' := by
  obtain ⟨blanks, hblanks, hvalue⟩ := Text.exists_blanks_trimEnd value
  constructor
  · rintro ⟨front, blanks', rfl, hblanks'⟩
    have hstops : Text.trimEnd (front ++ [';']) = front ++ [';'] := by
      have hnot : Text.isBlank ';' = false := by decide
      rw [Text.trimEnd, List.reverse_append, List.reverse_singleton, List.singleton_append,
        List.dropWhile_cons_of_neg (by simp [hnot])]
      simp
    rw [List.append_cons, Text.trimEnd_append_blanks hblanks', hstops, List.getLast?_concat]
  · intro hlast
    obtain ⟨front, hfront⟩ := List.getLast?_eq_some_iff.1 hlast
    refine ⟨front, blanks, ?_, hblanks⟩
    rw [List.append_cons, ← hfront]
    exact hvalue

theorem declaresDefault_iff {value t : List Char} :
    m.DeclaresDefault value t ↔ m.bindDefault value = t := by
  unfold DeclaresDefault bindDefault
  rw [isClosed_iff]
  by_cases hclosed : (Text.trimEnd value).getLast? = some ';'
  · simp [hclosed, eq_comm]
  · simp [hclosed, eq_comm]

/-- **A slice finds what a statement contributes.** -/
theorem retainedText?_eq_some_iff (h : s.span.start ≤ s.span.stop) {t : List Char} :
    m.retainedText? s = some (some t) ↔ m.Contributes s t := by
  rw [retainedText?, Statement.retainedFrom?_eq h, Option.map_map, Option.map_eq_some_iff]
  refine exists_congr fun r ↦ and_congr_right fun hr ↦ ?_
  obtain ⟨-, -, hstop⟩ := Statement.keptRange?_bounds h hr
  simp only [Function.comp_apply, if_pos h, hstop, ← Text.slice?_eq_some_iff, declaresDefault_iff]
  rcases s.kind with - | start | start | - | -
  case defaultExpression => exact Option.map_eq_some_iff
  all_goals simp [eq_comm]

theorem isSome_retainedText? (m : ScriptModule) (s : Statement) :
    (m.retainedText? s).isSome = s.kind.isEmittable := by
  rw [retainedText?, Option.isSome_map]
  unfold Statement.retainedFrom? StatementKind.isEmittable
  rcases s.kind <;> rfl

/-! ### One pass -/

/-- Goes through positions with the text so far. The flag tells that nothing has been kept yet. -/
def assemblePass? (m : ScriptModule) : List ℕ → Bool → List Char → Option (List Char)
  | [], _, code => some code
  | i :: positions, isFirst, code =>
    match m.statements[i]?.bind m.retainedText? with
    | none => m.assemblePass? positions isFirst code
    | some none => none
    | some (some t) =>
      -- the line feed depends on the flag alone: the text so far can be empty behind a statement
      m.assemblePass? positions false ((if isFirst then code else code ++ ['\n']) ++ t)

/-- A text that others follow, with a line feed in front of each but the first of all. -/
def joinedAfter (isFirst : Bool) (code : List Char) (texts : List (List Char)) : List Char :=
  if texts = [] then code
  else (if isFirst then code else code ++ ['\n']) ++ ['\n'].intercalate texts

theorem joinedAfter_cons (isFirst : Bool) (code t : List Char) (texts : List (List Char)) :
    joinedAfter isFirst code (t :: texts) =
      joinedAfter false ((if isFirst then code else code ++ ['\n']) ++ t) texts := by
  rcases texts with - | ⟨u, texts⟩
  · simp [joinedAfter]
  · simp [joinedAfter, List.intercalate_cons_cons]

theorem retainedTexts_cons (i : ℕ) (positions : List ℕ) :
    m.retainedTexts (i :: positions) =
      (m.statements[i]?.bind m.retainedText?).toList ++ m.retainedTexts positions := by
  rw [retainedTexts, retainedTexts, List.filterMap_cons]
  rcases m.statements[i]? with - | s
  · rfl
  · rw [Option.bind_some, List.filterMap_cons]
    rcases m.retainedText? s with - | t <;> rfl

theorem assemblePass?_eq_joinedAfter (positions : List ℕ) (isFirst : Bool) (code : List Char) :
    m.assemblePass? positions isFirst code =
      ((m.retainedTexts positions).mapM id).map (joinedAfter isFirst code) := by
  induction positions generalizing isFirst code with
  | nil => rfl
  | cons i positions ih =>
    rw [assemblePass?, retainedTexts_cons]
    rcases m.statements[i]?.bind m.retainedText? with - | - | t
    · exact ih isFirst code
    · rfl
    · rw [Option.toList_some, List.singleton_append, List.mapM_cons]
      simp only [ih]
      rcases (m.retainedTexts positions).mapM id with - | texts
      · rfl
      · exact congrArg some (joinedAfter_cons isFirst code t texts).symm

/-- **One pass puts statements together.** -/
theorem assemblePass?_eq (positions : List ℕ) :
    m.assemblePass? positions true [] = (m.assemble? positions).map String.toList := by
  have hjoined : joinedAfter true [] = fun texts ↦
      ("\n".intercalate (texts.map String.ofList)).toList := by
    funext texts
    rw [String.toList_intercalate, List.map_map]
    have hself : String.toList ∘ String.ofList = id := funext fun _ ↦ String.toList_ofList
    rw [hself, List.map_id, joinedAfter]
    split
    · rename_i hnil
      rw [hnil]
      rfl
    · rfl
  rw [assemblePass?_eq_joinedAfter, assemble?, Option.map_map, hjoined]
  rfl

/-! ### Statements that are kept -/

/-- The statements at the given positions that can be part of the output. -/
def keptStatements (m : ScriptModule) (positions : List ℕ) : List Statement :=
  (positions.filterMap fun i ↦ m.statements[i]?).filter fun s ↦ s.kind.isEmittable

/-- The parts of the source that are kept for the given positions. -/
def keptRanges (m : ScriptModule) (positions : List ℕ) : List Span :=
  (m.keptStatements positions).filterMap Statement.keptRange?

theorem keptStatements_append (xs ys : List ℕ) :
    m.keptStatements (xs ++ ys) = m.keptStatements xs ++ m.keptStatements ys := by
  rw [keptStatements, List.filterMap_append, List.filter_append, keptStatements, keptStatements]

theorem of_mem_keptStatements {positions : List ℕ}
    (hs : s ∈ m.keptStatements positions) : s ∈ m.statements ∧ s.kind.isEmittable = true := by
  obtain ⟨hs, hkind⟩ := List.mem_filter.1 hs
  obtain ⟨i, -, hi⟩ := List.mem_filterMap.1 hs
  exact ⟨List.mem_of_getElem? hi, hkind⟩

theorem retainedTexts_eq (positions : List ℕ) :
    m.retainedTexts positions = (m.keptStatements positions).filterMap m.retainedText? := by
  rw [retainedTexts, keptStatements]
  induction positions.filterMap fun i ↦ m.statements[i]? with
  | nil => rfl
  | cons s ss ih =>
    have hsome := m.isSome_retainedText? s
    rw [List.filterMap_cons, List.filter_cons]
    rcases hkind : s.kind.isEmittable with - | -
    · rw [hkind] at hsome
      have hnone : m.retainedText? s = none := Option.not_isSome_iff_eq_none.1 (by simp [hsome])
      rw [hnone, if_neg Bool.false_ne_true]
      exact ih
    · rw [if_pos rfl, List.filterMap_cons]
      rcases m.retainedText? s with - | t
      · exact ih
      · exact congrArg _ ih

/-- Statements between cuts contribute their texts. -/
theorem exists_contributions (hcut : ∀ s ∈ m.statements, m.CutAt s) (positions : List ℕ) :
    ∃ texts, List.Forall₂ m.Contributes (m.keptStatements positions) texts ∧
      (m.retainedTexts positions).mapM id = some texts := by
  have hkept : ∀ s ∈ m.keptStatements positions, ∃ t, m.retainedText? s = some (some t) := by
    intro s hs
    obtain ⟨hs, hkind⟩ := of_mem_keptStatements hs
    obtain ⟨range, hrange⟩ := Option.isSome_iff_exists.1 ((m.isSome_retainedText? s).trans hkind)
    obtain ⟨t, rfl⟩ := Option.isSome_iff_exists.1 (isSome_of_mem_retainedText? (hcut s hs) hrange)
    exact ⟨t, hrange⟩
  have hproper : ∀ s ∈ m.keptStatements positions, s.span.start ≤ s.span.stop :=
    fun s hs ↦ (hcut s (of_mem_keptStatements hs).1).1
  rw [retainedTexts_eq]
  generalize m.keptStatements positions = ss at hkept hproper
  induction ss with
  | nil => exact ⟨[], .nil, rfl⟩
  | cons s ss ih =>
    obtain ⟨⟨t, ht⟩, hrest⟩ := List.forall_mem_cons.1 hkept
    obtain ⟨hs, hproper⟩ := List.forall_mem_cons.1 hproper
    -- each statement keeps a range, and a slice at its ends does not fail between cuts
    obtain ⟨texts, htexts, hmap⟩ := ih hrest hproper
    refine ⟨t :: texts, .cons ((retainedText?_eq_some_iff hs).1 ht) htexts, ?_⟩
    rw [List.filterMap_cons_some ht, List.mapM_cons, hmap]
    rfl

/-- **What is kept of statements is in the order of their positions**, and disjoint. -/
theorem pairwise_keptRanges (hproper : ∀ s ∈ m.statements, s.span.start ≤ s.span.stop)
    (hordered : m.statements.Pairwise fun s s' ↦ s.span.stop ≤ s'.span.start) {positions : List ℕ}
    (hpositions : positions.Pairwise (· < ·)) :
    (m.keptRanges positions).Pairwise fun r r' ↦ r.stop ≤ r'.start := by
  rw [keptRanges, List.pairwise_filterMap]
  refine List.Pairwise.filter _ (List.pairwise_filterMap.2 ?_)
  refine hpositions.imp fun {i j} hlt s hs s' hs' r hr r' hr' ↦ ?_
  obtain ⟨hi, rfl⟩ := List.getElem?_eq_some_iff.1 hs
  obtain ⟨hj, rfl⟩ := List.getElem?_eq_some_iff.1 hs'
  have hbounds := Statement.keptRange?_bounds (hproper _ (List.getElem_mem hi)) hr
  have hbounds' := Statement.keptRange?_bounds (hproper _ (List.getElem_mem hj)) hr'
  have hspans := List.pairwise_iff_getElem.1 hordered i j hi hj hlt
  omega

/-! ### The result -/

/-- **Assembly joins what statements contribute.** Where the ends of statements, and what they wrap,
lie between characters, any positions can be put together: the statements there that can be part of
the output contribute a text each, and these are joined in the order of the positions by a line
feed, just as one pass over the positions does. Positions one after the other give the texts of
both, with a line feed in between exactly if both keep a statement. If the statements stand one
after the other, so does what a selection keeps of them. -/
theorem assemble_joins (hcut : ∀ s ∈ m.statements, m.CutAt s) :
    (∀ positions, ∃ texts, List.Forall₂ m.Contributes (m.keptStatements positions) texts ∧
      m.assemble? positions = some ("\n".intercalate (texts.map String.ofList)) ∧
      m.assemblePass? positions true [] = (m.assemble? positions).map String.toList) ∧
    (∀ xs ys, ∃ code code', m.assemble? xs = some code ∧ m.assemble? ys = some code' ∧
      m.assemble? (xs ++ ys) = some (code ++
        (if m.keptStatements xs ≠ [] ∧ m.keptStatements ys ≠ [] then "\n" else "") ++ code')) ∧
    ((m.statements.Pairwise fun s s' ↦ s.span.stop ≤ s'.span.start) →
      ∀ options selection, m.select options = .ok selection →
        (m.keptRanges selection.statements).Pairwise (fun r r' ↦ r.stop ≤ r'.start) ∧
        ∀ r ∈ m.keptRanges selection.statements, r.start ≤ r.stop) := by
  have hjoin : ∀ {positions texts}, (m.retainedTexts positions).mapM id = some texts →
      m.assemble? positions = some ("\n".intercalate (texts.map String.ofList)) :=
    fun h ↦ by rw [assemble?, h, Option.map_some]
  have hne : ∀ {ss texts}, List.Forall₂ m.Contributes ss texts → ss ≠ [] →
      texts.map String.ofList ≠ [] := by
    intro ss texts h hss hnil
    rw [List.map_eq_nil_iff.1 hnil] at h
    exact hss (List.forall₂_nil_right_iff.1 h)
  refine ⟨fun positions ↦ ?_, fun xs ys ↦ ?_, fun hordered options selection hselect ↦ ⟨?_, ?_⟩⟩
  · obtain ⟨texts, htexts, hmap⟩ := exists_contributions hcut positions
    exact ⟨texts, htexts, hjoin hmap, assemblePass?_eq positions⟩
  · obtain ⟨texts, htexts, hmap⟩ := exists_contributions hcut xs
    obtain ⟨texts', htexts', hmap'⟩ := exists_contributions hcut ys
    have happend : (m.retainedTexts (xs ++ ys)).mapM id = some (texts ++ texts') := by
      rw [retainedTexts, List.filterMap_append, List.filterMap_append, List.mapM_append]
      show (m.retainedTexts xs).mapM id >>= _ = _
      rw [hmap]
      show (m.retainedTexts ys).mapM id >>= _ = _
      rw [hmap']
      rfl
    refine ⟨_, _, hjoin hmap, hjoin hmap', (hjoin happend).trans (congrArg some ?_)⟩
    rw [List.map_append]
    -- a side that keeps no statement has no text, and no line feed next to it
    by_cases hleft : m.keptStatements xs = []
    · rw [hleft] at htexts
      simp [hleft, List.forall₂_nil_left_iff.1 htexts]
    by_cases hright : m.keptStatements ys = []
    · rw [hright] at htexts'
      simp [hright, List.forall₂_nil_left_iff.1 htexts']
    rw [if_pos ⟨hleft, hright⟩,
      String.intercalate_append_of_ne_nil (hne htexts hleft) (hne htexts' hright)]
  · exact pairwise_keptRanges (fun s hs ↦ (hcut s hs).1) hordered (pairwise_statements hselect)
  · intro r hr
    obtain ⟨s, hs, hr⟩ := List.mem_filterMap.1 hr
    exact (Statement.keptRange?_bounds
      (hcut s (of_mem_keptStatements hs).1).1 hr).2.1

/-- A module with an import, exports, and an empty statement at its end. -/
def piecesModule : ScriptModule where
  path := ⟨"app.js"⟩
  source := "let é=1;import 'x';export let b=é;export default b"
  statements :=
    [⟨.plain, ⟨0, 9⟩, .ofList ["é"], .empty⟩, ⟨.importLink, ⟨9, 20⟩, .empty, .empty⟩,
     ⟨.exportWrapper 27, ⟨20, 36⟩, .ofList ["b"], .ofList ["é"]⟩,
     ⟨.defaultExpression 51, ⟨36, 52⟩, .empty, .ofList ["b"]⟩, ⟨.plain, ⟨52, 52⟩, .empty, .empty⟩]
  imports := .empty
  exports := .empty
  selected := none

/-- The empty statement is one of the two texts that are joined. -/
theorem assemble_joins_pieces :
    (∀ s ∈ piecesModule.statements, piecesModule.CutAt s) ∧
      (piecesModule.statements.Pairwise fun s s' ↦ s.span.stop ≤ s'.span.start) ∧
      piecesModule.select ⟨.unconditional, ⟨[]⟩⟩ = .ok ⟨[0, 2, 3, 4], .empty⟩ ∧
      piecesModule.keptStatements [4, 9, 1] ≠ [] ∧ piecesModule.keptStatements [0, 0] ≠ [] ∧
      piecesModule.assemble? [4, 9, 1] = some "" ∧
      piecesModule.assemble? [0, 0] = some "let é=1;\nlet é=1;" ∧
      piecesModule.assemble? ([4, 9, 1] ++ [0, 0]) = some ("" ++ "\n" ++ "let é=1;\nlet é=1;") ∧
      piecesModule.keptRanges [0, 2, 3, 4] = [⟨0, 9⟩, ⟨27, 36⟩, ⟨51, 52⟩, ⟨52, 52⟩] ∧
      (piecesModule.keptRanges [0, 2, 3, 4]).Pairwise fun r r' ↦ r.stop ≤ r'.start := by
  have hcut : ∀ s ∈ piecesModule.statements, piecesModule.CutAt s := by
    have hall : ∀ s ∈ piecesModule.statements, s.span.start ≤ s.span.stop ∧
        Text.IsCut piecesModule.source.toList s.span.start ∧
        Text.IsCut piecesModule.source.toList s.span.stop ∧
        ∀ start ∈ s.kind.wrappedFrom?, Text.IsCut piecesModule.source.toList start := by
      decide +kernel
    exact hall
  have hordered : piecesModule.statements.Pairwise fun s s' ↦ s.span.stop ≤ s'.span.start := by
    decide
  have hrun : piecesModule.select ⟨.unconditional, ⟨[]⟩⟩ = .ok ⟨[0, 2, 3, 4], .empty⟩ ∧
      piecesModule.assemble? [4, 9, 1] = some "" ∧
      piecesModule.assemble? [0, 0] = some "let é=1;\nlet é=1;" ∧
      piecesModule.keptRanges [0, 2, 3, 4] = [⟨0, 9⟩, ⟨27, 36⟩, ⟨51, 52⟩, ⟨52, 52⟩] := by
    decide +kernel
  obtain ⟨hselect, hempty, htwice, hranges⟩ := hrun
  have hleft : piecesModule.keptStatements [4, 9, 1] ≠ [] := by simp [keptStatements, piecesModule,
    StatementKind.isEmittable]
  have hright : piecesModule.keptStatements [0, 0] ≠ [] := by simp [keptStatements, piecesModule,
    StatementKind.isEmittable]
  obtain ⟨-, happend, hkept⟩ := assemble_joins hcut
  refine ⟨hcut, hordered, hselect, hleft, hright, hempty, htwice, ?_, hranges,
    (hkept hordered _ _ hselect).1⟩
  obtain ⟨code, code', hcode, hcode', hboth⟩ := happend [4, 9, 1] [0, 0]
  obtain rfl := Option.some.inj (hempty.symm.trans hcode)
  obtain rfl := Option.some.inj (htwice.symm.trans hcode')
  rwa [if_pos ⟨hleft, hright⟩] at hboth

end ScriptModule

end Script

end AppletBundle
