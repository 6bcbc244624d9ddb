import AppletBundle.Files.Tree
import AppletBundle.Ordered.Map
import AppletBundle.Proofs.Path.FileName
import Mathlib.Data.List.Induction
import Mathlib.Data.List.Nodup
import Mathlib.Data.List.Sort
import Mathlib.Data.String.Basic

/-!
# Locations in file trees

A list of entries is a tree if everything in it has a name and stands in a directory
(`FileTree.IsTree`), and it stays one when an entry is put where it can stand (`IsTree.set`).

The location that a path leads to does not depend on the entries of a tree, only whether it leads
there does: an idle segment stays, a parent goes up and a name goes down
(`FileTree.locationOf`). What is found by a path, or is missing, is so at its location
(`isAt_of_locate`). Hence a written file stands at the location of its path
(`writeFile_eq_ok`), and making directories adds directories and changes nothing else
(`FileTree.Grown`).
-/

namespace AppletBundle

namespace FileTree

variable {t t' t'' : FileTree} {l d : Location} {e : FileEntry}

/-! ### Entries -/

/-- The content of the file at a location. -/
def fileAt? (t : FileTree) (l : Location) : Option FileContent :=
  match t.entry? l with
  | some (.file content) => some content
  | _ => none

theorem fileAt?_eq_some_iff {content : FileContent} :
    t.fileAt? l = some content ↔ t.entry? l = some (.file content) := by
  unfold fileAt?
  split <;> simp_all

theorem fileAt?_congr (h : t'.entry? l = t.entry? l) : t'.fileAt? l = t.fileAt? l := by
  rw [fileAt?, h, fileAt?]

theorem isSome_entry?_of_fileAt? (h : (t.fileAt? l).isSome) : (t.entry? l).isSome := by
  obtain ⟨content, hcontent⟩ := Option.isSome_iff_exists.1 h
  rw [fileAt?_eq_some_iff.1 hcontent]
  rfl

theorem hasDirectory_iff : t.hasDirectory l ↔ t.entry? l = some .directory := by
  rw [hasDirectory, beq_iff_eq]

/-- The root is a directory. -/
theorem ne_nil_of_not_hasDirectory (h : t.hasDirectory l = false) : l ≠ [] := by
  rintro rfl
  cases h

/-- No file stands where a directory stands. -/
theorem fileAt?_eq_none_of_hasDirectory (h : t.hasDirectory l) : t.fileAt? l = none := by
  rw [fileAt?, hasDirectory_iff.1 h]

theorem setEntry_eq_insertEntry (l : Location) (e : FileEntry) (es : List (Location × FileEntry)) :
    setEntry l e es = insertEntry l e es := by
  induction es with
  | nil => rfl
  | cons x es ih => rw [setEntry, insertEntry, ih]

theorem lookup_set (t : FileTree) (hl : l ≠ []) (e : FileEntry) (m : Location) :
    FileTree.entry? (t.set l e) m = if m = l then some e else t.entry? m := by
  unfold entry? set
  rw [setEntry_eq_insertEntry, lookup_insertEntry]
  by_cases hm : m = []
  · have hne : m ≠ l := fun h ↦ hl (h.symm.trans hm)
    rw [if_pos hm, if_neg hne, if_pos hm]
  · rw [if_neg hm, if_neg hm]

theorem isSome_entry?_iff (hl : l ≠ []) : (t.entry? l).isSome ↔ l ∈ t.entries.map Prod.fst := by
  unfold entry?
  rw [if_neg hl, List.lookup_isSome_iff, List.mem_map]
  simp only [beq_iff_eq]
  exact exists_congr fun x ↦ and_congr_right fun _ ↦ eq_comm

/-! ### Trees -/

/-- A directory for what stands at a location, and a name. -/
def Placed (t : FileTree) (l : Location) : Prop :=
  ∃ d n, l = d ++ [n] ∧ t.hasDirectory d ∧ Path.IsFileName n

theorem Placed.ne_nil (h : t.Placed l) : l ≠ [] := by
  obtain ⟨d, n, rfl, -⟩ := h
  exact List.append_ne_nil_of_right_ne_nil d (List.cons_ne_nil n [])

/-- A list of entries in which every location occurs once, in a directory and with a name. -/
structure IsTree (t : FileTree) : Prop where
  nodup : (t.entries.map Prod.fst).Nodup
  placed : ∀ l ∈ t.entries.map Prod.fst, t.Placed l

theorem IsTree.placed_of_isSome (ht : t.IsTree) (hl : l ≠ []) (h : (t.entry? l).isSome) :
    t.Placed l :=
  ht.placed l ((isSome_entry?_iff hl).1 h)

/-- What is above a location in a tree is a directory. -/
theorem IsTree.hasDirectory_above (ht : t.IsTree) {rest : Location} (hrest : rest ≠ [])
    (h : (t.entry? (l ++ rest)).isSome) : t.hasDirectory l := by
  induction rest using List.reverseRecOn with
  | nil => exact absurd rfl hrest
  | append_singleton rest n ih =>
    have hne : l ++ (rest ++ [n]) ≠ [] := by simp
    obtain ⟨d, n', heq, hd, -⟩ := ht.placed_of_isSome hne h
    rw [← List.append_assoc] at heq
    obtain ⟨rfl, -⟩ := List.append_inj' heq rfl
    by_cases hnil : rest = []
    · rwa [hnil, List.append_nil] at hd
    · exact ih hnil (by rw [hasDirectory_iff.1 hd]; rfl)

theorem IsTree.isFileName_of_mem (ht : t.IsTree) {n : String}
    (h : (t.entry? (l ++ [n])).isSome) : Path.IsFileName n := by
  obtain ⟨d, n', heq, -, hn⟩ := ht.placed_of_isSome (by simp) h
  obtain ⟨-, hn'⟩ := List.append_inj' heq rfl
  rwa [List.cons.inj hn' |>.1]

/-- **An entry can be put where it can stand**, if no directory is replaced by a file. -/
theorem IsTree.set (ht : t.IsTree) (hl : t.Placed l) (he : t.hasDirectory l → e = .directory) :
    (t.set l e).IsTree := by
  have hkeys : (t.set l e).entries.map Prod.fst = if l ∈ t.entries.map Prod.fst then
      t.entries.map Prod.fst else t.entries.map Prod.fst ++ [l] := by
    show (setEntry l e t.entries).map Prod.fst = _
    rw [setEntry_eq_insertEntry, map_fst_insertEntry]
    congr
  have hdirectory : ∀ d, t.hasDirectory d → (t.set l e).hasDirectory d := by
    intro d hd
    rw [hasDirectory_iff, lookup_set t hl.ne_nil]
    split
    · rename_i hdl
      rw [he (hdl ▸ hd)]
    · exact hasDirectory_iff.1 hd
  have hplaced : ∀ m, t.Placed m → (t.set l e).Placed m := by
    rintro m ⟨d, n, hm, hd, hn⟩
    exact ⟨d, n, hm, hdirectory d hd, hn⟩
  constructor
  · rw [hkeys]
    split
    · exact ht.nodup
    · rename_i hnew
      exact ht.nodup.concat hnew |> (List.concat_eq_append ▸ ·)
  · intro m hm
    rw [hkeys] at hm
    split at hm
    · exact hplaced m (ht.placed m hm)
    · rcases List.mem_append.1 hm with hm | hm
      · exact hplaced m (ht.placed m hm)
      · rw [List.mem_singleton.1 hm]
        exact hplaced l hl

/-- A location in a tree is no longer than the tree has entries, as everything above is among
them. -/
theorem IsTree.length_le (ht : t.IsTree) (h : (t.entry? l).isSome) :
    l.length ≤ t.entries.length := by
  have hsub : ((List.range l.length).map fun i ↦ l.take (i + 1)) ⊆ t.entries.map Prod.fst := by
    intro m hm
    obtain ⟨i, hi, rfl⟩ := List.mem_map.1 hm
    rw [List.mem_range] at hi
    have hne : l.take (i + 1) ≠ [] := by
      rintro hnil
      have hlength := congrArg List.length hnil
      rw [List.length_take, List.length_nil] at hlength
      omega
    rw [← isSome_entry?_iff hne]
    by_cases hrest : l.drop (i + 1) = []
    · rw [List.drop_eq_nil_iff] at hrest
      rwa [List.take_of_length_le hrest]
    · have hd := ht.hasDirectory_above hrest ((List.take_append_drop (i + 1) l).symm ▸ h)
      rw [hasDirectory_iff.1 hd]
      rfl
  have hnodup : ((List.range l.length).map fun i ↦ l.take (i + 1)).Nodup := by
    refine List.Nodup.map_on ?_ List.nodup_range
    intro i hi j hj hij
    rw [List.mem_range] at hi hj
    have hlength := congrArg List.length hij
    rw [List.length_take, List.length_take] at hlength
    omega
  have hle := (List.subperm_of_subset hnodup hsub).length_le
  rwa [List.length_map, List.length_map, List.length_range] at hle

/-! ### Names -/

/-- The name of a location in a directory. -/
def nameIn? (l m : Location) : Option String :=
  match m.getLast? with
  | some name => if m.dropLast = l then some name else none
  | none => none

theorem nameIn?_eq_some_iff {m : Location} {n : String} : nameIn? l m = some n ↔ m = l ++ [n] := by
  constructor
  · intro h
    unfold nameIn? at h
    split at h
    · rename_i name hlast
      split at h
      · rename_i hl
        rw [← Option.some.inj h, ← hl]
        exact (List.dropLast_append_getLast? name hlast).symm
      · cases h
    · cases h
  · rintro rfl
    simp [nameIn?]

theorem names_eq (t : FileTree) (l : Location) : t.names l =
    ((t.entries.map Prod.fst).filterMap (nameIn? l)).mergeSort fun a b ↦ a ≤ b := by
  rw [List.filterMap_map]
  rfl

theorem mem_names_iff {n : String} : n ∈ t.names l ↔ (t.entry? (l ++ [n])).isSome := by
  rw [isSome_entry?_iff (by simp), names_eq, List.mem_mergeSort, List.mem_filterMap]
  constructor
  · rintro ⟨m, hm, hn⟩
    rwa [← nameIn?_eq_some_iff.1 hn]
  · exact fun hmem ↦ ⟨_, hmem, nameIn?_eq_some_iff.2 rfl⟩

theorem pairwise_le_names (t : FileTree) (l : Location) : (t.names l).Pairwise (· ≤ ·) := by
  rw [names_eq]
  exact List.pairwise_mergeSort' (· ≤ ·) _

/-- Names in order are the names in a directory if they are those of the locations there. -/
theorem names_eq_of_perm {ns : List String} (hns : ns.Pairwise (· ≤ ·))
    (hperm : ((t.entries.map Prod.fst).filterMap (nameIn? l)).Perm ns) : t.names l = ns := by
  refine List.Perm.eq_of_pairwise' (pairwise_le_names t l) hns ?_
  rw [names_eq]
  exact (List.mergeSort_perm _ _).trans hperm

/-- **The names in a directory are in ascending order**, each once. -/
theorem IsTree.pairwise_names (ht : t.IsTree) (l : Location) : (t.names l).Pairwise (· < ·) := by
  have hnodup : (t.names l).Nodup := by
    rw [names_eq, (List.mergeSort_perm _ _).nodup_iff]
    refine ht.nodup.filterMap fun m m' n hm hm' ↦ ?_
    exact (nameIn?_eq_some_iff.1 hm).trans (nameIn?_eq_some_iff.1 hm').symm
  exact (pairwise_le_names t l).imp₂ (fun a b hle hne ↦ lt_of_le_of_ne hle hne) hnodup

/-! ### Following paths -/

/-- Where a segment leads from a location. -/
def resolveSegment (at_ : Location) (s : List Char) : Location :=
  if Path.isIdle s then at_
  else if s = ['.', '.'] then at_.dropLast
  else at_ ++ [String.ofList s]

/-- The location that a path leads to, if it leads anywhere. -/
def locationOf (t : FileTree) (p : Path) : Location :=
  (Path.segments p.text.toList).foldl resolveSegment (if p.isAbsolute then [] else t.workDir)

/-- A place is at a location: something is there, or it could be put there. -/
def Place.IsAt (t : FileTree) (l : Location) : Place → Prop
  | .found at_ e => at_ = l ∧ t.entry? l = some e
  | .missing at_ _ => at_ = l ∧ t.entry? l = none ∧ t.Placed l

theorem isFileName_ofList {s : List Char} (hslash : '/' ∉ s) (hidle : ¬ Path.isIdle s)
    (hparent : s ≠ ['.', '.']) : Path.IsFileName (.ofList s) := by
  constructor
  · rwa [String.toList_ofList]
  · rw [String.toList_ofList, Path.ofSegment?, if_neg hidle, if_neg hparent]

/-- Idle segments stay where they are. -/
theorem foldl_resolveSegment_of_isIdle {us : List (List Char)} (h : ∀ u ∈ us, Path.isIdle u)
    (l : Location) : us.foldl resolveSegment l = l := by
  induction us with
  | nil => rfl
  | cons u us ih =>
    obtain ⟨hu, hus⟩ := List.forall_mem_cons.1 h
    rw [List.foldl_cons, resolveSegment, if_pos hu, ih hus]

/-- **What segments lead to is where they resolve to.** -/
theorem isAt_of_follow {us : List (List Char)} (hus : ∀ u ∈ us, '/' ∉ u) {place : Place}
    (h : t.follow l us = .ok place) : place.IsAt t (us.foldl resolveSegment l) := by
  induction us generalizing l with
  | nil =>
    rw [follow] at h
    split at h
    · rename_i e he
      cases h
      exact ⟨rfl, he⟩
    · cases h
  | cons u us ih =>
    obtain ⟨hu, hus⟩ := List.forall_mem_cons.1 hus
    rw [follow] at h
    rw [List.foldl_cons, resolveSegment]
    split at h
    · cases h
    rename_i hdirectory
    have hdirectory : t.hasDirectory l := by simpa using hdirectory
    split at h
    · rename_i hidle
      rw [if_pos hidle]
      exact ih hus h
    rename_i hidle
    rw [if_neg hidle]
    split at h
    · rename_i hparent
      rw [if_pos hparent]
      exact ih hus h
    rename_i hparent
    rw [if_neg hparent]
    dsimp only at h
    split at h
    · exact ih hus h
    · rename_i hnone
      split at h
      · rename_i hempty
        cases h
        have hrest : ∀ v ∈ us, Path.isIdle v := by
          intro v hv
          have hv' := List.all_eq_true.1 hempty v hv
          rw [List.isEmpty_iff] at hv'
          rw [hv']
          rfl
        rw [foldl_resolveSegment_of_isIdle hrest]
        exact ⟨rfl, hnone, l, _, rfl, hdirectory, isFileName_ofList hu hidle hparent⟩
      · cases h

/-- A path is followed by its segments, from the root or from the working directory. -/
theorem follow_of_locate {p : Path} {place : Place} (h : t.locate p = .ok place) :
    t.follow (if p.isAbsolute then [] else t.workDir) (Path.segments p.text.toList) =
      .ok place := by
  unfold locate at h
  split at h
  · cases h
  split at h
  · cases h
  · rename_i rest hrest
    have habsolute : p.isAbsolute := Path.isAbsolute_iff.2 (by rw [hrest]; rfl)
    have hsegments : Path.segments p.text.toList = [] :: Path.segments rest := by
      rw [hrest]
      rfl
    rw [if_pos habsolute, hsegments, follow]
    exact h
  · rename_i hroot
    have habsolute : ¬ p.isAbsolute := by
      rw [Path.isAbsolute_iff, Path.head?_eq_root_iff]
      rintro ⟨rest, hrest⟩
      exact hroot rest hrest
    rw [if_neg habsolute]
    exact h

/-- **What a path leads to is at its location.** -/
theorem isAt_of_locate {p : Path} {place : Place} (h : t.locate p = .ok place) :
    place.IsAt t (t.locationOf p) :=
  isAt_of_follow (fun _ hu ↦ Path.not_mem_of_mem_segments hu) (follow_of_locate h)

/-! ### Locations of joined paths -/

theorem isAbsolute_ofList_append {s : List Char} (hs : s ≠ []) (u : List Char) :
    (⟨.ofList (s ++ u)⟩ : Path).isAbsolute = (⟨.ofList s⟩ : Path).isAbsolute := by
  obtain ⟨c, s, rfl⟩ := List.exists_cons_of_ne_nil hs
  rw [Bool.eq_iff_iff, Path.isAbsolute_iff, Path.isAbsolute_iff, Path.head?_eq_root_iff,
    Path.head?_eq_root_iff]
  simp [String.toList_ofList]

/-- What follows a separator is followed from where the text in front of it leads. -/
theorem locationOf_append_separator (t : FileTree) (s u : List Char) :
    t.locationOf ⟨.ofList (s ++ '/' :: u)⟩ =
      (Path.segments u).foldl resolveSegment (t.locationOf ⟨.ofList (s ++ ['/'])⟩) := by
  have habsolute : (⟨.ofList (s ++ '/' :: u)⟩ : Path).isAbsolute =
      (⟨.ofList (s ++ ['/'])⟩ : Path).isAbsolute := by
    have hne : s ++ ['/'] ≠ [] := by simp
    have happend := isAbsolute_ofList_append hne u
    rwa [List.append_assoc, List.singleton_append] at happend
  rw [locationOf, locationOf, habsolute, String.toList_ofList, String.toList_ofList,
    Path.segments_append_separator, Path.segments_append_separator, List.foldl_append,
    List.foldl_append]
  rfl

theorem locationOf_concat_separator (t : FileTree) {s : List Char} (hs : s ≠ []) :
    t.locationOf ⟨.ofList (s ++ ['/'])⟩ = t.locationOf ⟨.ofList s⟩ := by
  rw [locationOf, locationOf, isAbsolute_ofList_append hs, String.toList_ofList,
    String.toList_ofList, Path.segments_append_separator, List.foldl_append]
  rfl

/-- **A joined path is followed from where the first one leads.** -/
theorem locationOf_join (t : FileTree) (p : Path) {q : Path} (hq : q.isAbsolute = false) :
    t.locationOf (p.join q) =
      (Path.segments q.text.toList).foldl resolveSegment (t.locationOf p) := by
  have hp : p = ⟨.ofList p.text.toList⟩ := by rw [String.ofList_toList]
  rw [Path.join, if_neg (by rw [hq]; exact Bool.false_ne_true)]
  by_cases hempty : p.text = ""
  · have hlocation : t.locationOf p = t.workDir := by
      rw [hp, hempty]
      rfl
    have hjoined : (⟨p.text ++ q.text⟩ : Path) = q := by rw [hempty, String.empty_append]
    rw [if_pos (by simp [hempty]), hjoined, hlocation, locationOf, if_neg (by simp [hq])]
  · have hne : p.text.toList ≠ [] := by
      intro h
      exact hempty (String.toList_eq_nil_iff.1 h)
    by_cases hend : p.text.endsWith "/"
    · obtain ⟨s, hs⟩ := Path.endsWith_separator_iff.1 hend
      have htext : p.text ++ q.text = .ofList (s ++ '/' :: q.text.toList) := by
        rw [← String.toList_inj, String.toList_append, hs, String.toList_ofList]
        simp
      rw [if_pos (by rw [hend, Bool.or_true]), htext, locationOf_append_separator, ← hs,
        String.ofList_toList]
    · have htext : p.text ++ "/" ++ q.text = .ofList (p.text.toList ++ '/' :: q.text.toList) := by
        rw [← String.toList_inj, String.toList_append, String.toList_append, String.toList_ofList]
        simp
      rw [if_neg (by simp [hempty, hend]), htext, locationOf_append_separator,
        locationOf_concat_separator t hne, String.ofList_toList]

theorem resolveSegment_of_isFileName {n : String} (hn : Path.IsFileName n) (l : Location) :
    resolveSegment l n.toList = l ++ [n] := by
  have hparent : n.toList ≠ ['.', '.'] := by
    intro h
    have hname := hn.ofSegment?_eq
    rw [h] at hname
    cases hname
  rw [resolveSegment, if_neg (ne_true_of_eq_false hn.not_isIdle), if_neg hparent,
    String.ofList_toList]

/-- **Names lead down** from where a path leads. -/
theorem locationOf_join_names (t : FileTree) (p : Path) {names : List String}
    (hnames : ∀ n ∈ names, Path.IsFileName n) (hne : names ≠ []) :
    t.locationOf (p.join (Path.ofNames names)) = t.locationOf p ++ names := by
  rw [locationOf_join t p (Path.isInner_ofNames hnames).not_isAbsolute,
    Path.segments_ofNames hnames hne]
  generalize t.locationOf p = l
  clear hne
  induction names generalizing l with
  | nil => rw [List.map_nil, List.foldl_nil, List.append_nil]
  | cons n names ih =>
    obtain ⟨hn, hnames⟩ := List.forall_mem_cons.1 hnames
    rw [List.map_cons, List.foldl_cons, resolveSegment_of_isFileName hn, ih hnames,
      List.append_assoc, List.singleton_append]

/-! ### Reading -/

theorem fileAt?_of_readContent {p : Path} {content : FileContent}
    (h : t.readContent p = .ok content) : t.fileAt? (t.locationOf p) = some content := by
  unfold readContent get at h
  cases hplace : t.locate p with
  | error fault =>
    rw [hplace] at h
    cases h
  | ok place =>
    rw [hplace] at h
    have hat := isAt_of_locate hplace
    cases place with
    | missing => cases h
    | found at_ e =>
      cases e with
      | directory => cases h
      | file content' =>
        cases h
        exact fileAt?_eq_some_iff.2 hat.2

theorem list_eq_file {p : Path} (h : t.isFile p) : t.list p = .ok .file := by
  unfold isFile get at h
  unfold list
  cases hplace : t.locate p with
  | error fault =>
    rw [hplace] at h
    cases h
  | ok place =>
    rw [hplace] at h
    cases place with
    | missing => cases h
    | found at_ e =>
      cases e with
      | directory => cases h
      | file content => rfl

theorem list_eq_directory {p : Path} (h : t.isDirectory p) :
    t.list p = .ok (.directory (t.names (t.locationOf p))) := by
  unfold isDirectory get at h
  unfold list
  cases hplace : t.locate p with
  | error fault =>
    rw [hplace] at h
    cases h
  | ok place =>
    rw [hplace] at h
    cases place with
    | missing => cases h
    | found at_ e =>
      cases e with
      | directory => rw [← (isAt_of_locate hplace).1]
      | file content => cases h

/-- What a walk finds at a path stands at its location. -/
theorem of_list_eq {p : Path} {found : Listing} (h : t.list p = .ok found) :
    (found = .file ∧ (t.fileAt? (t.locationOf p)).isSome) ∨
      (found = .directory (t.names (t.locationOf p)) ∧ t.hasDirectory (t.locationOf p)) := by
  unfold list at h
  cases hplace : t.locate p with
  | error fault =>
    rw [hplace] at h
    cases h
  | ok place =>
    rw [hplace] at h
    have hat := isAt_of_locate hplace
    cases place with
    | missing => cases h
    | found at_ e =>
      obtain ⟨rfl, he⟩ := hat
      cases e with
      | directory =>
        cases h
        exact .inr ⟨rfl, hasDirectory_iff.2 he⟩
      | file content =>
        cases h
        exact .inl ⟨rfl, by rw [fileAt?_eq_some_iff.2 he]; rfl⟩

/-! ### Writing -/

/-- **A written file stands at the location of its path**, where a file or nothing was. -/
theorem writeFile_eq_ok {p : Path} {content : FileContent}
    (h : t.writeFile p content = (.ok (), t')) :
    t' = t.set (t.locationOf p) (.file content) ∧
      ((∃ old, t.locate p = .ok (.found (t.locationOf p) (.file old))) ∨
        t.locate p = .ok (.missing (t.locationOf p) false)) := by
  unfold writeFile at h
  rcases hplace : t.locate p with fault | ⟨at_, old | -⟩ | ⟨at_, - | -⟩
  all_goals rw [hplace] at h
  · cases h
  · obtain ⟨rfl, -⟩ := isAt_of_locate hplace
    cases h
    exact ⟨rfl, .inl ⟨old, rfl⟩⟩
  · cases h
  · obtain ⟨rfl, -⟩ := isAt_of_locate hplace
    cases h
    exact ⟨rfl, .inr rfl⟩
  · cases h

/-- In a tree, there can be a file at that location. -/
theorem of_writeFile_eq_ok (ht : t.IsTree) {p : Path} {content : FileContent}
    (h : t.writeFile p content = (.ok (), t')) :
    t' = t.set (t.locationOf p) (.file content) ∧ t.Placed (t.locationOf p) ∧
      t.hasDirectory (t.locationOf p) = false := by
  obtain ⟨rfl, ⟨old, hplace⟩ | hplace⟩ := writeFile_eq_ok h
  · obtain ⟨-, he⟩ := isAt_of_locate hplace
    have hfile : t.hasDirectory (t.locationOf p) = false := by rw [hasDirectory, he]; rfl
    exact ⟨rfl, ht.placed_of_isSome (ne_nil_of_not_hasDirectory hfile) (by rw [he]; rfl), hfile⟩
  · obtain ⟨-, he, hplaced⟩ := isAt_of_locate hplace
    exact ⟨rfl, hplaced, by rw [hasDirectory, he]; rfl⟩

/-- What a path with a separator at its end leads to is a directory, or would have to be one. -/
theorem of_follow_concat_nil (us : List (List Char)) {place : Place}
    (h : t.follow l (us ++ [[]]) = .ok place) :
    (∃ at_, place = .found at_ .directory) ∨ ∃ at_, place = .missing at_ true := by
  induction us generalizing l with
  | nil =>
    rw [List.nil_append, follow] at h
    split at h
    · cases h
    rename_i hdirectory
    have hl : t.entry? l = some .directory := hasDirectory_iff.1 (by simpa using hdirectory)
    have hidle : Path.isIdle [] := rfl
    rw [if_pos hidle, follow, hl] at h
    exact .inl ⟨l, (Except.ok.inj h).symm⟩
  | cons u us ih =>
    rw [List.cons_append, follow] at h
    split at h
    · cases h
    split at h
    · exact ih h
    split at h
    · exact ih h
    dsimp only at h
    split at h
    · exact ih h
    · split at h
      · cases h
        have hmore : (us ++ [[]]).isEmpty = false := by simp
        exact .inr ⟨_, by rw [hmore]; rfl⟩
      · cases h

/-- **No file is written with a separator at the end of its path.** -/
theorem writeFile_ne_ok_of_endsWith {p : Path} (hp : p.text.endsWith "/") (content : FileContent) :
    t.writeFile p content ≠ (.ok (), t') := by
  obtain ⟨s, hs⟩ := Path.endsWith_separator_iff.1 hp
  have hsegments : ∀ s : List Char, Path.segments (s ++ ['/']) = Path.segments s ++ [[]] :=
    fun s ↦ Path.segments_append_separator s []
  unfold writeFile
  cases hplace : t.locate p with
  | error fault => rintro ⟨⟩
  | ok place =>
    have hend : (∃ at_, place = .found at_ .directory) ∨ ∃ at_, place = .missing at_ true := by
      unfold locate at hplace
      split at hplace
      · cases hplace
      rw [hs] at hplace
      rcases s with - | ⟨c, s⟩
      · exact of_follow_concat_nil [] hplace
      · rw [List.cons_append] at hplace
        split at hplace
        · cases hplace
        · rename_i rest hrest
          rw [← (List.cons.inj hrest).2, hsegments] at hplace
          exact of_follow_concat_nil _ hplace
        · rw [← List.cons_append, hsegments] at hplace
          exact of_follow_concat_nil _ hplace
    rcases hend with ⟨at_, rfl⟩ | ⟨at_, rfl⟩ <;> rintro ⟨⟩

/-- Only directories have been added to a tree. -/
structure Grown (t t' : FileTree) : Prop where
  workDir : t'.workDir = t.workDir
  isTree : t.IsTree → t'.IsTree
  entry_eq : ∀ l, t'.entry? l = t.entry? l ∨ t.entry? l = none ∧ t'.entry? l = some .directory

namespace Grown

theorem refl (t : FileTree) : Grown t t :=
  ⟨rfl, id, fun _ ↦ .inl rfl⟩

theorem trans (h : Grown t t') (h' : Grown t' t'') : Grown t t'' := by
  refine ⟨h'.workDir.trans h.workDir, h'.isTree ∘ h.isTree, fun l ↦ ?_⟩
  rcases h'.entry_eq l with h'l | ⟨hnone', hnew⟩
  · rw [h'l]
    exact h.entry_eq l
  · rcases h.entry_eq l with hl | ⟨-, hl⟩
    · exact .inr ⟨hl.symm.trans hnone', hnew⟩
    · rw [hl] at hnone'
      cases hnone'

/-- **No file is changed.** -/
theorem fileAt? (h : Grown t t') (l : Location) : t'.fileAt? l = t.fileAt? l := by
  rcases h.entry_eq l with hl | ⟨hnone, hnew⟩
  · exact fileAt?_congr hl
  · rw [FileTree.fileAt?, hnew, FileTree.fileAt?, hnone]

/-- Directories stay. -/
theorem hasDirectory (h : Grown t t') (hl : t.hasDirectory l) : t'.hasDirectory l := by
  rw [hasDirectory_iff] at hl ⊢
  rcases h.entry_eq l with heq | ⟨-, hnew⟩
  · rw [heq, hl]
  · exact hnew

end Grown

theorem grown_makeDirectory (t : FileTree) (p : Path) : Grown t (t.makeDirectory p).2 := by
  unfold makeDirectory
  cases hplace : t.locate p with
  | error fault => exact .refl t
  | ok place =>
    have hat := isAt_of_locate hplace
    cases place with
    | found => exact .refl t
    | missing at_ asDirectory =>
      obtain ⟨rfl, hnone, hplaced⟩ := hat
      refine ⟨rfl, fun ht ↦ ht.set hplaced fun _ ↦ rfl, fun l ↦ ?_⟩
      show FileTree.entry? (t.set _ _) l = _ ∨ _ ∧ FileTree.entry? (t.set _ _) l = _
      rw [lookup_set t hplaced.ne_nil]
      split
      · rename_i hl
        exact .inr ⟨hl ▸ hnone, rfl⟩
      · exact .inl rfl

theorem grown_makeDirectoriesWithin (depth : ℕ) (t : FileTree) (p : Path) :
    Grown t (makeDirectoriesWithin depth t p).2 := by
  induction depth generalizing t p with
  | zero => exact .refl t
  | succ depth ih =>
    have hmade := grown_makeDirectory t p
    have habove := ih t (p.parent?.getD ⟨""⟩)
    rw [makeDirectoriesWithin]
    split
    · exact .refl t
    split
    · split
      · rename_i heq
        rwa [heq] at habove
      · rename_i t₁ heq
        rw [heq] at habove
        split
        · exact habove
        · exact habove.trans (grown_makeDirectory t₁ p)
    · exact .refl t
    · exact hmade

/-- **Making directories adds directories.** -/
theorem grown_makeDirectories (t : FileTree) (p : Path) : Grown t (t.makeDirectories p).2 :=
  grown_makeDirectoriesWithin _ t p

end FileTree

end AppletBundle
