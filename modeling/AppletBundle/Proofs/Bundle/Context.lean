import AppletBundle.Bundle.Context
import AppletBundle.Proofs.Ordered.Map

/-!
# What a record of bundles comes to

The record of a build takes down files of the app and entries of pages as they come, in any mix.
The two do not meet: the files fold into a list by themselves and the entries fill the manifest
(`recordAll_eq`). So it is known what they come to, whatever the mix.

* Of files with the same components the first is kept, as it was written (`firstsBy`). Inductions go
  from the end of the list, where one more element is new or is not (`firstsBy_concat`).
* A route has its place from its first entry and its value from its last one
  (`keys_fill_map`, `get?_fill_map`).

The main result is `recordAll_accumulates`.
-/

namespace AppletBundle

/-! ### First of their kind -/

section Firsts

variable {α β κ : Type} [DecidableEq κ] (key : α → κ)

/-- The elements of a list whose key no earlier element has, in their order. -/
def firstsBy (xs : List α) : List α :=
  (xs.zipIdx.filter fun (x, i) ↦ key x ∉ (xs.take i).map key).map Prod.fst

/-- One more element is kept exactly if its key is new. -/
theorem firstsBy_concat (xs : List α) (x : α) :
    firstsBy key (xs ++ [x]) =
      if key x ∈ xs.map key then firstsBy key xs else firstsBy key xs ++ [x] := by
  -- in front of an index of `xs` nothing has changed
  have hbefore : (xs.zipIdx.filter fun q ↦ key q.1 ∉ ((xs ++ [x]).take q.2).map key) =
      xs.zipIdx.filter fun q ↦ key q.1 ∉ (xs.take q.2).map key := by
    refine List.filter_congr fun q hq ↦ ?_
    have hlt := List.snd_lt_of_mem_zipIdx hq
    rw [List.take_append_of_le_length (by omega)]
  have hlast : (xs ++ [x]).take xs.length = xs := List.take_left
  rw [firstsBy, List.zipIdx_append, List.filter_append, hbefore, List.map_append,
    List.zipIdx_singleton, Nat.zero_add, ← firstsBy]
  by_cases hx : key x ∈ xs.map key
  · rw [if_pos hx, List.filter_cons_of_neg (by simpa [hlast] using hx)]
    exact List.append_nil _
  · rw [if_neg hx, List.filter_cons_of_pos (by simpa [hlast] using hx)]
    rfl

/-- Every key is that of the first element that has it. -/
theorem mem_map_firstsBy {xs : List α} {k : κ} :
    k ∈ (firstsBy key xs).map key ↔ k ∈ xs.map key := by
  induction xs using List.reverseRecOn with
  | nil => rfl
  | append_singleton xs x ih =>
    rw [firstsBy_concat, List.map_append, List.mem_append, ← ih]
    split
    · -- a key that is not new has a first element already
      rename_i hx
      refine ⟨.inl, fun h ↦ h.elim id fun hk ↦ ?_⟩
      rw [List.map_singleton, List.mem_singleton] at hk
      exact ih.2 (hk ▸ hx)
    · rw [List.map_append, List.mem_append]

/-- Elements with different keys are all first. -/
theorem firstsBy_eq_self {xs : List α} (h : (xs.map key).Nodup) : firstsBy key xs = xs := by
  induction xs using List.reverseRecOn with
  | nil => rfl
  | append_singleton xs x ih =>
    rw [List.map_append, List.map_singleton, ← List.concat_eq_append, List.nodup_concat] at h
    rw [firstsBy_concat, if_neg h.1, ih h.2]

/-- Which elements are first depends on their keys alone. -/
theorem map_firstsBy {f : α → β} {key : α → κ} {key' : β → κ} (hf : ∀ x, key' (f x) = key x)
    (xs : List α) : (firstsBy key xs).map f = firstsBy key' (xs.map f) := by
  have hkeys : ∀ xs : List α, (xs.map f).map key' = xs.map key := by
    intro xs
    rw [List.map_map]
    exact List.map_congr_left fun x _ ↦ hf x
  induction xs using List.reverseRecOn with
  | nil => rfl
  | append_singleton xs x ih =>
    rw [List.map_append, List.map_singleton, firstsBy_concat, firstsBy_concat, hkeys, hf, ← ih]
    split
    · rfl
    · rw [List.map_append, List.map_singleton]

end Firsts

/-! ### Filling a map -/

namespace OrderedMap

variable {κ ν : Type} [DecidableEq κ] (key : ν → κ)

/-- Keys stand in the order of their first values. -/
theorem keys_fill_map (vs : List ν) :
    ((empty : OrderedMap κ ν).fill (vs.map fun v ↦ (key v, v))).keys =
      (firstsBy key vs).map key := by
  induction vs using List.reverseRecOn with
  | nil => rfl
  | append_singleton vs v ih =>
    rw [List.map_append, List.map_singleton, fill_concat, keys_insert, ih, firstsBy_concat]
    simp only [mem_map_firstsBy]
    split
    · rfl
    · rw [List.map_append, List.map_singleton]

/-- A key has its last value. -/
theorem get?_fill_map (vs : List ν) (k : κ) :
    ((empty : OrderedMap κ ν).fill (vs.map fun v ↦ (key v, v))).get? k =
      (vs.filter fun v ↦ key v = k).getLast? := by
  induction vs using List.reverseRecOn with
  | nil => rfl
  | append_singleton vs v ih =>
    rw [List.map_append, List.map_singleton, fill_concat, get?_insert, ih, List.filter_append]
    by_cases hk : k = key v
    · rw [if_pos hk, List.filter_cons_of_pos (by simpa using hk.symm), List.filter_nil,
        List.getLast?_concat]
    · rw [if_neg hk, List.filter_cons_of_neg (by simpa using Ne.symm hk), List.filter_nil,
        List.append_nil]

end OrderedMap

/-! ### Files and entries -/

namespace BundleRecord

/-- The path of a file of the app. -/
def path? : BundleRecord → Option Path
  | .runtime path => some path
  | .page _ => none

/-- The entry of a page. -/
def page? : BundleRecord → Option ManifestEntry
  | .runtime _ => none
  | .page entry => some entry

end BundleRecord

namespace BuildContext

/-- The files of the app among records. -/
def pathsOf (records : List BundleRecord) : List Path :=
  records.filterMap BundleRecord.path?

/-- The entries of pages among records. -/
def pagesOf (records : List BundleRecord) : List ManifestEntry :=
  records.filterMap BundleRecord.page?

theorem pathsOf_bundles (paths : List Path) (entries : List ManifestEntry) :
    pathsOf (paths.map .runtime ++ entries.map .page) = paths := by
  have hfiles : (paths.map BundleRecord.runtime).filterMap BundleRecord.path? = paths := by
    rw [List.filterMap_map]
    exact List.filterMap_some
  have hentries : (entries.map BundleRecord.page).filterMap BundleRecord.path? = [] := by
    rw [List.filterMap_map]
    exact List.filterMap_none _
  rw [pathsOf, List.filterMap_append, hfiles, hentries, List.append_nil]

theorem pagesOf_bundles (paths : List Path) (entries : List ManifestEntry) :
    pagesOf (paths.map .runtime ++ entries.map .page) = entries := by
  have hfiles : (paths.map BundleRecord.runtime).filterMap BundleRecord.page? = [] := by
    rw [List.filterMap_map]
    exact List.filterMap_none _
  have hentries : (entries.map BundleRecord.page).filterMap BundleRecord.page? = entries := by
    rw [List.filterMap_map]
    exact List.filterMap_some
  rw [pagesOf, List.filterMap_append, hfiles, hentries, List.nil_append]

/-- The files of the app with one more. -/
def addPath (paths : List Path) (path : Path) : List Path :=
  if paths.any path.same then paths else paths ++ [path]

/-- **Files and entries are taken down by themselves.** -/
theorem recordAll_eq (c : BuildContext) (records : List BundleRecord) :
    c.recordAll records = ⟨(pathsOf records).foldl addPath c.runtimeModules,
      c.manifest.fill ((pagesOf records).map fun entry ↦ (entry.route, entry))⟩ := by
  induction records generalizing c with
  | nil => rfl
  | cons r records ih =>
    rw [recordAll, List.foldl_cons]
    refine (ih (c.record r)).trans ?_
    rcases r with path | entry
    · have hpaths : pathsOf (.runtime path :: records) = path :: pathsOf records := rfl
      have hpages : pagesOf (.runtime path :: records) = pagesOf records := rfl
      rw [hpaths, hpages, List.foldl_cons, addPath, record]
      split <;> rfl
    · rfl

theorem any_same_iff {paths : List Path} {path : Path} :
    paths.any path.same ↔ path.components ∈ paths.map Path.components := by
  rw [List.any_eq_true, List.mem_map]
  simp only [Path.same, decide_eq_true_iff]
  exact exists_congr fun _ ↦ and_congr_right fun _ ↦ eq_comm

theorem foldl_addPath_nil (paths : List Path) :
    paths.foldl addPath [] = firstsBy Path.components paths := by
  induction paths using List.reverseRecOn with
  | nil => rfl
  | append_singleton paths path ih =>
    rw [List.foldl_append, List.foldl_cons, List.foldl_nil, ih, addPath, firstsBy_concat]
    by_cases hpath : path.components ∈ paths.map Path.components
    · rw [if_pos hpath, if_pos (any_same_iff.2 ((mem_map_firstsBy _).2 hpath))]
    · rw [if_neg hpath, if_neg fun h ↦ hpath ((mem_map_firstsBy _).1 (any_same_iff.1 h))]

/-- Files that are there are not added. -/
theorem foldl_addPath_eq_self {paths new : List Path}
    (h : ∀ path ∈ new, paths.any path.same) : new.foldl addPath paths = paths := by
  induction new with
  | nil => rfl
  | cons path new ih =>
    rw [List.foldl_cons, addPath, if_pos (h path List.mem_cons_self)]
    exact ih fun x hx ↦ h x (List.mem_cons_of_mem _ hx)

theorem mem_map_components_foldl_addPath {paths new : List Path} {cs : List Path.Component} :
    cs ∈ (new.foldl addPath paths).map Path.components ↔
      cs ∈ paths.map Path.components ∨ cs ∈ new.map Path.components := by
  induction new generalizing paths with
  | nil => simp
  | cons path new ih =>
    rw [List.foldl_cons, ih, addPath, List.map_cons, List.mem_cons]
    split
    · rename_i hpath
      rw [any_same_iff] at hpath
      exact ⟨fun h ↦ h.imp_right .inr, fun h ↦ h.elim .inl fun h ↦
        h.elim (fun heq : cs = path.components ↦ .inl (heq ▸ hpath)) .inr⟩
    · rw [List.map_append, List.mem_append, List.map_singleton, List.mem_singleton, or_assoc]

/-- **Taking bundles down again changes nothing.** -/
theorem recordAll_recordAll (c : BuildContext) (records : List BundleRecord) :
    (c.recordAll records).recordAll records = c.recordAll records := by
  have hthere : ∀ path ∈ pathsOf records,
      ((pathsOf records).foldl addPath c.runtimeModules).any path.same := fun path hpath ↦
    any_same_iff.2 (mem_map_components_foldl_addPath.2 (.inr (List.mem_map_of_mem hpath)))
  rw [recordAll_eq, recordAll_eq, OrderedMap.fill_fill, foldl_addPath_eq_self hthere]

/-! ### The result -/

theorem runtimeModules_recordAll (records : List BundleRecord) :
    (empty.recordAll records).runtimeModules = firstsBy Path.components (pathsOf records) := by
  rw [recordAll_eq]
  exact foldl_addPath_nil _

theorem keys_manifest_recordAll (records : List BundleRecord) :
    (empty.recordAll records).manifest.keys =
      (firstsBy ManifestEntry.route (pagesOf records)).map ManifestEntry.route := by
  rw [recordAll_eq]
  exact OrderedMap.keys_fill_map _ _

theorem get?_manifest_recordAll (records : List BundleRecord) (route : String) :
    (empty.recordAll records).manifest.get? route =
      ((pagesOf records).filter fun entry ↦ entry.route = route).getLast? := by
  rw [recordAll_eq]
  exact OrderedMap.get?_fill_map _ _ _

end BuildContext

/-- What is compared of an entry: its texts, and its paths by their components. -/
def ManifestEntry.content (e : ManifestEntry) :
    String × String × List (Option (List Path.Component)) :=
  (e.route, e.identity, [e.script, e.style, e.markup].map (·.map Path.components))

namespace BuildContext

/-- Two records are the same but for the spelling of paths. -/
structure Same (c c' : BuildContext) : Prop where
  runtimeModules : c.runtimeModules.map Path.components = c'.runtimeModules.map Path.components
  keys : c.manifest.keys = c'.manifest.keys
  get? : ∀ route, (c.manifest.get? route).map ManifestEntry.content =
    (c'.manifest.get? route).map ManifestEntry.content

theorem same_recordAll {records others : List BundleRecord}
    (hpaths : (pathsOf records).map Path.components = (pathsOf others).map Path.components)
    (hpages : (pagesOf records).map ManifestEntry.content =
      (pagesOf others).map ManifestEntry.content) :
    Same (empty.recordAll records) (empty.recordAll others) := by
  have hfiles : ∀ paths : List Path, (firstsBy Path.components paths).map Path.components =
      firstsBy id (paths.map Path.components) := map_firstsBy fun _ ↦ rfl
  have hroutes : ∀ pages : List ManifestEntry,
      (firstsBy ManifestEntry.route pages).map ManifestEntry.route =
        firstsBy id (pages.map ManifestEntry.route) := map_firstsBy fun _ ↦ rfl
  have hsame : (pagesOf records).map ManifestEntry.route =
      (pagesOf others).map ManifestEntry.route := by
    have hfst := congrArg (List.map Prod.fst) hpages
    rw [List.map_map, List.map_map] at hfst
    exact hfst
  have hlast : ∀ (pages : List ManifestEntry) (route : String),
      ((pages.filter fun entry ↦ entry.route = route).getLast?).map ManifestEntry.content =
        ((pages.map ManifestEntry.content).filter fun content ↦ content.1 = route).getLast? := by
    intro pages route
    rw [← List.getLast?_map, List.filter_map]
    rfl
  constructor
  · rw [runtimeModules_recordAll, runtimeModules_recordAll, hfiles, hfiles, hpaths]
  · rw [keys_manifest_recordAll, keys_manifest_recordAll, hroutes, hroutes, hsame]
  · intro route
    rw [get?_manifest_recordAll, get?_manifest_recordAll, hlast, hlast, hpages]

/-- **What a record comes to.** After any bundles in any mix, the files of the app are those taken
down without the ones that have the components of an earlier one; the manifest has a key for each
route, in the order of their first entries, with the last entry of the route. A file does not change
the manifest, and an entry does not change the files. So what comes of bundles depends only on the
files among them and on the entries among them, up to the spelling of paths if these are; and taking
all of them down twice is taking them down once. -/
theorem recordAll_accumulates (records : List BundleRecord) :
    (empty.recordAll records).runtimeModules = firstsBy Path.components (pathsOf records) ∧
    (empty.recordAll records).manifest.keys =
      (firstsBy ManifestEntry.route (pagesOf records)).map ManifestEntry.route ∧
    (∀ route, (empty.recordAll records).manifest.get? route =
      ((pagesOf records).filter fun entry ↦ entry.route = route).getLast?) ∧
    (∀ path, (empty.recordAll (records ++ [.runtime path])).manifest =
      (empty.recordAll records).manifest) ∧
    (∀ entry, (empty.recordAll (records ++ [.page entry])).runtimeModules =
      (empty.recordAll records).runtimeModules) ∧
    (∀ others, pathsOf records = pathsOf others → pagesOf records = pagesOf others →
      empty.recordAll records = empty.recordAll others) ∧
    (∀ others, (pathsOf records).map Path.components = (pathsOf others).map Path.components →
      (pagesOf records).map ManifestEntry.content = (pagesOf others).map ManifestEntry.content →
      Same (empty.recordAll records) (empty.recordAll others)) ∧
    empty.recordAll (records ++ records) = empty.recordAll records := by
  have happend : ∀ more,
      empty.recordAll (records ++ more) = (empty.recordAll records).recordAll more :=
    fun _ ↦ List.foldl_append
  refine ⟨runtimeModules_recordAll records, keys_manifest_recordAll records,
    get?_manifest_recordAll records, fun path ↦ ?_, fun entry ↦ ?_, fun others hpaths hpages ↦ ?_,
    fun others ↦ same_recordAll, ?_⟩
  · rw [happend, recordAll_eq]
    rfl
  · rw [happend, recordAll_eq]
    rfl
  · rw [recordAll_eq, recordAll_eq, hpaths, hpages]
  · rw [happend, recordAll_recordAll]

example : (empty.recordAll [.runtime ⟨"ui/app.js"⟩, .runtime ⟨"ui//app.js"⟩]).runtimeModules =
    [⟨"ui/app.js"⟩] := by
  decide +kernel

end BuildContext

end AppletBundle
