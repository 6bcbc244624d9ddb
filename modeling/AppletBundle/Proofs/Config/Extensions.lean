import AppletBundle.Proofs.Config.Precedence
import AppletBundle.Proofs.Files.Ancestors
import AppletBundle.Proofs.Project.Containment

/-!
# Extensions keep files apart

A chosen extension is usable (`IsUsable`) if something is left of it without the dots in front, and
this can stand at the end of a file name and is not that of the settings. Extensions are accepted
exactly if they are usable and differ (`normalized_eq_ok_iff`).

What an extension is appended to is the last segment of a path, which becomes a name by it, whatever
it was before (`Path.getLast?_components_withExtension`). So different extensions give different
names in the same place, for the components of a path as for the location that it leads to in a
tree of files (`FileTree.getLast?_locationOf_withExtension`).

The main result is `normalized_separates`.
-/

namespace AppletBundle

open AppletBundle.Path

namespace Path

/-! ### Names that end in an extension -/

/-- The text after the last separator of a path. -/
def lastSegment (p : Path) : List Char :=
  (segments p.text.toList).getLast (segments_ne_nil _)

/-- An extension goes to the last segment. -/
theorem segments_withExtension (p : Path) {extension : String} (hext : IsExtension extension) :
    segments (p.withExtension extension).text.toList =
      (segments p.text.toList).dropLast ++ [p.lastSegment ++ '.' :: extension.toList] := by
  have hslash : '/' ∉ '.' :: extension.toList := by
    rw [List.mem_cons, not_or]
    exact ⟨by decide, hext.not_mem⟩
  obtain ⟨us, u, hs, hst⟩ := segments_append_of_not_mem p.text.toList hslash
  rw [toList_withExtension, hst, lastSegment]
  simp [hs]

theorem name_injective (p : Path) :
    Function.Injective fun extension : String ↦
      String.ofList (p.lastSegment ++ '.' :: extension.toList) := by
  intro x y h
  have hchars := String.ofList_injective h
  exact String.toList_inj.1 (List.cons.inj (List.append_cancel_left hchars)).2

/-- **A path with an extension leads to a name**, the last segment with the extension. -/
theorem getLast?_components_withExtension (p : Path) {extension : String}
    (hext : IsExtension extension) :
    (p.withExtension extension).components.getLast? =
      some (.normal (.ofList (p.lastSegment ++ '.' :: extension.toList))) := by
  rw [components_eq, bodyComponents, segments_withExtension p hext, List.filterMap_append,
    List.filterMap_cons_some (ofSegment?_append_extension p.lastSegment hext), List.filterMap_nil,
    ← List.append_assoc, List.getLast?_concat]

theorem not_same_withExtension (p : Path) {x y : String} (hx : IsExtension x) (hy : IsExtension y)
    (hne : x ≠ y) : ¬ (p.withExtension x).same (p.withExtension y) := by
  rw [same, decide_eq_true_iff]
  intro h
  have hlast := getLast?_components_withExtension p hx
  rw [h, getLast?_components_withExtension p hy] at hlast
  exact hne (name_injective p (Component.normal.inj (Option.some.inj hlast)).symm)

theorem isAbsolute_withExtension (p : Path) (extension : String) :
    (p.withExtension extension).isAbsolute = p.isAbsolute := by
  rw [Bool.eq_iff_iff, isAbsolute_iff, isAbsolute_iff, head?_eq_root_iff, head?_eq_root_iff,
    toList_withExtension]
  rcases p.text.toList with - | ⟨c, s⟩ <;> simp

/-- An extension stays at the end of a joined path. -/
theorem join_withExtension (p q : Path) (extension : String) :
    p.join (q.withExtension extension) = (p.join q).withExtension extension := by
  rw [join, join, isAbsolute_withExtension]
  split
  · rfl
  · split <;> simp [withExtension, String.append_assoc]

end Path

namespace FileTree

/-- **What a path with an extension leads to has its name**, in whatever directory. -/
theorem getLast?_locationOf_withExtension (t : FileTree) (p : Path) {extension : String}
    (hext : IsExtension extension) :
    (t.locationOf (p.withExtension extension)).getLast? =
      some (.ofList (p.lastSegment ++ '.' :: extension.toList)) := by
  obtain ⟨front, hfront⟩ :=
    List.getLast?_eq_some_iff.1 (getLast?_components_withExtension p hext)
  rw [locationOf_eq, hfront, List.foldl_concat, resolve, List.getLast?_concat]

/-- What two paths lead to is not the same. -/
def Apart (t : FileTree) (p q : Path) : Prop :=
  ∀ l l' e e', t.locate p = .ok (.found l e) → t.locate q = .ok (.found l' e') → l ≠ l'

theorem apart_withExtension (t : FileTree) (p : Path) {x y : String} (hx : IsExtension x)
    (hy : IsExtension y) (hne : x ≠ y) : t.Apart (p.withExtension x) (p.withExtension y) := by
  rintro l l' e e' hl hl' rfl
  have hlast := getLast?_locationOf_withExtension t p hx
  rw [← (isAt_of_locate hl).1, (isAt_of_locate hl').1,
    getLast?_locationOf_withExtension t p hy] at hlast
  exact hne (name_injective p (Option.some.inj hlast).symm)

end FileTree

namespace Extensions

open Config

/-! ### Usable extensions -/

/-- An extension that the modules of a kind can have. -/
structure IsUsable (extension : String) : Prop where
  ne_empty : extension ≠ ""
  slash_not_mem : '/' ∉ extension.toList
  backslash_not_mem : '\\' ∉ extension.toList
  ne_settings : extension ≠ "json"

theorem normalizeOne_eq_ok_iff {kind : ModuleKind} {chosen extension : String} :
    normalizeOne kind chosen = .ok extension ↔
      extension = stripDots chosen ∧ IsUsable extension := by
  constructor
  · intro h
    rw [normalizeOne] at h
    split at h
    · cases h
    rename_i husable
    split at h
    · cases h
    rename_i hother
    obtain rfl := Except.ok.inj h
    simp only [Bool.or_eq_true, List.isEmpty_iff, List.contains_iff_mem, not_or] at husable
    refine ⟨rfl, ?_, ?_, ?_, hother⟩
    · rw [ne_eq, String.ofList_eq_empty_iff]
      exact husable.1.1
    · rw [String.toList_ofList]
      exact husable.1.2
    · rw [String.toList_ofList]
      exact husable.2
  · rintro ⟨rfl, husable⟩
    have hne : chosen.toList.dropWhile (· == '.') ≠ [] := by
      intro hnil
      exact husable.ne_empty (by rw [stripDots, hnil, String.ofList_nil])
    have hslash := husable.slash_not_mem
    have hbackslash := husable.backslash_not_mem
    rw [stripDots, String.toList_ofList] at hslash hbackslash
    rw [normalizeOne, if_neg (by simp [hne, hslash, hbackslash])]
    exact if_neg husable.ne_settings

/-- **Extensions are accepted exactly if they are usable and differ**, and lose the dots in
front. -/
theorem normalized_eq_ok_iff {e e' : Extensions} :
    e.normalized = .ok e' ↔ (∀ kind, e'.ofKind kind = stripDots (e.ofKind kind)) ∧
      (∀ kind, IsUsable (e'.ofKind kind)) ∧ Function.Injective e'.ofKind := by
  have hkinds : ∀ P : ModuleKind → Prop, (∀ kind, P kind) ↔ P .script ∧ P .markup ∧ P .style :=
    fun P ↦ ⟨fun h ↦ ⟨h _, h _, h _⟩, fun h kind ↦ by rcases kind; exacts [h.1, h.2.2, h.2.1]⟩
  have hdiffer : ¬ (e'.script = e'.markup ∨ e'.script = e'.style ∨ e'.markup = e'.style) ↔
      Function.Injective e'.ofKind := by
    constructor
    · rintro hdiffer (- | - | -) (- | - | -) h <;> first
        | rfl
        | exact absurd h (by simp_all [ofKind, eq_comm])
    · intro hinjective h
      rcases h with h | h | h
      · cases hinjective (show e'.ofKind .script = e'.ofKind .markup from h)
      · cases hinjective (show e'.ofKind .script = e'.ofKind .style from h)
      · cases hinjective (show e'.ofKind .markup = e'.ofKind .style from h)
  constructor
  · intro h
    obtain ⟨script, hscript, h⟩ := Outcome.bind_eq_ok.1 h
    obtain ⟨markup, hmarkup, h⟩ := Outcome.bind_eq_ok.1 h
    obtain ⟨style, hstyle, h⟩ := Outcome.bind_eq_ok.1 h
    split at h
    · cases h
    · rename_i hne
      cases h
      rw [normalizeOne_eq_ok_iff] at hscript hmarkup hstyle
      exact ⟨(hkinds _).2 ⟨hscript.1, hmarkup.1, hstyle.1⟩,
        (hkinds _).2 ⟨hscript.2, hmarkup.2, hstyle.2⟩, hdiffer.1 hne⟩
  · rintro ⟨hstripped, husable, hinjective⟩
    have hone : ∀ kind, normalizeOne kind (e.ofKind kind) = .ok (e'.ofKind kind) :=
      fun kind ↦ normalizeOne_eq_ok_iff.2 ⟨hstripped kind, husable kind⟩
    refine Outcome.bind_eq_ok.2 ⟨_, hone .script, Outcome.bind_eq_ok.2 ⟨_, hone .markup,
      Outcome.bind_eq_ok.2 ⟨_, hone .style, ?_⟩⟩⟩
    exact if_neg (hdiffer.2 hinjective)

/-! ### The result -/

/-- The extensions of the files of a page or component, that of the settings last. -/
def roles (e : Extensions) : List String :=
  [ModuleKind.script, .markup, .style].map e.ofKind ++ [settings]

section Accepted

variable {e e' : Extensions} (h : e.normalized = .ok e')

include h

theorem isExtension_of_mem_roles {x : String} (hx : x ∈ e'.roles) : IsExtension x := by
  obtain ⟨hstripped, husable, -⟩ := normalized_eq_ok_iff.1 h
  rcases List.mem_append.1 hx with hx | hx
  · obtain ⟨kind, -, rfl⟩ := List.mem_map.1 hx
    have hone : normalizeOne kind (e.ofKind kind) = .ok (e'.ofKind kind) :=
      normalizeOne_eq_ok_iff.2 ⟨hstripped kind, husable kind⟩
    exact isExtension_of_normalizeOne hone
  · rw [List.mem_singleton.1 hx]
    exact ⟨by decide, by decide, by decide⟩

theorem nodup_roles : e'.roles.Nodup := by
  obtain ⟨-, husable, hinjective⟩ := normalized_eq_ok_iff.1 h
  have hsettings : settings ∉ [ModuleKind.script, .markup, .style].map e'.ofKind := by
    intro hmem
    obtain ⟨kind, -, hkind⟩ := List.mem_map.1 hmem
    exact (husable kind).ne_settings hkind
  rw [roles, ← List.concat_eq_append, List.nodup_concat]
  exact ⟨hsettings, List.Nodup.map hinjective (by decide)⟩

/-- Accepted extensions and that of the settings are different ends of file names. -/
theorem pairwise_roles : e'.roles.Pairwise fun x y ↦ IsExtension x ∧ IsExtension y ∧ x ≠ y :=
  List.Pairwise.imp_of_mem (fun hx hy hne ↦
    ⟨isExtension_of_mem_roles h hx, isExtension_of_mem_roles h hy, hne⟩) (nodup_roles h)

end Accepted

/-- **Accepted extensions keep files apart.** Extensions are accepted exactly if each of them,
without the dots in front, is not empty, has neither kind of slash and is not that of the settings,
and the three differ; what is accepted is just this, and is accepted again as it is. With them and
the extension of the settings, any base gives four different paths, and wherever the base is looked
for, no two of them lead to the same file. -/
theorem normalized_separates (e : Extensions) :
    ((∃ e', e.normalized = .ok e') ↔ (∀ kind, IsUsable (stripDots (e.ofKind kind))) ∧
      Function.Injective fun kind ↦ stripDots (e.ofKind kind)) ∧
    ∀ e', e.normalized = .ok e' →
      (∀ kind, e'.ofKind kind = stripDots (e.ofKind kind)) ∧
      e'.normalized = .ok e' ∧
      ∀ base : Path,
        (e'.roles.map base.withExtension).Pairwise (fun p q ↦ ¬ p.same q) ∧
        ∀ (files : FileTree) (root : Path),
          (e'.roles.map fun x ↦ root.join (base.withExtension x)).Pairwise files.Apart := by
  refine ⟨⟨?_, ?_⟩, fun e' h ↦ ⟨?_, ?_, fun base ↦ ⟨?_, fun files root ↦ ?_⟩⟩⟩
  · rintro ⟨e', h⟩
    obtain ⟨hstripped, husable, hinjective⟩ := normalized_eq_ok_iff.1 h
    have hkinds : (fun kind ↦ stripDots (e.ofKind kind)) = e'.ofKind :=
      funext fun kind ↦ (hstripped kind).symm
    exact ⟨fun kind ↦ hstripped kind ▸ husable kind, hkinds ▸ hinjective⟩
  · rintro ⟨husable, hinjective⟩
    have hkinds :
        (⟨stripDots e.script, stripDots e.markup, stripDots e.style⟩ : Extensions).ofKind =
          fun kind ↦ stripDots (e.ofKind kind) := funext fun kind ↦ by rcases kind <;> rfl
    exact ⟨_, normalized_eq_ok_iff.2
      ⟨congrFun hkinds, fun kind ↦ congrFun hkinds kind ▸ husable kind, hkinds ▸ hinjective⟩⟩
  · exact (normalized_eq_ok_iff.1 h).1
  · obtain ⟨hstripped, husable, hinjective⟩ := normalized_eq_ok_iff.1 h
    refine normalized_eq_ok_iff.2 ⟨fun kind ↦ ?_, husable, hinjective⟩
    rw [hstripped, stripDots_stripDots]
  · rw [List.pairwise_map]
    exact (pairwise_roles h).imp fun ⟨hx, hy, hne⟩ ↦ not_same_withExtension base hx hy hne
  · simp only [join_withExtension, List.pairwise_map]
    exact (pairwise_roles h).imp fun ⟨hx, hy, hne⟩ ↦ files.apart_withExtension _ hx hy hne

/-- At a base that ends in a parent, and an extension that is refused as another with dots. -/
theorem normalized_separates_dotted :
    (⟨"..ts", ".wxml", "w.css"⟩ : Extensions).normalized = .ok ⟨"ts", "wxml", "w.css"⟩ ∧
      (["ts", "wxml", "w.css", "json"].map (Path.mk "pages/..").withExtension).Pairwise
        (fun p q ↦ ¬ p.same q) ∧
      ¬ ∃ e', (⟨"..ts", ".ts", "wxss"⟩ : Extensions).normalized = .ok e' := by
  have haccepted : (⟨"..ts", ".wxml", "w.css"⟩ : Extensions).normalized =
      .ok ⟨"ts", "wxml", "w.css"⟩ := by
    decide
  obtain ⟨-, -, hseparates⟩ := (normalized_separates _).2 _ haccepted
  refine ⟨haccepted, (hseparates ⟨"pages/.."⟩).1, fun h ↦ ?_⟩
  obtain ⟨-, hinjective⟩ := (normalized_separates _).1.1 h
  have hsame : ModuleKind.script = .markup :=
    hinjective (show stripDots "..ts" = stripDots ".ts" by decide)
  cases hsame

end Extensions

end AppletBundle
