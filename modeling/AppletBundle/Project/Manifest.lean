import AppletBundle.Json.Parser
import AppletBundle.Ordered.Map

/-!
# Manifests

The manifest of the app lists its pages; the manifest of a page or component says which components
its markup uses under which tags. Both are records with one known field: an object in which that
field occurs at most once beside any others, or an array with the field alone.
-/

namespace AppletBundle

/-- The field of a record with one known field, if the value is such a record. -/
def Json.soleField? (name : String) : Json → Option (Option Json)
  | .object members =>
    match members.filter fun m ↦ m.1 = name with
    | [] => some none
    | [m] => some (some m.2)
    | _ => none
  | .array [] => some none
  | .array [v] => some (some v)
  | _ => none

/-- The text of a string. -/
def Json.text? : Json → Option String
  | .string t => some t
  | _ => none

/-- The manifest of the app. -/
structure AppManifest where
  /-- The routes of the pages. -/
  pages : List String

namespace AppManifest

/-- The manifest that a value is. -/
def ofJson? (v : Json) : Option AppManifest :=
  match v.soleField? "pages" with
  | some (some (.array items)) => (items.mapM Json.text?).map AppManifest.mk
  | _ => none

/-- The manifest that a text is. -/
def parse? (s : String) : Option AppManifest :=
  (Json.parse? s.toList).bind ofJson?

end AppManifest

/-- The manifest of a page or component. -/
structure UnitManifest where
  /-- The places of the components that are used, by their tags. -/
  usingComponents : OrderedMap String String

namespace UnitManifest

/-- The manifest of a page or component that has none. -/
def empty : UnitManifest :=
  ⟨.empty⟩

/-- A component and its tag. -/
def component? (member : String × Json) : Option (String × String) :=
  member.2.text?.map fun place ↦ (member.1, place)

/-- The manifest that a value is. A tag that is declared again keeps its place and gets the last
component. -/
def ofJson? (v : Json) : Option UnitManifest :=
  match v.soleField? "usingComponents" with
  | some none => some empty
  | some (some (.object members)) =>
    (members.mapM component?).map fun declared ↦
      ⟨declared.foldl (fun m (tag, place) ↦ m.insert tag place) .empty⟩
  | _ => none

/-- The manifest that a text is. -/
def parse? (s : String) : Option UnitManifest :=
  (Json.parse? s.toList).bind ofJson?

end UnitManifest

end AppletBundle
