import AppletBundle.Path.Basic

/-!
# Normal paths

`Path.normalize` resolves dots and parents without looking at any file: a parent cancels the name
before it, and is kept where there is no name to cancel. The project key of a path is its list of
components below the project's root, joined by slashes.
-/

namespace AppletBundle.Path

/-- Takes one more component onto a normal list, the last component first. -/
def reduceStep (done : List Component) : Component → List Component
  | .current => done
  | .parent =>
    match done with
    | .normal _ :: rest => rest
    | _ => .parent :: done
  | c => c :: done

/-- The components of a path with its names and parents cancelled. -/
def reduce (components : List Component) : List Component :=
  (components.foldl reduceStep []).reverse

/-- Writes components as a path. -/
def ofComponents : List Component → Path
  | .root :: rest => ⟨"/" ++ "/".intercalate (rest.map Component.text)⟩
  | cs => ⟨"/".intercalate (cs.map Component.text)⟩

/-- The path with dots and parents resolved as far as its text allows. -/
def normalize (p : Path) : Path :=
  ofComponents (reduce p.components)

/-- The key of a path in the project at `root`: its components there, joined by slashes. -/
def projectKey (root p : Path) : String :=
  "/".intercalate (((p.stripPrefix? root).getD p).components.map Component.text)

end AppletBundle.Path
