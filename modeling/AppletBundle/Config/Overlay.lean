import AppletBundle.Ordered.Set

/-!
# Overlaying settings

A setting may be missing in a source of settings. Of two sources the higher one wins where it has a
value; sets are joined instead, the higher one first.
-/

namespace AppletBundle.Config

/-- The value of the higher source, or that of the lower one where it has none. -/
def overlay {α : Type} (high low : Option α) : Option α :=
  match high with
  | some a => some a
  | none => low

/-- The elements of the set of the higher source, then those of the lower one. -/
def overlaySet {α : Type} [DecidableEq α] (high low : Option (OrderedSet α)) :
    Option (OrderedSet α) :=
  match high, low with
  | some a, some b => some (a.insertAll b.toList)
  | some a, none => some a
  | none, b => b

end AppletBundle.Config
