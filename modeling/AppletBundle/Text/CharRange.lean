/-!
# Character properties as ranges

A property of characters is kept as the list of its ranges of code points, both ends included.
-/

namespace AppletBundle.Text

/-- Whether a character lies in one of the ranges. -/
def inRanges (ranges : List (Nat × Nat)) (c : Char) : Bool :=
  ranges.any fun r ↦ r.1 ≤ c.toNat && c.toNat ≤ r.2

end AppletBundle.Text
