/-!
# Hexadecimal digits

Escapes write code points in hexadecimal digits.
-/

namespace AppletBundle.Text

/-- The value of a hexadecimal digit. -/
def hexValue? (c : Char) : Option Nat :=
  if '0' ≤ c && c ≤ '9' then some (c.toNat - 48)
  else if 'a' ≤ c && c ≤ 'f' then some (c.toNat - 87)
  else if 'A' ≤ c && c ≤ 'F' then some (c.toNat - 55)
  else none

/-- The number that hexadecimal digits write. -/
def hexNumber? (digits : List Char) : Option Nat :=
  digits.foldlM (fun n c ↦ (hexValue? c).map (16 * n + ·)) 0

/-- The lower-case hexadecimal digits of a number. -/
def hexDigits (n : Nat) : String :=
  .ofList (Nat.toDigits 16 n)

end AppletBundle.Text
