import AppletBundle.Number.Binary64

/-!
# The shortest decimal of a number

Of all decimals that read back as a given number, the shortest is the one with the fewest digits, and
of these the one nearest to the number. A decimal reads back if it lies between the halves of the gaps
around the number; the halves themselves count if the significand is even.
-/

namespace AppletBundle.Number

/-- The decimal `digits * 10 ^ exponent`. -/
structure Decimal where
  digits : Nat
  exponent : Int
  deriving DecidableEq

/-- The interval of ratios that round to a number, in quarters of the unit of its significand. -/
structure Rounding where
  low : Nat
  value : Nat
  high : Nat
  closed : Bool
  /-- The exponent of two of a quarter. -/
  exponent : Int

/-- The interval around a number. Below a power of two the gap is half as wide. -/
def Binary64.rounding (x : Binary64) : Rounding :=
  let m := x.significand
  let below := if m = 1 <<< 52 && Binary64.minExponent < x.exponent then 1 else 2
  ⟨4 * m - below, 4 * m, 4 * m + 2, m % 2 = 0, x.exponent - 2⟩

/-- Whether the decimal `k * 10 ^ e` lies in the interval, where `num / den` is what `10 ^ e` is in
quarters. -/
def Rounding.contains (r : Rounding) (num den k : Nat) : Bool :=
  if r.closed then r.low * den ≤ k * num && k * num ≤ r.high * den
  else r.low * den < k * num && k * num < r.high * den

/-- What `10 ^ e` is in quarters, as a ratio. -/
def Rounding.unit (r : Rounding) (e : Int) : Nat × Nat :=
  let (n, d) := if 0 ≤ e then (Nat.pow 10 e.toNat, 1) else (1, Nat.pow 10 (-e).toNat)
  if 0 ≤ r.exponent then (n, d <<< r.exponent.toNat) else (n <<< (-r.exponent).toNat, d)

/-- The nearest of the two neighbours of the number on the grid of `10 ^ e`, if one lies in the
interval. -/
def Rounding.onGrid? (r : Rounding) (e : Int) : Option Nat :=
  let (num, den) := r.unit e
  let k := r.value * den / num
  let rest := r.value * den % num
  let near := if 2 * rest < num || (2 * rest = num && k % 2 = 0) then k else k + 1
  let far := if near = k then k + 1 else k
  if r.contains num den near && near != 0 then some near
  else if r.contains num den far && far != 0 then some far
  else none

/-- The number of digits before the point; below one, minus the number of zeros after it. -/
def magnitude (num den : Nat) : Int :=
  if den ≤ num then (Nat.toDigits 10 (num / den)).length
  else 1 - (((List.range 400).find? fun j ↦ den ≤ num * Nat.pow 10 j).getD 0 : Nat)

/-- The decimal without zeros at its end. -/
def Decimal.trimZeros : Nat → Decimal → Decimal
  | 0, d => d
  | n + 1, d =>
    if d.digits % 10 = 0 && d.digits != 0 then trimZeros n ⟨d.digits / 10, d.exponent + 1⟩ else d

/-- The shortest decimal that reads back as a number. -/
def Binary64.shortest (x : Binary64) : Decimal :=
  if x.significand = 0 then ⟨0, 0⟩
  else
    let (num, den) := x.toRatio
    let p := magnitude num den
    let r := x.rounding
    let found := (List.range 17).findSome? fun (n : Nat) ↦
      let e := p - 1 - n
      (r.onGrid? e).map fun k ↦ (⟨k, e⟩ : Decimal)
    (found.getD ⟨0, 0⟩).trimZeros 20

end AppletBundle.Number
