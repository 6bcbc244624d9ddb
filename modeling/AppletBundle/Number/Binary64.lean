/-!
# Numbers with 53 binary digits

The numbers of scripts are those that fit in 64 bits: a significand of at most 53 binary digits times
a power of two. A number as it is written is a ratio of two natural numbers, which is rounded to the
nearest of these, an exact half to the one with an even significand.
-/

namespace AppletBundle.Number

/-- The number `significand * 2 ^ exponent`. -/
structure Binary64 where
  significand : Nat
  exponent : Int
  deriving DecidableEq

namespace Binary64

/-- The least exponent. -/
def minExponent : Int :=
  -1074

/-- The greatest exponent. -/
def maxExponent : Int :=
  971

/-- The ratio `num / den * 2 ^ -e` with natural parts. -/
def scaled (num den : Nat) (e : Int) : Nat × Nat :=
  if 0 ≤ e then (num, den <<< e.toNat) else (num <<< (-e).toNat, den)

/-- The natural number nearest to a ratio, of two equally near the even one. -/
def roundHalfEven (num den : Nat) : Nat :=
  let q := num / den
  let r := num % den
  if 2 * r < den then q
  else if den < 2 * r then q + 1
  else q + q % 2

/-- The exponent that gives a ratio 53 binary digits, or the least exponent. -/
def fittingExponent (num den : Nat) : Int :=
  let e := (Nat.log2 num : Int) - Nat.log2 den - 52
  let (n, d) := scaled num den e
  max minExponent (if n < d <<< 52 then e - 1 else e)

/-- The number nearest to a ratio; nothing when the ratio is too great for any. -/
def ofRatio? (num den : Nat) : Option Binary64 :=
  if num = 0 then some ⟨0, minExponent⟩
  else
    let e := fittingExponent num den
    let (n, d) := scaled num den e
    let m := roundHalfEven n d
    let x : Binary64 := if m = 1 <<< 53 then ⟨1 <<< 52, e + 1⟩ else ⟨m, e⟩
    if maxExponent < x.exponent then none else some x

/-- The value as a ratio. -/
def toRatio (x : Binary64) : Nat × Nat :=
  if 0 ≤ x.exponent then (x.significand <<< x.exponent.toNat, 1)
  else (x.significand, 1 <<< (-x.exponent).toNat)

/-- The value when it is a whole number. -/
def toNat? (x : Binary64) : Option Nat :=
  let (n, d) := x.toRatio
  if n % d = 0 then some (n / d) else none

end Binary64

end AppletBundle.Number
