import AppletBundle.Number.Shortest
import AppletBundle.Script.Literal

/-!
# Numbers in printed scripts

A number is printed as the shortest of a few spellings of its value: the usual one, a hexadecimal
one, and those with an exponent that moves zeros or the point. Whole numbers below a thousand are
printed as they are.
-/

namespace AppletBundle.Script

open AppletBundle.Number AppletBundle.Text

/-! ### The value of a literal -/

/-- The value of digits in a base. -/
def digitsValue (base : Nat) (digits : List Char) : Nat :=
  digits.foldl (fun n c ↦ base * n + (hexValue? c).getD 0) 0

/-- The value of a decimal literal as a ratio. -/
def decimalRatio (s : List Char) : Nat × Nat :=
  let isMark := fun c ↦ c == 'e' || c == 'E'
  let mantissa := s.takeWhile (!isMark ·)
  let exponent := (s.dropWhile (!isMark ·)).drop 1
  let (negative, exponent) := match exponent with
    | '-' :: digits => (true, digits)
    | '+' :: digits => (false, digits)
    | digits => (false, digits)
  let e := digitsValue 10 exponent
  let whole := mantissa.takeWhile (· ≠ '.')
  let fraction := (mantissa.dropWhile (· ≠ '.')).drop 1
  let digits := digitsValue 10 (whole ++ fraction)
  -- exponents beyond these only give zero or no number
  let e := min e (2000 + mantissa.length)
  if negative then (digits, Nat.pow 10 (fraction.length + e))
  else (digits * Nat.pow 10 e, Nat.pow 10 fraction.length)

/-- The value of a literal as a ratio. -/
def literalRatio (raw : List Char) : Nat × Nat :=
  match raw.filter (· ≠ '_') with
  | '0' :: c :: digits =>
    if c = 'x' || c = 'X' then (digitsValue 16 digits, 1)
    else if c = 'o' || c = 'O' then (digitsValue 8 digits, 1)
    else if c = 'b' || c = 'B' then (digitsValue 2 digits, 1)
    else if c.isDigit && (c :: digits).all isOctalDigit then (digitsValue 8 (c :: digits), 1)
    else decimalRatio ('0' :: c :: digits)
  | s => decimalRatio s

/-- The value of a literal; nothing when it is too great for any number. -/
def literalValue? (raw : List Char) : Option Binary64 :=
  let (num, den) := literalRatio raw
  Binary64.ofRatio? num den

/-! ### Spellings -/

/-- A whole number in decimal digits. -/
def natDigits (n : Nat) : List Char :=
  Nat.toDigits 10 n

/-- An integer in decimal digits. -/
def intDigits (n : Int) : List Char :=
  if n < 0 then '-' :: natDigits n.natAbs else natDigits n.natAbs

/-- The usual spelling of a decimal: with an exponent only for more than 21 digits before the point
or more than six zeros after it. -/
def usualSpelling (d : Decimal) : List Char :=
  let digits := natDigits d.digits
  let point := d.exponent + digits.length
  if 0 ≤ d.exponent && point ≤ 21 then digits ++ List.replicate d.exponent.toNat '0'
  else if 0 < point && point ≤ 21 then
    digits.take point.toNat ++ '.' :: digits.drop point.toNat
  else if -6 < point && point ≤ 0 then
    '0' :: '.' :: List.replicate (-point).toNat '0' ++ digits
  else
    let mantissa := match digits with
      | [] => []
      | [c] => [c]
      | c :: cs => c :: '.' :: cs
    mantissa ++ 'e' :: intDigits (point - 1)

/-- The shorter of two spellings, of equally long ones the first. -/
def shorter (a b : List Char) : List Char :=
  if b.length < a.length then b else a

/-- A fraction without the zeros after its point, which an exponent makes up for. -/
def moveLeadingZeros (s : List Char) : List Char :=
  match s with
  | '.' :: '0' :: rest =>
    let digits := rest.dropWhile (· = '0')
    let zeros := rest.length - digits.length
    if digits.isEmpty then s
    else shorter s (digits ++ ['e', '-'] ++ natDigits (digits.length + zeros + 1))
  | _ => s

/-- A spelling without the zeros at its end, which an exponent makes up for. -/
def moveTrailingZeros (s : List Char) : List Char :=
  let base := (s.reverse.dropWhile (· = '0')).reverse
  if base.length < s.length then shorter s (base ++ 'e' :: natDigits (s.length - base.length)) else s

/-- A spelling with an exponent and without its point. -/
def movePoint (s : List Char) : List Char :=
  let whole := s.takeWhile (· ≠ '.')
  let rest := (s.dropWhile (· ≠ '.')).drop 1
  let fraction := rest.takeWhile (· ≠ 'e')
  match rest.dropWhile (· ≠ 'e') with
  | 'e' :: exponent =>
    let e : Int := match exponent with
      | '-' :: digits => -(digitsValue 10 digits : Int)
      | digits => digitsValue 10 digits
    shorter s (whole ++ fraction ++ 'e' :: intDigits (e - fraction.length))
  | _ => s

/-- The hexadecimal spelling of a whole number. -/
def hexSpelling (n : Nat) : List Char :=
  '0' :: 'x' :: Nat.toDigits 16 (min n ((1 <<< 128) - 1))

/-- The shortest spelling of a number. -/
def shortSpelling (x : Binary64) : List Char :=
  let usual := usualSpelling x.shortest
  match x.toNat? with
  | some n =>
    if n < 1000 then usual
    else if (hexSpelling n).length < usual.length then hexSpelling n
    else movePoint (moveTrailingZeros usual)
  | none =>
    let usual := if usual.head? = some '0' then usual.drop 1 else usual
    movePoint (moveTrailingZeros (moveLeadingZeros usual))

/-- The value of a big integer literal. -/
def bigintValue (raw : List Char) : Nat :=
  (literalRatio (raw.filter (· ≠ 'n'))).1

end AppletBundle.Script
