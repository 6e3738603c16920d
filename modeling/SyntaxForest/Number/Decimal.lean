import SyntaxForest.Number.Rounding
/-!
# Decimal numerals

`Number.ofDecimal` reads a numeral, correctly rounded. `Number.shortest` finds
the fewest decimal digits that read back as the number, and among those the
numeral nearest to it. `Number.text` lays these digits out: positionally for
magnitudes from 10⁻⁶ up to 10²¹, with an exponent otherwise.
-/

namespace SyntaxForest.Number

/-! ## Reading -/

/-- The number nearest to `± digits · 10 ^ exponent`. Numerals whose magnitude
is far outside the range are settled without computing the power. -/
def ofDecimal (negative : Bool) (digits : Nat) (exponent : Int) : Number :=
  let reach := exponent + (Nat.toDigits 10 digits).length
  if digits = 0 ∨ reach < -330 then ofSize negative 0
  else if reach > 310 then ofSize negative topSize
  else if exponent < 0 then ofRatio negative digits (Nat.pow 10 exponent.natAbs)
  else ofRatio negative (digits * Nat.pow 10 exponent.toNat) 1

/-! ## Shortest digits -/

/-- The power of ten right above a positive magnitude: `10 ^ (p - 1) ≤ v < 10 ^ p`. -/
def decimalPoint (magnitude : Nat) : Int :=
  if unitsPerOne ≤ magnitude then (Nat.toDigits 10 (magnitude / unitsPerOne)).length
  else 1 - ((Nat.toDigits 10 ((unitsPerOne - 1) / magnitude)).length : Int)

/-- The finite set of reals that round to one size, as an interval in half units. -/
structure RoundingRange where
  low : Nat
  high : Nat
  /-- The ends belong to the interval: a tie goes to an even size. -/
  closed : Bool

def RoundingRange.of (size : Nat) : RoundingRange :=
  { low := units (size - 1) + units size
    high := units size + units (size + 1)
    closed := size % 2 == 0 }

/-- Whether the decimal `digits · 10 ^ exponent` lies in the interval. -/
def RoundingRange.holds (range : RoundingRange) (digits : Nat) (exponent : Int) : Bool :=
  let value := digits * Nat.pow 10 exponent.toNat * (2 * unitsPerOne)
  let low := range.low * Nat.pow 10 (-exponent).toNat
  let high := range.high * Nat.pow 10 (-exponent).toNat
  if range.closed then decide (low ≤ value ∧ value ≤ high) else decide (low < value ∧ value < high)

/-- The candidate on the grid of `10 ^ exponent` that reads back as the size:
of the two neighbours of its magnitude the nearer, or the even one on a tie. -/
def onGrid? (size : Nat) (exponent : Int) : Option Nat :=
  let range := RoundingRange.of size
  let num := units size * Nat.pow 10 (-exponent).toNat
  let den := unitsPerOne * Nat.pow 10 exponent.toNat
  let below := num / den
  let rest := num % den
  let nearest := if 2 * rest < den ∨ (2 * rest = den ∧ below % 2 = 0) then below else below + 1
  let other := if nearest = below then below + 1 else below
  if range.holds nearest exponent then some nearest
  else if range.holds other exponent then some other
  else none

/-- Try grids of `count` digits and more, at most `tries` of them. Seventeen
digits always suffice. -/
def shortestFrom (size : Nat) (point : Int) : (tries count : Nat) → Nat × Int
  | 0, count => (units size / unitsPerOne, point - count)
  | tries + 1, count =>
    match onGrid? size (point - count) with
    | some digits => (digits, point - count)
    | none => shortestFrom size point tries (count + 1)

/-- Digits and exponent of the shortest numeral of a positive finite size. -/
def shortest (size : Nat) : Nat × Int := shortestFrom size (decimalPoint (units size)) 17 1

/-! ## Layout -/

def digitChars (n : Nat) : List Char := Nat.toDigits 10 n

/-- Digits without the zeros they end in. -/
def dropTrailingZeros (digits : List Char) : List Char :=
  (digits.reverse.dropWhile (· == '0')).reverse

/-- Lay out `0.d₁d₂… · 10 ^ point`. Positional from `point = -5` to `point = 21`. -/
def layout (digits : List Char) (point : Int) : List Char :=
  let count : Int := digits.length
  if count ≤ point ∧ point ≤ 21 then digits ++ List.replicate (point - count).toNat '0'
  else if 0 < point ∧ point ≤ 21 then
    digits.take point.toNat ++ '.' :: digits.drop point.toNat
  else if -6 < point ∧ point ≤ 0 then
    '0' :: '.' :: List.replicate (-point).toNat '0' ++ digits
  else
    let exponent := point - 1
    let mantissa := match digits with
      | [] => []
      | [d] => [d]
      | d :: rest => d :: '.' :: rest
    mantissa ++ 'e' :: (if exponent < 0 then '-' else '+') :: digitChars exponent.natAbs

/-- The written form of a number. Both zeros are written `0`. -/
def text : Number → String
  | .nan => "NaN"
  | .real negative size =>
    if size.val = 0 then "0"
    else
      let sign := if negative then "-" else ""
      if size.val = topSize then sign ++ "Infinity"
      else
        let (digits, exponent) := shortest size.val
        let written := digitChars digits
        sign ++ String.ofList (layout (dropTrailingZeros written) (exponent + written.length))

end SyntaxForest.Number
