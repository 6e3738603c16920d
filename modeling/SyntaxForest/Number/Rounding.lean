import SyntaxForest.Number.Basic
/-!
# Rounding to double precision

One function, `Number.nearestSize`, rounds an exact quotient of naturals to the
nearest size, a tie going to the even one. Sums, products, quotients and decimal
numerals all compute exactly and round once through it.
-/

namespace SyntaxForest.Number

/-- The size nearest to `num / den` units; a tie goes to the even size and a
quotient past the largest finite size becomes infinity. -/
def nearestSize (num den : Nat) : Nat :=
  let whole := num / den
  let shift := if whole < 2 * binade then 0 else Nat.log2 whole - 52
  let step := den * Nat.pow 2 shift
  let count := num / step
  let rest := num % step
  let up := step < 2 * rest ∨ (2 * rest = step ∧ count % 2 = 1)
  min (shift * binade + (if up then count + 1 else count)) topSize

/-- The number nearest to `± num / den`. -/
def ofRatio (negative : Bool) (num den : Nat) : Number :=
  ofSize negative (nearestSize (num * unitsPerOne) den)

/-- The number nearest to a natural. -/
def ofNat (n : Nat) : Number := ofRatio false n 1

/-- The number nearest to an integer. -/
def ofInt (n : Int) : Number := ofRatio (decide (n < 0)) n.natAbs 1

instance (n : Nat) : OfNat Number n := ⟨ofNat n⟩

/-- The signed count of units of a finite number. -/
def signedUnits (negative : Bool) (size : Nat) : Int :=
  if negative then -(units size : Int) else units size

/-- Rounded sum. A sum of zero is negative only when both terms are. -/
def add : Number → Number → Number
  | .real a s, .real b t =>
    if s.val = topSize then
      if t.val = topSize ∧ a ≠ b then .nan else .real a s
    else if t.val = topSize then .real b t
    else
      let total := signedUnits a s.val + signedUnits b t.val
      if total = 0 then ofSize (a && b) 0
      else ofSize (decide (total < 0)) (nearestSize total.natAbs 1)
  | _, _ => .nan

/-- Rounded product. -/
def mul : Number → Number → Number
  | .real a s, .real b t =>
    if s.val = topSize ∨ t.val = topSize then
      if s.val = 0 ∨ t.val = 0 then .nan else ofSize (a != b) topSize
    else ofSize (a != b) (nearestSize (units s.val * units t.val) unitsPerOne)
  | _, _ => .nan

/-- The natural nearest to a non-negative finite number, a half going up. -/
def roundToNat : Number → Nat
  | .nan => 0
  | .real _ size => (2 * units size.val + unitsPerOne) / (2 * unitsPerOne)

end SyntaxForest.Number
