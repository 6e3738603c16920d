/-!
# Double-precision numbers

Every number the library stores is an IEEE 754 binary64 number. A number other
than NaN is a sign and a *size*: the low 63 bits of its encoding, which grow
with its magnitude. Two numbers are the same number exactly when they are equal
as terms; `Number.eqv` is the numeric comparison, which identifies the two zeros
and separates NaN from itself.
-/

namespace SyntaxForest

/-- The size of infinity: the largest size there is. -/
def Number.topSize : Nat := 0x7FF0000000000000

/-- A double-precision number. All NaNs are one number. -/
inductive Number where
  | nan
  | real (negative : Bool) (size : Fin (Number.topSize + 1))
deriving DecidableEq

namespace Number

/-- The number with a given sign and size; a size past the top is infinity. -/
def ofSize (negative : Bool) (size : Nat) : Number :=
  .real negative ⟨min size topSize, by omega⟩

def zero : Number := ofSize false 0
def negativeZero : Number := ofSize true 0
def infinity : Number := ofSize false topSize
def negativeInfinity : Number := ofSize true topSize

instance : Inhabited Number := ⟨zero⟩

/-! ## Order -/

/-- Position in the numeric order, where both zeros stand at 0. -/
def rank? : Number → Option Int
  | .nan => none
  | .real negative size => some (if negative then -(size.val : Int) else size.val)

/-- Position in the order that puts negative zero right before zero. -/
def place? : Number → Option Int
  | .nan => none
  | .real negative size => some (if negative then -(size.val + 1 : Int) else size.val)

/-- Numeric comparison of two positions; false as soon as one side is NaN. -/
def compareBy (test : Int → Int → Bool) (x y : Number) : Bool :=
  match x.rank?, y.rank? with
  | some a, some b => test a b
  | _, _ => false

/-- Numeric equality. -/
def eqv (x y : Number) : Bool := compareBy (fun a b => a == b) x y

/-- Numeric `<`. -/
def below (x y : Number) : Bool := compareBy (fun a b => decide (a < b)) x y

/-- Numeric `≤`. -/
def atMost (x y : Number) : Bool := compareBy (fun a b => decide (a ≤ b)) x y

/-- The smaller of two numbers: NaN if either is, and negative zero before zero. -/
def lesser (x y : Number) : Number :=
  match x.place?, y.place? with
  | some a, some b => if b < a then y else x
  | none, _ => x
  | _, none => y

/-- The larger of two numbers: NaN if either is, and zero after negative zero. -/
def greater (x y : Number) : Number :=
  match x.place?, y.place? with
  | some a, some b => if a < b then y else x
  | none, _ => x
  | _, none => y

/-! ## Magnitude

`units` measures a size in multiples of 2⁻¹⁰⁷⁴, the least positive number, so
that every finite number is an integer count of units. -/

/-- How many units make up one. -/
def unitsPerOne : Nat := Nat.pow 2 1074

/-- How many sizes share an exponent: the fraction field holds 52 bits. -/
def binade : Nat := 0x10000000000000

/-- The magnitude of a size, in units. From the second binade on the leading bit
is implied. -/
def units (size : Nat) : Nat :=
  if size < binade then size
  else (binade + size % binade) * Nat.pow 2 (size / binade - 1)

/-- Finite and a whole number of ones. -/
def isInteger : Number → Bool
  | .nan => false
  | .real _ size => decide (size.val < topSize) && units size.val % unitsPerOne == 0

/-- The integer a number stands for, if it is one. -/
def toInt? : Number → Option Int
  | .nan => none
  | .real negative size =>
    if size.val < topSize ∧ units size.val % unitsPerOne = 0 then
      let whole : Int := (units size.val / unitsPerOne : Nat)
      some (if negative then -whole else whole)
    else none

/-- Whether `n ≤ x`, exactly. -/
def coversCount (x : Number) (n : Nat) : Bool :=
  match x with
  | .nan => false
  | .real negative size =>
    if negative then n == 0 && size.val == 0
    else size.val == topSize || decide (n * unitsPerOne ≤ units size.val)

/-- Whether `n < x`, exactly. -/
def exceedsCount (x : Number) (n : Nat) : Bool :=
  match x with
  | .nan => false
  | .real negative size =>
    !negative && (size.val == topSize || decide (n * unitsPerOne < units size.val))

/-- The 64 bits of the encoding, for a number that is not NaN. -/
def bits : Number → Nat
  | .nan => topSize + binade / 2
  | .real negative size => (if negative then 0x8000000000000000 else 0) + size.val

end Number

end SyntaxForest
