import SyntaxForest.Number.Decimal
/-!
# Numerals in text

Reading of digit sequences and of decimal numerals with an optional sign,
fraction and exponent. What is required of the parts is up to the text format.
-/

namespace SyntaxForest.Numeral

/-- The value of a digit in any base up to sixteen. -/
def digitValue (c : Char) : Nat :=
  if c.isDigit then c.toNat - '0'.toNat
  else if 'a' ≤ c ∧ c ≤ 'f' then c.toNat - 'a'.toNat + 10
  else if 'A' ≤ c ∧ c ≤ 'F' then c.toNat - 'A'.toNat + 10
  else 0

def isHexDigit (c : Char) : Bool :=
  c.isDigit || ('a' ≤ c && c ≤ 'f') || ('A' ≤ c && c ≤ 'F')

def isOctalDigit (c : Char) : Bool := '0' ≤ c && c ≤ '7'

/-- The number a sequence of digits stands for. -/
def value (base : Nat) (digits : List Char) : Nat :=
  digits.foldl (fun acc c => base * acc + digitValue c) 0

/-- The parts of a decimal numeral. -/
structure Parts where
  negative : Bool
  whole : List Char
  /-- The digits behind the point, if there is a point. -/
  fraction : Option (List Char)
  /-- Sign and digits of the exponent, if there is one. -/
  exponent : Option (Bool × List Char)

def splitSign : List Char → Option Char × List Char
  | '-' :: rest => (some '-', rest)
  | '+' :: rest => (some '+', rest)
  | cs => (none, cs)

/-- Split off the longest run of digits. -/
def splitDigits (cs : List Char) : List Char × List Char :=
  (cs.takeWhile Char.isDigit, cs.dropWhile Char.isDigit)

/-- Read whole part, fraction and exponent, as far as they go. -/
def readParts (negative : Bool) (cs : List Char) : Parts × List Char :=
  let (whole, rest) := splitDigits cs
  let (fraction, rest) := match rest with
    | '.' :: more =>
      let (digits, rest) := splitDigits more
      (some digits, rest)
    | _ => (none, rest)
  match rest with
  | 'e' :: more | 'E' :: more =>
    let (sign, more) := splitSign more
    let (digits, rest) := splitDigits more
    ({ negative, whole, fraction, exponent := some (sign == some '-', digits) }, rest)
  | _ => ({ negative, whole, fraction, exponent := none }, rest)

/-- The number nearest to a numeral. -/
def Parts.toNumber (p : Parts) : Number :=
  let fraction := p.fraction.getD []
  let shift : Int := match p.exponent with
    | some (true, digits) => -(value 10 digits : Int)
    | some (false, digits) => value 10 digits
    | none => 0
  .ofDecimal p.negative (value 10 (p.whole ++ fraction)) (shift - fraction.length)

end SyntaxForest.Numeral
