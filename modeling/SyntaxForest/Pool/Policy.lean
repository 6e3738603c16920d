import SyntaxForest.Number.Decimal
/-!
# Pool policies

A policy says which values a pool keeps: a range of integers, a cap on the truth
values of one kind, and caps on length and number for texts.
-/

namespace SyntaxForest

structure IntRange where
  min : Number
  max : Number
deriving DecidableEq, Inhabited

structure TextLimits where
  /-- The longest text kept. -/
  maxLength : Number
  maxEntries : Number
deriving DecidableEq, Inhabited

structure PoolPolicy where
  int : IntRange
  /-- How many truth values one kind may keep. -/
  boolEntries : Number
  string : TextLimits
  identifier : TextLimits
deriving DecidableEq, Inhabited

/-- The policy where nothing is configured. -/
def PoolPolicy.standard : PoolPolicy :=
  { int := { min := .ofInt (-128), max := .ofNat 127 }
    boolEntries := .ofNat 2
    string := { maxLength := .ofNat 50, maxEntries := .ofNat 1000 }
    identifier := { maxLength := .ofNat 30, maxEntries := .ofNat 500 } }

end SyntaxForest
