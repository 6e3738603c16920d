/-!
# Text in 16-bit units

Length limits on text count 16-bit code units: a character outside the basic
plane counts as two. Escapes in text may name such a character by its two halves.
-/

namespace SyntaxForest

def Char.units16 (c : Char) : Nat := if c.toNat < 0x10000 then 1 else 2

namespace Text

def units16 (cs : List Char) : Nat := cs.foldl (fun n c => n + Char.units16 c) 0

/-- Code units of a text. -/
def length16 (s : String) : Nat := units16 s.toList

/-- The characters of a list of codes, where two halves of a pair are one
character and a half alone is the replacement character. -/
def ofCodes : List Nat → List Char
  | [] => []
  | [a] => [if 0xD800 ≤ a ∧ a < 0xE000 then '\uFFFD' else Char.ofNat a]
  | a :: b :: rest =>
    if 0xD800 ≤ a ∧ a < 0xDC00 ∧ 0xDC00 ≤ b ∧ b < 0xE000 then
      Char.ofNat (0x10000 + (a - 0xD800) * 0x400 + (b - 0xDC00)) :: ofCodes rest
    else (if 0xD800 ≤ a ∧ a < 0xE000 then '\uFFFD' else Char.ofNat a) :: ofCodes (b :: rest)

end Text

end SyntaxForest
