import SyntaxForest.Text.Numeral
import SyntaxForest.Text.Units
import SyntaxForest.Value.Fields
/-!
# JSON

A strict reader: no comments, no trailing commas, no characters after the value.
A name given twice keeps its first place and its last value.
-/

namespace SyntaxForest.Json

def isSpace (c : Char) : Bool := c == ' ' || c == '\t' || c == '\n' || c == '\r'

def skipSpace (cs : List Char) : List Char := cs.dropWhile isSpace

/-! ## Strings -/

def escapeCode? : Char → Option Nat
  | '"' => some 0x22
  | '\\' => some 0x5c
  | '/' => some 0x2f
  | 'b' => some 0x08
  | 'f' => some 0x0c
  | 'n' => some 0x0a
  | 'r' => some 0x0d
  | 't' => some 0x09
  | _ => none

/-- The codes of a string body up to its closing quote, and what follows. -/
def stringCodes : List Char → Option (List Nat × List Char)
  | [] => none
  | '"' :: rest => some ([], rest)
  | '\\' :: 'u' :: a :: b :: c :: d :: rest =>
    if [a, b, c, d].all Numeral.isHexDigit then do
      let (codes, rest) ← stringCodes rest
      return (Numeral.value 16 [a, b, c, d] :: codes, rest)
    else none
  | '\\' :: e :: rest => do
    let code ← escapeCode? e
    let (codes, rest) ← stringCodes rest
    return (code :: codes, rest)
  | c :: rest =>
    if c.toNat < 0x20 then none
    else do
      let (codes, rest) ← stringCodes rest
      return (c.toNat :: codes, rest)

/-- A string whose opening quote was read. -/
def stringBody (cs : List Char) : Option (String × List Char) := do
  let (codes, rest) ← stringCodes cs
  return (String.ofList (Text.ofCodes codes), rest)

/-! ## Numbers -/

/-- A number: no leading zeros, and digits wherever a part is begun. -/
def number (cs : List Char) : Option (Number × List Char) :=
  let (negative, cs) := match cs with
    | '-' :: rest => (true, rest)
    | _ => (false, cs)
  let (parts, rest) := Numeral.readParts negative cs
  let wholeOk := !parts.whole.isEmpty && (parts.whole.length == 1 || parts.whole.head? != some '0')
  let fractionOk := parts.fraction.all (fun digits => !digits.isEmpty)
  let exponentOk := parts.exponent.all (fun e => !e.2.isEmpty)
  if wholeOk && fractionOk && exponentOk then some (parts.toNumber, rest) else none

/-! ## Values -/

/-- Read a fixed word. -/
def word (w : String) (v : Value) (cs : List Char) : Option (Value × List Char) :=
  if w.toList.isPrefixOf cs then some (v, cs.drop w.length) else none

mutual

/-- Read a value; `steps` bounds the number of values and list positions. -/
def value : (steps : Nat) → List Char → Option (Value × List Char)
  | 0, _ => none
  | steps + 1, cs =>
    match skipSpace cs with
    | '\x7b' :: rest =>
      match skipSpace rest with
      | '\x7d' :: rest => some (.object false [], rest)
      | _ => do
        let (entries, rest) ← members steps rest
        return (.object false (Fields.ofPairs entries), rest)
    | '[' :: rest =>
      match skipSpace rest with
      | ']' :: rest => some (.list [], rest)
      | _ => do
        let (list, rest) ← items steps rest
        return (.list list, rest)
    | '"' :: rest => do
      let (s, rest) ← stringBody rest
      return (.text s, rest)
    | 't' :: rest => word "rue" (.bool true) rest
    | 'f' :: rest => word "alse" (.bool false) rest
    | 'n' :: rest => word "ull" .null rest
    | cs => do
      let (n, rest) ← number cs
      return (.num n, rest)

/-- The items of a list up to its closing bracket. -/
def items : (steps : Nat) → List Char → Option (List Value × List Char)
  | 0, _ => none
  | steps + 1, cs => do
    let (first, rest) ← value steps cs
    match skipSpace rest with
    | ',' :: rest => do
      let (others, rest) ← items steps rest
      return (first :: others, rest)
    | ']' :: rest => return ([first], rest)
    | _ => none

/-- The entries of an object up to its closing brace. -/
def members : (steps : Nat) → List Char → Option (List (String × Value) × List Char)
  | 0, _ => none
  | steps + 1, cs =>
    match skipSpace cs with
    | '"' :: rest => do
      let (name, rest) ← stringBody rest
      match skipSpace rest with
      | ':' :: rest => do
        let (v, rest) ← value steps rest
        match skipSpace rest with
        | ',' :: rest => do
          let (others, rest) ← members steps rest
          return ((name, v) :: others, rest)
        | '\x7d' :: rest => return ([(name, v)], rest)
        | _ => none
      | _ => none
    | _ => none

end

/-- Read a whole text. -/
def parse? (text : String) : Option Value :=
  let cs := text.toList
  match value (cs.length + 1) cs with
  | some (v, rest) => if (skipSpace rest).isEmpty then some v else none
  | none => none

end SyntaxForest.Json
