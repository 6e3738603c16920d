import SyntaxForest.Text.Numeral
import SyntaxForest.Value.Basic
/-!
# Plain scalars of YAML

What the text of a plain scalar stands for under the core schema: null, a truth
value, a number, or else the text itself.
-/

namespace SyntaxForest.Yaml

def nullWords : List String := ["", "~", "null", "Null", "NULL"]

def trueWords : List String := ["true", "True", "TRUE"]

def falseWords : List String := ["false", "False", "FALSE"]

def infinityWords : List String := [".inf", ".Inf", ".INF"]

def nanWords : List String := [".nan", ".NaN", ".NAN"]

/-- Infinity or NaN. -/
def specialNumber? (text : List Char) : Option Number :=
  let (sign, rest) := Numeral.splitSign text
  if infinityWords.contains (String.ofList rest) then
    some (.ofSize (sign == some '-') Number.topSize)
  else if nanWords.contains (String.ofList text) then some .nan
  else none

/-- An octal or hexadecimal integer. -/
def prefixedNumber? : List Char → Option Number
  | '0' :: 'o' :: digits =>
    if !digits.isEmpty && digits.all Numeral.isOctalDigit then
      some (.ofNat (Numeral.value 8 digits))
    else none
  | '0' :: 'x' :: digits =>
    if !digits.isEmpty && digits.all Numeral.isHexDigit then
      some (.ofNat (Numeral.value 16 digits))
    else none
  | _ => none

/-- A decimal numeral: digits before or behind the point, leading zeros allowed. -/
def decimalNumber? (text : List Char) : Option Number :=
  let (sign, rest) := Numeral.splitSign text
  let (parts, rest) := Numeral.readParts (sign == some '-') rest
  let fraction := parts.fraction.getD []
  let digitsOk := !parts.whole.isEmpty || !fraction.isEmpty
  let exponentOk := parts.exponent.all (fun e => !e.2.isEmpty)
  if rest.isEmpty && digitsOk && exponentOk then some parts.toNumber else none

/-- What a plain scalar stands for. -/
def plainValue (text : List Char) : Value :=
  let word := String.ofList text
  if nullWords.contains word then .null
  else if trueWords.contains word then .bool true
  else if falseWords.contains word then .bool false
  else
    match specialNumber? text <|> prefixedNumber? text <|> decimalNumber? text with
    | some n => .num n
    | none => .text word

end SyntaxForest.Yaml
