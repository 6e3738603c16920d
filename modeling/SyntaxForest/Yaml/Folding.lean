import SyntaxForest.Text.Numeral
import SyntaxForest.Text.Units
import SyntaxForest.Yaml.Token
/-!
# Text of scalars

A line break inside a scalar stands for a space, together with the blanks around
it; blank lines stand for line breaks. A double-quoted scalar may also hold
escapes.
-/

namespace SyntaxForest.Yaml

/-! ## Plain and single-quoted scalars -/

def splitLines : List Char → List (List Char)
  | [] => [[]]
  | '\r' :: '\n' :: rest => [] :: splitLines rest
  | c :: rest =>
    if c = '\n' then [] :: splitLines rest
    else match splitLines rest with
      | line :: lines => (c :: line) :: lines
      | [] => [[c]]

def trimStart (line : List Char) : List Char := line.dropWhile isBlank

def trimEnd (line : List Char) : List Char := (line.reverse.dropWhile isBlank).reverse

/-- Join the lines behind the first one. The first of some blank lines in a row
takes the place of the space, each further one adds a line break. -/
def joinLines (afterBlank : Bool) : List (List Char) → List Char
  | [] => []
  | [last] => (if afterBlank then '\n' else ' ') :: trimStart last
  | line :: lines =>
    let content := trimEnd (trimStart line)
    if content.isEmpty then
      if afterBlank then '\n' :: joinLines true lines else joinLines true lines
    else (if afterBlank then '\n' else ' ') :: (content ++ joinLines false lines)

/-- A text with its lines folded. The blanks that the whole starts or ends with
are content. -/
def foldLines (text : List Char) : List Char :=
  match splitLines text with
  | first :: second :: lines => trimEnd first ++ joinLines false (second :: lines)
  | _ => text

/-- A text in which each doubled quote is a single one. -/
def joinQuotes : List Char → List Char
  | [] => []
  | '\x27' :: '\x27' :: rest => '\x27' :: joinQuotes rest
  | c :: rest => c :: joinQuotes rest

def singleQuotedText (body : List Char) : List Char := joinQuotes (foldLines body)

/-! ## Double-quoted scalars -/

def escapeCode? : Char → Option Nat
  | '0' => some 0x00
  | 'a' => some 0x07
  | 'b' => some 0x08
  | 't' | '\t' => some 0x09
  | 'n' => some 0x0a
  | 'v' => some 0x0b
  | 'f' => some 0x0c
  | 'r' => some 0x0d
  | 'e' => some 0x1b
  | ' ' => some 0x20
  | '"' => some 0x22
  | '/' => some 0x2f
  | '\\' => some 0x5c
  | 'N' => some 0x85
  | '_' => some 0xa0
  | 'L' => some 0x2028
  | 'P' => some 0x2029
  | _ => none

/-- How many digits follow the letter of a numeric escape. -/
def codeLength? : Char → Option Nat
  | 'x' => some 2
  | 'u' => some 4
  | 'U' => some 8
  | _ => none

/-- The code that a text starts with, if that has so many digits. -/
def leadingCode? (length : Nat) (text : List Char) : Option Nat :=
  let digits := text.take length
  let code := Numeral.value 16 digits
  let complete := digits.length == length && digits.all Numeral.isHexDigit
  if complete && code ≤ 0x10ffff then some code else none

/-- How many lines the blanks at the start of a text go on over, and the content
behind them. -/
def skipBlankLines : List Char → Nat × List Char
  | '\r' :: '\n' :: rest => let (count, rest) := skipBlankLines rest; (count + 1, rest)
  | c :: rest =>
    if c = '\n' then let (count, rest) := skipBlankLines rest; (count + 1, rest)
    else if isBlank c then skipBlankLines rest
    else (0, c :: rest)
  | [] => (0, [])

/-- The codes of a folded line break, in front of which a line break is already
taken. -/
def foldedBreak (blankLines : Nat) : List Nat :=
  if blankLines = 0 then [0x20] else List.replicate blankLines 0x0a

/-- The codes of the body of a double-quoted scalar. A backslash at its end stands
in front of the closing quote, which is content as well then. -/
def doubleQuotedCodes : (steps : Nat) → List Char → Option (List Nat)
  | 0, _ => none
  | _, [] => some []
  | steps + 1, '\\' :: rest =>
    match rest with
    | [] => some ['"'.toNat]
    | letter :: more =>
      if 0 < breakLength rest then
        doubleQuotedCodes steps ((rest.drop (breakLength rest)).dropWhile isBlank)
      else match escapeCode? letter, codeLength? letter with
        | some code, _ => (doubleQuotedCodes steps more).map (code :: ·)
        | none, some length => do
          let code ← leadingCode? length more
          let codes ← doubleQuotedCodes steps (more.drop length)
          return code :: codes
        | none, none => none
  | steps + 1, c :: rest =>
    let text := c :: rest
    let blanks := text.takeWhile isBlank
    let next := text.dropWhile isBlank
    if 0 < breakLength next then
      let (blankLines, rest) := skipBlankLines (next.drop (breakLength next))
      (doubleQuotedCodes steps rest).map (foldedBreak blankLines ++ ·)
    else if !blanks.isEmpty then
      (doubleQuotedCodes steps next).map (blanks.map Char.toNat ++ ·)
    else (doubleQuotedCodes steps rest).map (c.toNat :: ·)

def doubleQuotedText? (body : List Char) : Option (List Char) :=
  (doubleQuotedCodes (body.length + 1) body).map Text.ofCodes

end SyntaxForest.Yaml
