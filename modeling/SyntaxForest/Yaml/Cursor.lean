import SyntaxForest.Yaml.Extent
/-!
# From text to tokens

A cursor is a place in a text, with the tokens in front of it. It moves on by one
token, or a few, at a time; what it takes next depends on the region it is in.
`tokens?` moves one through the content of a document and fails on what is read
nowhere here: anchors, aliases, tags, block scalars, keys behind a question mark,
and a second document.
-/

namespace SyntaxForest.Yaml

/-- What a cursor expects. -/
inductive Region where
  /-- The start of a line. -/
  | lineStart
  /-- The marks of items and values that a line may start with. -/
  | lineMarks
  /-- Content outside brackets. -/
  | block
  /-- Content inside brackets. -/
  | flow
deriving DecidableEq, Inhabited

structure Cursor where
  region : Region
  /-- The text that is left. -/
  rest : List Char
  /-- The tokens so far, latest first. -/
  tokens : List Token
  offset : Nat
  /-- How far the line is indented. -/
  indent : Nat
  /-- Whether the line holds nothing but indentation up to here. -/
  indenting : Bool
  /-- The column of the block content of the line. -/
  column : Nat
  /-- How far the further lines of a scalar have to be indented. -/
  margin : Nat
  /-- How many brackets are open. -/
  depth : Nat
  /-- Whether the last content inside brackets ends so clearly that a colon right
  behind it marks a value. -/
  keyEnded : Bool
  /-- The indentation of a line inside brackets that has only begun. -/
  flowIndent : Option Nat
deriving Inhabited

namespace Cursor

/-- A cursor at the start of a text. Behind a byte order mark a line is not indented. -/
def start (text : List Char) : Cursor :=
  let rest := skipByteOrderMark text
  { region := .lineStart, rest, tokens := [], offset := 0
    indent := 0, indenting := rest.length == text.length, column := 0, margin := 0
    depth := 0, keyEnded := false, flowIndent := none }

/-! ## Taking a token -/

def take (kind : TokenKind) (length : Nat) (c : Cursor) : Cursor :=
  let token : Token := { kind, text := c.rest.take length, offset := c.offset, indent := c.indent }
  let c := { c with rest := c.rest.drop length, tokens := token :: c.tokens, offset := token.stop }
  match kind with
  | .lineBreak => { c with indent := 0, indenting := true }
  | .space =>
    let widens := c.indenting && token.text.head? == some ' '
    if widens then { c with indent := c.indent + length } else c
  | .dash | .colon => if c.indenting then { c with indent := c.indent + length } else c
  | _ => { c with indenting := false }

/-- Take a token unless it would be empty. -/
def takeSome (kind : TokenKind) (length : Nat) (c : Cursor) : Cursor :=
  if length = 0 then c else c.take kind length

def spaceCount (c : Cursor) : Nat := (c.rest.takeWhile (· == ' ')).length

def blankCount (c : Cursor) : Nat := (c.rest.takeWhile isBlank).length

def takeBlanks (c : Cursor) : Cursor := c.takeSome .space c.blankCount

def takeComment (c : Cursor) : Cursor := c.take .comment (firstLine c.rest).length

/-- Take a line break, if there is one, and come to the start of a line. -/
def takeBreak (c : Cursor) : Cursor :=
  { c.takeSome .lineBreak (breakLength c.rest) with region := .lineStart }

def takeQuoted (style : ScalarStyle) (c : Cursor) : Cursor :=
  c.take (.scalar style) (1 + quotedLength style c.margin (c.rest.drop 1))

def takePlain (c : Cursor) : Cursor :=
  c.take (.scalar .plain) (plainLength (decide (0 < c.depth)) c.margin c.rest)

/-! ## Block content -/

/-- Take the indentation of a line. The marker that ends a document ends the
text as well: nothing may follow it. -/
def atLineStart (c : Cursor) : Option Cursor :=
  match marker? c.rest with
  | some .start => none
  | some .finish =>
    if (contentStart (c.rest.drop 3)).isEmpty then some { c with rest := [] } else none
  | none =>
    let column := c.spaceCount
    let c := c.takeSome .space column
    let shrinks := decide (column < c.margin) && !atGap (c.rest.drop 1)
    some { c with region := .lineMarks, column, margin := if shrinks then column else c.margin }

/-- Take a mark that the content of a line starts with. What stands behind it is
in a column of its own. -/
def atLineMarks (c : Cursor) : Option Cursor :=
  let marked (kind : TokenKind) : Cursor :=
    let next := c.take kind 1
    let blanks := next.blankCount
    { next.takeSome .space blanks with column := c.column + 1 + blanks, margin := c.column + 1 }
  match c.rest with
  | '-' :: rest => some (if atGap rest then marked .dash else { c with region := .block })
  | ':' :: rest => some (if atGap rest then marked .colon else { c with region := .block })
  | _ => some { c with region := .block }

/-- Take the next content of a line outside brackets. -/
def inBlock (c : Cursor) : Option Cursor :=
  let c := c.takeBlanks
  let marked (kind : TokenKind) : Cursor := { c.take kind 1 with margin := c.column + 1 }
  let opened (bracket : Bracket) : Cursor :=
    { c.take (.opening bracket) 1 with region := .flow, depth := 1, keyEnded := false }
  match c.rest with
  | [] => some c
  | first :: rest =>
    if 0 < breakLength (first :: rest) then some c.takeBreak
    else match first with
      | '-' => some (if atGap rest then marked .dash else c.takePlain)
      | ':' => some (if atGap rest then marked .colon else c.takePlain)
      | '?' => if atGap rest then none else some c.takePlain
      | '#' => some c.takeComment.takeBreak
      | '[' => some (opened .square)
      | '\x7b' => some (opened .curly)
      | '"' => some (c.takeQuoted .doubleQuoted)
      | '\x27' => some (c.takeQuoted .singleQuoted)
      | ']' | '\x7d' | '&' | '*' | '!' | '|' | '>' => none
      | _ => some c.takePlain

/-! ## Flow content -/

/-- Whether content inside brackets may stand here. A line must be indented by
the margin; only a bracket that closes the outermost one may stand one column
less. A comment may start anywhere. -/
def mayHold (c : Cursor) : Bool :=
  match c.flowIndent with
  | none => true
  | some indent =>
    let short := decide (indent < c.margin) && c.rest.head? != some '#'
    let marked := indent == 0 && (marker? c.rest).isSome
    let closes := c.rest.head? == some ']' || c.rest.head? == some '\x7d'
    (!short && !marked) || (indent + 1 == c.margin && c.depth == 1 && closes)

/-- Take a colon that marks a value inside brackets. A comma behind it leaves the
place of the value empty. -/
def takeFlowColon (c : Cursor) : Cursor :=
  let c := { c.take .colon 1 with keyEnded := false }.takeBlanks
  if c.rest.head? == some ',' then c.take (.scalar .plain) 0 else c

/-- Take the next content inside brackets. -/
def inFlow (c : Cursor) : Option Cursor :=
  let opened (bracket : Bracket) : Cursor :=
    { c.take (.opening bracket) 1 with depth := c.depth + 1, keyEnded := false, flowIndent := none }
  let closed (bracket : Bracket) : Cursor :=
    { c.take (.closing bracket) 1 with
      region := if c.depth = 1 then .block else .flow
      depth := c.depth - 1, keyEnded := true, flowIndent := none }
  let quoted (style : ScalarStyle) : Cursor :=
    { c.takeQuoted style with keyEnded := true, flowIndent := none }
  let plain : Cursor := { c.takePlain with keyEnded := false, flowIndent := none }
  match c.rest with
  | [] => some c
  | first :: rest =>
    if 0 < breakLength (first :: rest) then
      let c := c.take .lineBreak (breakLength (first :: rest))
      let indent := c.spaceCount
      some { c.takeSome .space indent with column := indent, flowIndent := some indent }
    else if isBlank first then some c.takeBlanks
    else if !c.mayHold then none
    else match first with
      | ',' => some { c.take .comma 1 with keyEnded := false, flowIndent := none }
      | ':' =>
        if atGap rest || atFlowIndicator rest || c.keyEnded then
          some { c.takeFlowColon with flowIndent := none }
        else some plain
      | '-' | '?' => if atGap rest || atFlowIndicator rest then none else some plain
      | '#' => some { c.takeComment with flowIndent := none }
      | '[' => some (opened .square)
      | '\x7b' => some (opened .curly)
      | ']' => some (closed .square)
      | '\x7d' => some (closed .curly)
      | '"' => some (quoted .doubleQuoted)
      | '\x27' => some (quoted .singleQuoted)
      | '&' | '*' | '!' => none
      | _ => some plain

/-! ## The tokens of a text -/

def move (c : Cursor) : Option Cursor :=
  match c.region with
  | .lineStart => c.atLineStart
  | .lineMarks => c.atLineMarks
  | .block => c.inBlock
  | .flow => c.inFlow

/-- Move on to the end of the text. -/
def finish : (steps : Nat) → Cursor → Option Cursor
  | 0, _ => none
  | steps + 1, c => if c.rest.isEmpty then some c else c.move >>= finish steps

end Cursor

/-- The tokens of the content of a document, which begins at the start of a line
that is not blank. No place is passed more than four times without a character
being taken. -/
def tokens? (text : List Char) : Option (List Token) :=
  let c := Cursor.start text
  let c := match marker? c.rest with
    | some .start => { c.take .documentStart 3 with region := .block }
    | _ => c
  (c.finish (4 * text.length + 4)).map (·.tokens.reverse)

end SyntaxForest.Yaml
