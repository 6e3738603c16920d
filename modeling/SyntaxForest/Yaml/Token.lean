import SyntaxForest.Text.Units
/-!
# Tokens of YAML

A token is a stretch of a text of one kind. The tokens of a text follow each
other without gaps, so the blanks, line breaks and comments between the rest are
tokens too. A token knows how far into the text it starts, and how far its line
is indented in front of it; the marks of items and values that a line starts
with belong to the indentation.
-/

namespace SyntaxForest.Yaml

/-! ## Characters -/

def isBlank (c : Char) : Bool := c == ' ' || c == '\t'

/-- The length of the line break a text starts with; zero if there is none. -/
def breakLength : List Char → Nat
  | '\n' :: _ => 1
  | '\r' :: '\n' :: _ => 2
  | _ => 0

/-- Whether a text is at its end, or at a character that parts words. -/
def atGap : List Char → Bool
  | [] => true
  | c :: _ => isBlank c || c == '\n' || c == '\r'

def isFlowIndicator (c : Char) : Bool := ",[]\x7b\x7d".toList.contains c

def atFlowIndicator : List Char → Bool
  | [] => false
  | c :: _ => isFlowIndicator c

/-- A text up to the end of its first line. -/
def firstLine : List Char → List Char
  | [] => []
  | c :: rest => if breakLength (c :: rest) = 0 then c :: firstLine rest else []

/-- A text without the byte order mark it may start with. -/
def skipByteOrderMark : List Char → List Char
  | '\ufeff' :: rest => rest
  | text => text

/-- A text from its first line on that holds more than blanks and a comment. Each
line may start with a byte order mark. -/
def contentFrom : (steps : Nat) → List Char → List Char
  | 0, text => text
  | steps + 1, text =>
    match (skipByteOrderMark text).dropWhile isBlank with
    | [] => []
    | '#' :: rest => contentFrom steps (rest.drop (firstLine rest).length)
    | rest =>
      if breakLength rest = 0 then text else contentFrom steps (rest.drop (breakLength rest))

def contentStart (text : List Char) : List Char := contentFrom (text.length + 1) text

/-- The lines that part documents. -/
inductive Marker where
  | start
  | finish
deriving DecidableEq, Inhabited

/-- The marker a line consists of or starts with. -/
def marker? : List Char → Option Marker
  | '-' :: '-' :: '-' :: rest => if atGap rest then some .start else none
  | '.' :: '.' :: '.' :: rest => if atGap rest then some .finish else none
  | _ => none

/-! ## Tokens -/

/-- The two kinds of flow collections, by their brackets. -/
inductive Bracket where
  /-- Square brackets enclose a sequence. -/
  | square
  /-- Curly brackets enclose a mapping. -/
  | curly
deriving DecidableEq, Inhabited

inductive ScalarStyle where
  | plain
  | singleQuoted
  | doubleQuoted
deriving DecidableEq, Inhabited

inductive TokenKind where
  /-- The marker that a document starts with. -/
  | documentStart
  | lineBreak
  | space
  | comment
  /-- The mark of an item of a sequence. -/
  | dash
  /-- The mark of the value of an entry. -/
  | colon
  | comma
  | opening (bracket : Bracket)
  | closing (bracket : Bracket)
  | scalar (style : ScalarStyle)
deriving DecidableEq, Inhabited

structure Token where
  kind : TokenKind
  text : List Char
  /-- Where it starts, in 16-bit units. -/
  offset : Nat
  /-- How far its line is indented in front of it. -/
  indent : Nat
deriving DecidableEq, Inhabited

namespace Token

def width (t : Token) : Nat := Text.units16 t.text

/-- Where a token ends. -/
def stop (t : Token) : Nat := t.offset + t.width

/-- Blanks, line breaks and comments carry no content. -/
def isFiller (t : Token) : Bool :=
  match t.kind with
  | .space | .lineBreak | .comment => true
  | _ => false

end Token

/-- Whether there is a token of a kind among some. -/
def holds (tokens : List Token) (kind : TokenKind) : Bool := tokens.any (fun t => t.kind == kind)

end SyntaxForest.Yaml
