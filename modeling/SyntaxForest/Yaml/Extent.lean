import SyntaxForest.Yaml.Token
/-!
# How far scalars reach

A scalar may go on over several lines as long as each further line is indented
by at least a margin. Without a margin only a marker between documents ends it.
-/

namespace SyntaxForest.Yaml

/-- Whether a scalar may go on with the line that starts here. A blank line is
never indented too little. -/
def continues (margin : Nat) (line : List Char) : Bool :=
  if margin = 0 then (marker? line).isNone
  else
    let content := line.dropWhile (· == ' ')
    decide (margin ≤ line.length - content.length) || decide (0 < breakLength content)

/-! ## Quoted scalars -/

/-- How many characters there are up to and with the quote that closes a
single-quoted scalar. A quote inside is written twice. -/
def singleQuoteLength? : List Char → Option Nat
  | [] => none
  | '\x27' :: '\x27' :: rest => (singleQuoteLength? rest).map (· + 2)
  | c :: rest => if c = '\x27' then some 1 else (singleQuoteLength? rest).map (· + 1)

/-- How many characters there are up to and with the quote that closes a
double-quoted scalar. A quote inside stands behind a backslash. -/
def doubleQuoteLength? : List Char → Option Nat
  | [] => none
  | '\\' :: _ :: rest => (doubleQuoteLength? rest).map (· + 2)
  | c :: rest => if c = '"' then some 1 else (doubleQuoteLength? rest).map (· + 1)

/-- How many of the next characters come before a line that a scalar cannot go
on with. -/
def unbrokenLength (margin : Nat) : (limit : Nat) → List Char → Nat
  | 0, _ => 0
  | _, [] => 0
  | limit + 1, c :: rest =>
    let line := (c :: rest).drop (breakLength (c :: rest))
    if 0 < breakLength (c :: rest) && !continues margin line then 0
    else unbrokenLength margin limit rest + 1

/-- The length of a quoted scalar behind its opening quote. One that is never
closed takes the rest of the text. -/
def quotedLength (style : ScalarStyle) (margin : Nat) (body : List Char) : Nat :=
  let closing := match style with
    | .singleQuoted => singleQuoteLength? body
    | _ => doubleQuoteLength? body
  match closing with
  | some length => unbrokenLength margin length body
  | none => body.length

/-! ## Plain scalars -/

/-- Whether a plain scalar ends in front of these characters: at a colon that
marks a value, and inside brackets at a flow indicator. -/
def endsPlain (inFlow : Bool) : List Char → Bool
  | [] => true
  | ':' :: rest => atGap rest || (inFlow && atFlowIndicator rest)
  | c :: _ => inFlow && isFlowIndicator c

/-- Whether a blank or a line break in front of these characters ends a plain
scalar: what follows is a comment or, inside brackets, a flow indicator. -/
def endsBehindGap (inFlow : Bool) : List Char → Bool
  | [] => false
  | c :: _ => c == '#' || (inFlow && isFlowIndicator c)

/-- The length of a plain scalar. Of the `seen` characters before this place it
holds the first `kept`; gaps count only if content follows them. -/
def plainLengthFrom (inFlow : Bool) (margin : Nat) : (seen kept : Nat) → List Char → Nat
  | _, kept, [] => kept
  | seen, kept, '\r' :: '\n' :: rest =>
    if endsBehindGap inFlow rest || !continues margin rest then kept
    else plainLengthFrom inFlow margin (seen + 2) kept rest
  | seen, kept, c :: rest =>
    if c == '\n' then
      if endsBehindGap inFlow rest || !continues margin rest then kept
      else plainLengthFrom inFlow margin (seen + 1) kept rest
    else if isBlank c || c == '\r' then
      let kept := if c == '\r' then seen + 1 else kept
      if endsBehindGap inFlow rest then kept
      else plainLengthFrom inFlow margin (seen + 1) kept rest
    else if endsPlain inFlow (c :: rest) then kept
    else plainLengthFrom inFlow margin (seen + 1) (seen + 1) rest

def plainLength (inFlow : Bool) (margin : Nat) (text : List Char) : Nat :=
  plainLengthFrom inFlow margin 0 0 text

end SyntaxForest.Yaml
