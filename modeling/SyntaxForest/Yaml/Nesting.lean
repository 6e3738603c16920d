import SyntaxForest.Yaml.Layout
/-!
# From tokens to a layout

The layouts that are open at some place in a document are nested in each other. A
token is offered to the innermost one first, which takes it, starts another layout
with it, or is found to be complete without it. A complete layout takes its place
in the layout around it, to which the token is offered next.
-/

namespace SyntaxForest.Yaml

/-- What a layout does with a token it is offered. -/
inductive Reaction where
  /-- It takes the token. -/
  | takes (now : Layout)
  /-- It has a layout inside it start with the token. -/
  | opens (now inner : Layout)
  /-- It takes the token, and is complete with it. -/
  | ends (now : Layout)
  /-- It was complete before the token. -/
  | yields
  /-- The token cannot stand there. -/
  | refuses
deriving Inhabited

namespace Layout

/-! ## Fillers between entries -/

/-- Take a line break. Behind a value it starts the tokens in front of the next
entry, unless it ends a comment that belongs to the value. -/
def takeBreak (t : Token) : List (Entry Layout) → List (Entry Layout)
  | [] => [.ofStart [t]]
  | e :: older =>
    match e.value with
    | none => e.push t :: older
    | some value =>
      let commented := ((value.after?.getD []).getLast?).any (fun last => last.kind == .comment)
      if commented then e.addAfterValue [t] :: older else .ofStart [t] :: e :: older

/-- Whether a comment belongs to the value of the entry before it: it is indented
more than the entries, and only blank lines are in between. -/
def isTrailing (t : Token) (indent : Nat) (e previous : Entry Layout) : Bool :=
  t.kind == .comment && decide (indent < t.indent) && e.mark.isNone
    && e.start.all (fun s => s.kind == .lineBreak || s.kind == .space)
    && previous.value.any (fun value => value.after?.isSome)

/-- Take blanks or a comment. -/
def takeFiller (t : Token) (indent : Nat) (entries : List (Entry Layout)) : List (Entry Layout) :=
  match entries with
  | [] => [.ofStart [t]]
  | e :: older =>
    if e.value.isSome then .ofStart [t] :: e :: older
    else match older with
      | previous :: oldest =>
        if isTrailing t indent e previous then previous.addAfterValue (e.start ++ [t]) :: oldest
        else e.push t :: older
      | [] => [e.push t]

/-! ## Scalars -/

/-- A scalar turns into the key of a block mapping when a colon follows. -/
def offerScalar (t token : Token) (after : List Token) (onKeyLine : Bool) : Reaction × Bool :=
  match t.kind with
  | .colon => (.takes (ofKey token.offset token.indent (scalar token []) (after ++ [t])), true)
  | .comma | .closing _ => (.yields, onKeyLine)
  | .lineBreak => (.ends (scalar token (after ++ [t])), false)
  | .space | .comment => (.takes (scalar token (after ++ [t])), onKeyLine)
  | _ => (.refuses, onKeyLine)

/-! ## Block collections -/

/-- The positions in a mark of the line breaks at its end, which only blanks and
comments that are not indented more than the entries may follow. -/
def closingBreaks (indent : Nat) (mark : List Token) : List Nat :=
  mark.zipIdx.foldl (fun breaks (t, i) =>
    match t.kind with
    | .lineBreak => breaks ++ [i]
    | .space => breaks
    | .comment => if indent < t.indent then [] else breaks
    | _ => []) []

/-- Split an entry without a value from the blank lines and comments below it,
which belong to the next entry. -/
def splitBelow (indent : Nat) (e : Entry Layout) : Entry Layout × List Token :=
  match e.mark with
  | none => (e, [])
  | some mark =>
    match (closingBreaks indent mark)[1]? with
    | some i => ({ e with mark := some (mark.take i) }, mark.drop i)
    | none => (e, [])

/-- The entries of a block mapping take content that is not indented less than
they are. Content in their column, on a line without a key so far, starts the
next entry. -/
def offerEntries (t : Token) (offset indent : Nat) (e : Entry Layout) (older : List (Entry Layout))
    (onKeyLine : Bool) : Reaction × Bool :=
  let inColumn := !onKeyLine && t.indent == indent
  let isNext := inColumn && e.mark.isSome && t.kind != .dash
  let (e, start) := if isNext && e.value.isNone then splitBelow indent e else (e, [])
  let mapped (entries : List (Entry Layout)) : Layout := mapping offset indent entries
  match t.kind with
  | .colon =>
    if e.mark.isNone then (.takes (mapped ({ e with mark := some [t] } :: older)), true)
    else if e.value.isSome || isNext then (.takes (mapped (.ofColon start t :: e :: older)), true)
    else if e.hasColon then
      (.opens (mapped (e :: older)) (mapping t.offset t.indent [.ofColon [] t]), true)
    else (.takes (mapped (e.push t :: older)), true)
  | .scalar _ =>
    if e.value.isSome || isNext then
      (.takes (mapped (.ofKey start (scalar t []) :: e :: older)), true)
    else if e.mark.isSome then (.opens (mapped (e :: older)) (scalar t []), onKeyLine)
    else (.takes (mapped (.ofKey e.start (scalar t []) :: older)), true)
  | .opening bracket =>
    let entries := if inColumn then .ofStart start :: e :: older else e :: older
    (.opens (mapped entries) (flow bracket t.offset t.indent [] none []), onKeyLine)
  | .dash =>
    if e.value.isNone && (e.mark.getD []).any (fun m => m.kind == .lineBreak) then
      (.opens (mapped (e :: older)) (sequence t.offset t.indent [.ofStart [t]]), onKeyLine)
    else (.refuses, onKeyLine)
  | _ => (.yields, onKeyLine)

/-- A block mapping takes what is not indented less than its entries. -/
def offerMapping (t : Token) (offset indent : Nat) (entries : List (Entry Layout))
    (onKeyLine : Bool) : Reaction × Bool :=
  match t.kind, entries with
  | .lineBreak, entries => (.takes (mapping offset indent (takeBreak t entries)), false)
  | .space, entries | .comment, entries =>
    (.takes (mapping offset indent (takeFiller t indent entries)), onKeyLine)
  | _, e :: older =>
    if indent ≤ t.indent then offerEntries t offset indent e older onKeyLine
    else (.yields, onKeyLine)
  | _, [] => (.refuses, onKeyLine)

/-- A block sequence takes dashes in its column, and what is indented more. -/
def offerSequence (t : Token) (offset indent : Nat) (items : List (Entry Layout))
    (onKeyLine : Bool) : Reaction × Bool :=
  let listed (items : List (Entry Layout)) : Layout := sequence offset indent items
  match t.kind, items with
  | .lineBreak, items => (.takes (listed (takeBreak t items)), onKeyLine)
  | .space, items | .comment, items => (.takes (listed (takeFiller t indent items)), onKeyLine)
  | kind, item :: older =>
    if kind = .dash ∧ t.indent = indent then
      if item.value.isSome || item.start.any (fun s => s.kind == .dash) then
        (.takes (listed (.ofStart [t] :: item :: older)), onKeyLine)
      else (.takes (listed (item.push t :: older)), onKeyLine)
    else if indent < t.indent then
      match ofToken? t with
      | some inner => (.opens (listed (item :: older)) inner, onKeyLine || kind == .colon)
      | none => (.yields, onKeyLine)
    else (.yields, onKeyLine)
  | _, [] => (.refuses, onKeyLine)

/-! ## Flow collections -/

/-- A flow collection before its closing bracket. -/
def offerOpenFlow (t : Token) (bracket : Bracket) (offset indent : Nat)
    (entries : List (Entry Layout)) : Reaction :=
  let grown (entries : List (Entry Layout)) : Layout := flow bracket offset indent entries none []
  let settled := entries.head?.all (fun e => e.value.isSome)
  match t.kind, entries with
  | .comma, e :: older =>
    .takes (grown (if e.mark.isSome then .ofStart [t] :: e :: older else e.push t :: older))
  | .colon, e :: older =>
    if settled then .takes (grown (.ofColon [] t :: e :: older))
    else if e.mark.isSome then .takes (grown (e.push t :: older))
    else .takes (grown (.ofColon e.start t :: older))
  | .scalar _, e :: older =>
    if settled then .takes (grown (.ofKey [] (scalar t []) :: e :: older))
    else if e.mark.isSome then .opens (grown (e :: older)) (scalar t [])
    else .takes (grown (.ofKey e.start (scalar t []) :: older))
  | .space, e :: older | .comment, e :: older | .lineBreak, e :: older =>
    .takes (grown (if settled then .ofStart [t] :: e :: older else e.push t :: older))
  | .comma, [] | .space, [] | .comment, [] | .lineBreak, [] => .takes (grown [.ofStart [t]])
  | .colon, [] => .takes (grown [.ofColon [] t])
  | .scalar _, [] => .takes (grown [.ofKey [] (scalar t [])])
  | .opening inner, entries => .opens (grown entries) (flow inner t.offset t.indent [] none [])
  | .closing kind, entries =>
    if kind = bracket then .takes (flow bracket offset indent entries (some t) []) else .refuses
  | _, _ => .refuses

/-- Whether a closed flow collection leaves a token to the layout around it: the
colon or the line break behind a key of a block mapping. -/
def isLeftTo (parent : Option Layout) (t : Token) (indent : Nat) : Bool :=
  match parent with
  | some (mapping _ outer (e :: _)) =>
    (t.kind == .colon && outer == indent) || (t.kind == .lineBreak && e.mark.isNone)
  | some (flow ..) => t.kind == .colon
  | _ => false

/-- A flow collection behind its closing bracket. It turns into the first key of a
block mapping when a colon follows. -/
def offerClosedFlow (t : Token) (parent : Option Layout) (bracket : Bracket) (offset indent : Nat)
    (entries : List (Entry Layout)) (close : Token) (after : List Token) (onKeyLine : Bool) :
    Reaction × Bool :=
  let closed (after : List Token) : Layout := flow bracket offset indent entries (some close) after
  if isLeftTo parent t indent then (.yields, onKeyLine)
  else match t.kind with
    | .colon => (.takes (ofKey offset indent (complete (closed [])) (after ++ [t])), true)
    | .comma | .closing _ => (.yields, onKeyLine)
    | .lineBreak => (.ends (closed (after ++ [t])), false)
    | .space | .comment => (.takes (closed (after ++ [t])), onKeyLine)
    | _ => (.refuses, onKeyLine)

def offer (t : Token) (parent : Option Layout) (onKeyLine : Bool) : Layout → Reaction × Bool
  | scalar token after => offerScalar t token after onKeyLine
  | mapping offset indent entries => offerMapping t offset indent entries onKeyLine
  | sequence offset indent items => offerSequence t offset indent items onKeyLine
  | flow bracket offset indent entries none _ =>
    (offerOpenFlow t bracket offset indent entries, onKeyLine)
  | flow bracket offset indent entries (some close) after =>
    offerClosedFlow t parent bracket offset indent entries close after onKeyLine

/-! ## Taking its place -/

/-- Put a complete layout into the one around it: as the value of the last entry if
that waits for one, and otherwise as the key of an entry. -/
def settle (inner : Layout) (outer : Layout) (onKeyLine : Bool) : Layout × Bool :=
  let inner := inner.complete
  match outer with
  | mapping offset indent (e :: older) =>
    if e.value.isSome then (mapping offset indent (.ofKey [] inner :: e :: older), true)
    else if e.mark.isNone then (mapping offset indent (.ofKey e.start inner :: older), true)
    else
      let (inner, loose) := inner.shed
      let entries := { e with value := some inner } :: older
      let entries := if loose.isEmpty then entries else .ofStart loose :: entries
      (mapping offset indent entries, onKeyLine)
  | sequence offset indent (item :: older) =>
    let (inner, loose) := inner.shed
    let items :=
      if item.value.isSome then { Entry.ofStart [] with value := some inner } :: item :: older
      else { item with value := some inner } :: older
    let items := if loose.isEmpty then items else .ofStart loose :: items
    (sequence offset indent items, onKeyLine)
  | flow bracket offset indent (e :: older) close after =>
    let entries :=
      if e.value.isSome then .ofKey [] inner :: e :: older
      else if e.mark.isSome then { e with value := some inner } :: older
      else .ofKey e.start inner :: older
    (flow bracket offset indent entries close after, onKeyLine)
  | flow bracket offset indent [] close after =>
    (flow bracket offset indent [.ofKey [] inner] close after, onKeyLine)
  | outer => (outer, onKeyLine)

end Layout

/-! ## The open layouts -/

/-- The open layouts of a document. -/
structure Nesting where
  /-- The tokens in front of the content of the document. -/
  start : List Token
  /-- The open layouts, innermost first. -/
  stack : List Layout
  /-- The content of the document, once it is complete. -/
  root : Option Layout
  /-- Whether the line holds a key, so that no other entry of the same mapping may
  start on it. -/
  onKeyLine : Bool
deriving Inhabited

namespace Nesting

def empty : Nesting := { start := [], stack := [], root := none, onKeyLine := false }

/-- Offer a token to an open layout, and to those around it as long as layouts
turn out to be complete. -/
def offer (t : Token) (n : Nesting) : (outer : List Layout) → Layout → (onKeyLine : Bool) →
    Option Nesting
  | outer, inner, onKeyLine =>
    match inner.offer t outer.head? onKeyLine, outer with
    | (.takes inner, onKeyLine), outer => some { n with stack := inner :: outer, onKeyLine }
    | (.opens now inner, onKeyLine), outer =>
      some { n with stack := inner :: now :: outer, onKeyLine }
    | (.ends inner, onKeyLine), [] =>
      some { n with stack := [], root := some inner.complete, onKeyLine }
    | (.ends inner, onKeyLine), next :: outer =>
      let (next, onKeyLine) := inner.settle next onKeyLine
      some { n with stack := next :: outer, onKeyLine }
    | (.yields, onKeyLine), next :: outer =>
      let (next, onKeyLine) := inner.settle next onKeyLine
      offer t n outer next onKeyLine
    | (.yields, _), [] => none
    | (.refuses, _), _ => none

/-- Take the next token. Behind the content of a document there are only fillers. -/
def take (n : Nesting) (t : Token) : Option Nesting :=
  match n.stack, n.root with
  | inner :: outer, _ => offer t n outer inner n.onKeyLine
  | [], some _ => if t.isFiller then some n else none
  | [], none =>
    if t.isFiller || t.kind == .documentStart then some { n with start := n.start ++ [t] }
    else (Layout.ofToken? t).map (fun inner =>
      { n with stack := [inner], onKeyLine := n.onKeyLine || t.kind == .colon })

/-- Complete all layouts that are still open. -/
def close : (outer : List Layout) → Layout → (onKeyLine : Bool) → Layout
  | [], inner, _ => inner.complete.shed.1
  | next :: outer, inner, onKeyLine =>
    let (next, onKeyLine) := inner.settle next onKeyLine
    close outer next onKeyLine

/-- The content of a document, with the tokens in front of it. -/
def finish (n : Nesting) : List Token × Option Layout :=
  match n.stack with
  | [] => (n.start, n.root)
  | inner :: outer => (n.start, some (close outer inner n.onKeyLine))

end Nesting

/-- The layout of the content of a document, if there is content, and the tokens in
front of it. -/
def Layout.ofTokens? (tokens : List Token) : Option (List Token × Option Layout) :=
  (tokens.foldlM Nesting.take Nesting.empty).map Nesting.finish

end SyntaxForest.Yaml
