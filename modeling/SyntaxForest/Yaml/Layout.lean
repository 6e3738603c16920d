import SyntaxForest.Yaml.Cursor
/-!
# Layout of a document

How the tokens of a document are nested. A layout keeps every token, also those
between its parts, because whether they may stand where they do is only decided
when the whole is known. It grows while tokens come in, so the entries of a
collection are kept latest first.
-/

namespace SyntaxForest.Yaml

/-- A part of a collection. The items of a sequence have no key and no mark. -/
structure Entry (α : Type) where
  /-- The tokens in front of it; for an item these hold its dash. -/
  start : List Token
  key : Option α
  /-- The tokens behind the key, up to the value. There are none before the key
  or the colon has been met. -/
  mark : Option (List Token)
  value : Option α
deriving Inhabited

namespace Entry

variable {α : Type}

def ofStart (start : List Token) : Entry α := { start, key := none, mark := none, value := none }

def ofKey (start : List Token) (key : α) : Entry α :=
  { start, key := some key, mark := some [], value := none }

def ofColon (start : List Token) (colon : Token) : Entry α :=
  { start, key := none, mark := some [colon], value := none }

/-- Add a token to the last part there is before the value. -/
def push (e : Entry α) (t : Token) : Entry α :=
  match e.mark with
  | some mark => { e with mark := some (mark ++ [t]) }
  | none => { e with start := e.start ++ [t] }

def hasColon (e : Entry α) : Bool := (e.mark.getD []).any (fun t => t.kind == .colon)

/-- Whether there is nothing but tokens in front. -/
def isLoose (e : Entry α) : Bool := e.mark.isNone && e.value.isNone

end Entry

inductive Layout where
  /-- A scalar, and the fillers behind it. -/
  | scalar (token : Token) (after : List Token)
  /-- A block mapping. -/
  | mapping (offset indent : Nat) (entries : List (Entry Layout))
  /-- A block sequence. -/
  | sequence (offset indent : Nat) (items : List (Entry Layout))
  /-- A flow collection, its closing bracket, and the fillers behind that. -/
  | flow (bracket : Bracket) (offset indent : Nat) (entries : List (Entry Layout))
      (close : Option Token) (after : List Token)
deriving Inhabited

namespace Layout

def indent : Layout → Nat
  | scalar token _ => token.indent
  | mapping _ indent _ | sequence _ indent _ | flow _ _ indent _ _ _ => indent

/-- A block mapping or sequence. -/
def isBlock : Layout → Bool
  | mapping .. | sequence .. => true
  | _ => false

def isMapping : Layout → Bool
  | mapping .. => true
  | _ => false

def isFlow : Layout → Bool
  | flow .. => true
  | _ => false

/-- The fillers behind a layout, if it can have some of its own. -/
def after? : Layout → Option (List Token)
  | scalar _ after | flow _ _ _ _ _ after => some after
  | _ => none

def addAfter (more : List Token) : Layout → Layout
  | scalar token after => scalar token (after ++ more)
  | flow bracket offset indent entries close after =>
    flow bracket offset indent entries close (after ++ more)
  | l => l

def ofToken? (t : Token) : Option Layout :=
  match t.kind with
  | .scalar _ => some (scalar t [])
  | .opening bracket => some (flow bracket t.offset t.indent [] none [])
  | .dash => some (sequence t.offset t.indent [.ofStart [t]])
  | .colon => some (mapping t.offset t.indent [.ofColon [] t])
  | _ => none

/-- The layout of a block mapping whose first key is already there. -/
def ofKey (offset indent : Nat) (key : Layout) (mark : List Token) : Layout :=
  mapping offset indent [{ start := [], key := some key, mark := some mark, value := none }]

end Layout

/-! ## Completion -/

def Entry.addAfterValue (more : List Token) (e : Entry Layout) : Entry Layout :=
  { e with value := e.value.map (Layout.addAfter more) }

/-- An item of a flow sequence is taken for a key until no colon comes. -/
def Entry.asItem (e : Entry Layout) : Entry Layout :=
  match e.mark, e.key, e.value with
  | some mark, some key, none =>
    if e.hasColon then e
    else { start := e.start, key := none, mark := none, value := some (key.addAfter mark) }
  | _, _, _ => e

namespace Layout

/-- A layout that nothing is added to any more. -/
def complete : Layout → Layout
  | flow .square offset indent entries close after =>
    flow .square offset indent (entries.map Entry.asItem) close after
  | l => l

/-- Split off the tokens behind the last entry of a block collection, unless a
comment among them is indented like an entry. -/
def splitLoose (indent : Nat) : List (Entry Layout) → List (Entry Layout) × List Token
  | [] => ([], [])
  | e :: older =>
    let apart := indent == 0 || e.start.all (fun t => t.kind != .comment || t.indent < indent)
    if e.isLoose && e.start.all Token.isFiller && apart then (older, e.start) else (e :: older, [])

/-- A layout without the tokens that only follow its last entry, and these tokens. -/
def shed : Layout → Layout × List Token
  | mapping offset indent entries =>
    let (entries, loose) := splitLoose indent entries
    (mapping offset indent entries, loose)
  | sequence offset indent items =>
    let (items, loose) := splitLoose indent items
    (sequence offset indent items, loose)
  | l => (l, [])

end Layout

end SyntaxForest.Yaml
