import SyntaxForest.Value.Text
import SyntaxForest.Yaml.Folding
import SyntaxForest.Yaml.Lead
import SyntaxForest.Yaml.Scalar
/-!
# What the parts of a layout stand for

The meaning of a scalar, and of a collection whose keys and values have one. They
fail where parts do not fit together: a text that is not closed, entries in
different columns, a key twice or over several lines, a colon or a comma that is
missing.
-/

namespace SyntaxForest.Yaml

structure Meaning where
  value : Value
  /-- How it is written on one line; this names an entry whose key is a collection. -/
  spelling : String
  /-- Where it ends, with the fillers behind it. -/
  stop : Nat
deriving Inhabited

namespace Meaning

def empty (stop : Nat) : Meaning := { value := .null, spelling := "", stop }

def keyName (m : Meaning) : String :=
  match m.value with
  | .null => ""
  | .scalar s => s.display
  | _ => m.spelling

/-- Whether two keys are the same. Numbers are compared as numbers; collections
are never the same. -/
def sameKey (a b : Meaning) : Bool :=
  match a.value, b.value with
  | .scalar (.num m), .scalar (.num n) => m.eqv n
  | a, b => a.same b

end Meaning

/-! ## Scalars -/

def quotedBody? (quote : Char) (text : List Char) : Option (List Char) :=
  if 2 ≤ text.length ∧ text.getLast? = some quote then some (text.drop 1).dropLast else none

/-- Characters that a plain scalar cannot start with. -/
def isReservedStart (c : Char) : Bool := "\t,%|>@\x60".toList.contains c

def scalarValue? (style : ScalarStyle) (text : List Char) : Option Value :=
  match style with
  | .plain => if text.head?.any isReservedStart then none else some (plainValue (foldLines text))
  | .singleQuoted => do
    let body ← quotedBody? '\x27' text
    return .text (String.ofList (singleQuotedText body))
  | .doubleQuoted => do
    let body ← quotedBody? '"' text
    return .text (String.ofList (← doubleQuotedText? body))

def scalarMeaning? (t : Token) (after : List Token) : Option Meaning :=
  match t.kind with
  | .scalar style => do
    let value ← scalarValue? style t.text
    let stop ← afterStop? t.stop false after
    return { value, spelling := String.ofList t.text, stop }
  | _ => none

/-! ## Parts of a collection -/

/-- A layout together with its meaning. -/
structure Part where
  layout : Layout
  meaning : Meaning
deriving Inhabited

/-- A complete entry of a mapping. -/
structure Pair where
  key : Meaning
  /-- The value, unless the key stands alone. -/
  value : Option Meaning
deriving Inhabited

namespace Pair

def spelling (p : Pair) : String :=
  match p.value with
  | none => p.key.spelling
  | some value =>
    if value.spelling = "" then p.key.spelling ++ ":" else p.key.spelling ++ ": " ++ value.spelling

def named (p : Pair) : String × Value := (p.key.keyName, (p.value.map (·.value)).getD .null)

end Pair

/-- Write parts on one line between brackets. -/
def bracketText (opening closing : String) (parts : List String) : String :=
  if parts.isEmpty then opening ++ closing
  else opening ++ " " ++ String.intercalate ", " parts ++ " " ++ closing

def listMeaning (items : List Meaning) (stop : Nat) : Meaning :=
  { value := .list (items.map (·.value))
    spelling := bracketText "[" "]" (items.map (·.spelling)), stop }

def objectMeaning (pairs : List Pair) (stop : Nat) : Meaning :=
  { value := .object false (Fields.ofPairs (pairs.map Pair.named))
    spelling := bracketText "\x7b" "\x7d" (pairs.map Pair.spelling), stop }

/-- The parts of a collection that have been read. -/
structure Contents (α : Type) where
  /-- The items or entries so far. -/
  items : List α
  /-- Where the last one ends. -/
  stop : Nat
  /-- Where tokens end that belong to none. -/
  looseStop : Option Nat
deriving Inhabited

namespace Contents

variable {α : Type}

def start (stop : Nat) : Contents α := { items := [], stop, looseStop := none }

def add (p : Contents α) (item : α) (stop : Nat) : Contents α :=
  { p with items := p.items ++ [item], stop }

/-- Where the whole ends. -/
def finalStop (p : Contents α) : Nat := p.looseStop.getD p.stop

def hasKey (p : Contents Pair) (key : Meaning) : Bool := p.items.any (fun q => q.key.sameKey key)

end Contents

/-- How far behind the start of a key its colon may stand. -/
def keyReach : Nat := 1024

/-! ## Block collections -/

/-- Read an entry of a block mapping. Its key is in the column of the mapping, on a
single line, and not there yet; a mapping inside starts on a line of its own. -/
def Contents.addEntry? (indent : Nat) (p : Contents Pair) (e : Entry Part) :
    Option (Contents Pair) := do
  let keyLayout := e.key.map (·.layout)
  let valueLayout := e.value.map (·.layout)
  let lead ← Lead.read?
    { mark := none, inFlow := false, next := keyLayout, offset := p.stop, indent
      atLineStart := true } e.start
  match e.mark with
  | none => return { p with looseStop := some lead.stop }
  | some mark =>
    let key := (e.key.map (·.meaning)).getD (.empty lead.stop)
    let valueLead ← Lead.read?
      { mark := some .colon, inFlow := false, next := valueLayout, offset := key.stop, indent
        atLineStart := e.key.isNone } mark
    let colon ← valueLead.mark
    let value := (e.value.map (·.meaning)).getD (.empty (valueLead.emptyStop mark))
    let keyFits := keyLayout.all (fun k => k.indent == indent && !k.isMultiline)
      && decide (colon.offset ≤ lead.stop + keyReach) && !p.hasKey key
    let valueFits := valueLead.hasBreak || !valueLayout.any Layout.isMapping
    if p.looseStop.isSome || !keyFits || !valueFits then none
    else return p.add { key, value := some value } value.stop

/-- Read an item of a block sequence. -/
def Contents.addItem? (indent : Nat) (p : Contents Meaning) (e : Entry Part) :
    Option (Contents Meaning) := do
  let lead ← Lead.read?
    { mark := some .dash, inFlow := false, next := e.value.map (·.layout), offset := p.stop, indent
      atLineStart := true } e.start
  match lead.mark, e.value with
  | some _, value =>
    let item := (value.map (·.meaning)).getD (.empty (lead.emptyStop e.start))
    return p.add item item.stop
  | none, none => return { p with looseStop := some lead.stop }
  | none, some _ => none

/-! ## Flow collections -/

/-- Read the tokens in front of a part of a flow collection. A comma parts it from
the part before; behind a comma there may be nothing only at the end. -/
def Contents.readFlowStart? {α : Type} (p : Contents α) (e : Entry Part) : Option Lead := do
  let lead ← Lead.readInFlow? none p.stop e.start
  let block := e.key.any (fun k => k.layout.isBlock) || e.value.any (fun v => v.layout.isBlock)
  let parted := if p.items.isEmpty then !lead.hasComma else lead.hasComma || e.isLoose
  if p.looseStop.isSome || block || !parted then none else return lead

/-- Read an item of a flow sequence. It may be a single entry, with its key on one
line up to the colon. -/
def Contents.addFlowItem? (p : Contents Meaning) (e : Entry Part) : Option (Contents Meaning) := do
  let lead ← p.readFlowStart? e
  match e.mark, e.value with
  | none, none => return { p with looseStop := some lead.stop }
  | none, some value => return p.add value.meaning value.meaning.stop
  | some mark, value =>
    let key := (e.key.map (·.meaning)).getD (.empty lead.stop)
    let valueLead ← Lead.readInFlow? (some .colon) key.stop mark
    let colon ← valueLead.mark
    let value := (value.map (·.meaning)).getD (.empty (valueLead.emptyStop mark))
    let broken := holds (mark.takeWhile (fun t => t.kind != .colon)) .lineBreak
      || e.key.any (fun k => k.layout.isMultiline)
    if broken || lead.stop + keyReach < colon.offset then none
    else return p.add (objectMeaning [{ key, value := some value }] value.stop) value.stop

/-- Read an entry of a flow mapping. Its key may stand alone. -/
def Contents.addFlowEntry? (p : Contents Pair) (e : Entry Part) : Option (Contents Pair) := do
  let lead ← p.readFlowStart? e
  match e.mark with
  | none => return { p with looseStop := some lead.stop }
  | some mark =>
    let key := (e.key.map (·.meaning)).getD (.empty lead.stop)
    let valueLead ← Lead.readInFlow? (some .colon) key.stop mark
    if p.hasKey key then none
    else match valueLead.mark, e.value with
      | some _, value =>
        let value := (value.map (·.meaning)).getD (.empty (valueLead.emptyStop mark))
        return p.add { key, value := some value } value.stop
      | none, none => return p.add { key, value := none } valueLead.stop
      | none, some _ => none

end SyntaxForest.Yaml
