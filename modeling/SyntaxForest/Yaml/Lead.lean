import SyntaxForest.Yaml.Layout
/-!
# What stands in front of content

Between the parts of a layout there are blanks, line breaks and comments, at most
one mark, and inside brackets at most one comma. `Lead.read?` checks them: a
comment is set off by a blank, and no tab indents a line.
-/

namespace SyntaxForest.Yaml

/-- The tokens in front of some content, summed up. -/
structure Lead where
  mark : Option Token
  hasComma : Bool
  hasBreak : Bool
  hasComment : Bool
  /-- Where they end. -/
  stop : Nat
deriving Inhabited

namespace Lead

/-- What tokens are read in front of, and where. -/
structure Setting where
  /-- The kind of the mark there may be. -/
  mark : Option TokenKind
  inFlow : Bool
  /-- The content behind the tokens. -/
  next : Option Layout
  /-- Where the tokens start. -/
  offset : Nat
  /-- The indentation of the layout around. -/
  indent : Nat
  /-- Whether they start on a line of their own. -/
  atLineStart : Bool

/-- Whether tabs are looked for. Inside brackets and in front of a flow collection
that is the whole content of a document, a line may start with tabs. -/
def Setting.seeksTabs (s : Setting) : Bool :=
  !s.inFlow && (s.mark != some .documentStart || !s.next.any Layout.isFlow)

/-- How far the reading has come. -/
structure Reading where
  lead : Lead
  /-- Whether the line holds no content so far. -/
  atLineStart : Bool
  /-- Whether a comment may start. -/
  spaced : Bool
  /-- A tab that was the last token. -/
  tab : Option Token

def Reading.read (s : Setting) (p : Reading) (t : Token) : Option Reading :=
  if p.tab.isSome && p.atLineStart && t.kind != .comment && t.kind != .lineBreak then none
  else
    let p := { p with tab := none, lead := { p.lead with stop := t.stop } }
    match t.kind with
    | .space =>
      let tab := if s.seeksTabs && t.text.contains '\t' then some t else none
      some { p with spaced := true, tab }
    | .comment =>
      if p.spaced then
        some { p with atLineStart := false, lead := { p.lead with hasComment := true } }
      else none
    | .lineBreak =>
      some { p with atLineStart := true, spaced := true, lead := { p.lead with hasBreak := true } }
    | .comma =>
      if s.inFlow && !p.lead.hasComma then
        some { p with
          atLineStart := false, spaced := false, lead := { p.lead with hasComma := true } }
      else none
    | kind =>
      if s.mark == some kind && p.lead.mark.isNone then
        some { p with
          atLineStart := kind == .dash, spaced := false, lead := { p.lead with mark := some t } }
      else none

/-- Read the tokens in front of some content. -/
def read? (s : Setting) (tokens : List Token) : Option Lead := do
  let lead : Lead :=
    { mark := none, hasComma := false, hasBreak := false, hasComment := false, stop := s.offset }
  let begin : Reading :=
    { lead, atLineStart := s.atLineStart, spaced := s.atLineStart, tab := none }
  let p ← tokens.foldlM (Reading.read s) begin
  match p.tab with
  | some tab =>
    if (p.atLineStart && decide (tab.indent ≤ s.indent)) || s.next.any Layout.isBlock then none
    else return p.lead
  | none => return p.lead

/-- Read the tokens in front of some content inside brackets. -/
def readInFlow? (mark : Option TokenKind) (offset : Nat) (tokens : List Token) : Option Lead :=
  read? { mark, inFlow := true, next := none, offset, indent := 0, atLineStart := false } tokens

/-- Where empty content behind some tokens ends: behind the last mark and the blanks
that follow it, or behind a comment. -/
def emptyStop (lead : Lead) (tokens : List Token) : Nat :=
  if lead.hasComment then lead.stop
  else
    let fillers := (tokens.reverse.takeWhile Token.isFiller).reverse
    let below := fillers.dropWhile (fun t => t.kind == .space)
    lead.stop - below.foldl (fun width t => width + t.width) 0

end Lead

/-- Where the fillers behind some content end. A comment is set off by a blank. -/
def afterStop? (stop : Nat) (spaced : Bool) : List Token → Option Nat
  | [] => some stop
  | t :: rest =>
    match t.kind with
    | .space | .lineBreak => afterStop? t.stop true rest
    | .comment => if spaced then afterStop? t.stop spaced rest else none
    | _ => none

/-! ## Keys over several lines -/

mutual

/-- Whether a layout goes on over several lines; block collections always do. -/
def Layout.isMultiline : Layout → Bool
  | .scalar t after => t.text.contains '\n' || holds after .lineBreak
  | .flow _ _ _ entries _ _ => anyMultiline entries
  | .mapping .. | .sequence .. => true

def anyMultiline : List (Entry Layout) → Bool
  | [] => false
  | ⟨start, key, mark, value⟩ :: older =>
    holds start .lineBreak || holds (mark.getD []) .lineBreak || optionMultiline key
      || optionMultiline value || anyMultiline older

def optionMultiline : Option Layout → Bool
  | none => false
  | some l => l.isMultiline

end

end SyntaxForest.Yaml
