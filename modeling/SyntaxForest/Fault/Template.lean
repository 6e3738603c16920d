import SyntaxForest.Value.Text
/-!
# Message templates

A template is literal text with placeholders: a name between braces. A brace
that opens right before another opening brace is literal. `Template.pieces?`
splits a template, and fails when a placeholder is never closed; such a template
renders as itself. Otherwise each placeholder is replaced by the text of the
value under its name, which is never looked at again.
-/

namespace SyntaxForest.Template

def openBrace : Char := '\x7b'
def closeBrace : Char := '\x7d'

/-- A part of a template. -/
inductive Piece where
  | literal (c : Char)
  | placeholder (name : List Char)
deriving DecidableEq

/-- Read literals (`none`) or the rest of a placeholder whose name so far, last
character first, is given. -/
def pieces? : Option (List Char) → List Char → Option (List Piece)
  | none, [] => some []
  | some _, [] => none
  | none, c :: rest =>
    if c = openBrace ∧ rest.head? ≠ some openBrace then pieces? (some []) rest
    else (pieces? none rest).map (.literal c :: ·)
  | some name, c :: rest =>
    if c = closeBrace then (pieces? none rest).map (.placeholder name.reverse :: ·)
    else pieces? (some (c :: name)) rest

/-- The text of one piece, where `valueOf` gives the text under a name. -/
def Piece.text (valueOf : String → String) : Piece → List Char
  | .literal c => [c]
  | .placeholder name => (valueOf (String.ofList name)).toList

/-- Replace the placeholders of a template. -/
def fill (valueOf : String → String) (template : String) : String :=
  match pieces? none template.toList with
  | none => template
  | some parts => String.ofList (parts.flatMap (Piece.text valueOf))

/-- The text a placeholder stands for: empty when nothing is there. `nodeText` writes nodes,
`elsewhere` is what the context has under a name that it holds no value for. -/
def placeholderText (nodeText : NodeId → String) (elsewhere : String → Value) (context : Fields)
    (name : String) : String :=
  match Fields.readOver elsewhere context name with
  | .absent => ""
  | v => v.display nodeText

/-- Fill a template from named values. -/
def renderWith (nodeText : NodeId → String) (elsewhere : String → Value) (template : String)
    (context : Fields) : String :=
  fill (placeholderText nodeText elsewhere context) template

/-- Fill a template from a record of named values that hold no nodes. -/
def render (template : String) (context : Fields) : String :=
  renderWith (fun _ => "") Fields.inherited template context

end SyntaxForest.Template
