import SyntaxForest.Value.Fields
/-!
# Text of a value

Lists are written as their items joined by commas, with nothing for an item that
is null or absent; objects as a fixed phrase, built-in functions by their name. A value has no text when it is, or
holds at any depth of lists, a bare object or one that takes over the name
`toString`; such a value is written by its type alone.
-/

namespace SyntaxForest

def Scalar.display : Scalar → String
  | .num n => n.text
  | .bool b => if b then "true" else "false"
  | .text s => s

namespace Value

/-- The text of what records inherit under a name. -/
def builtinText (name : String) : String :=
  if name = Fields.rootName then "[object Object]"
  else "function " ++ (if name = "constructor" then "Object" else name) ++ "() \x7b [native code] \x7d"

/-- Null or absent. -/
def isMissing : Value → Bool
  | .absent | .null => true
  | _ => false

mutual

/-- The text of a value, if it has one; `nodeText` writes nodes. -/
def text? (nodeText : NodeId → String) : Value → Option String
  | .absent => some "undefined"
  | .null => some "null"
  | .scalar s => some s.display
  | .node id => some (nodeText id)
  | .list items => (itemTexts? nodeText items).map (String.intercalate ",")
  | .object bare entries =>
    if bare || Fields.has entries "toString" then none else some "[object Object]"
  | .builtin name => some (builtinText name)

/-- The texts of list items, where null and absent items are empty. -/
def itemTexts? (nodeText : NodeId → String) : List Value → Option (List String)
  | [] => some []
  | item :: rest => do
    let first ← if item.isMissing then some "" else text? nodeText item
    let others ← itemTexts? nodeText rest
    return first :: others

end

def typeText : Value → String
  | .list _ => "[object Array]"
  | _ => "[object Object]"

def display (nodeText : NodeId → String) (v : Value) : String :=
  (v.text? nodeText).getD v.typeText

end Value

end SyntaxForest
