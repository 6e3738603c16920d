import SyntaxForest.Yaml.Meaning
import SyntaxForest.Yaml.Nesting
/-!
# YAML documents

`Yaml.parse?` reads a text that holds one document, made up of block and flow
collections and of plain and quoted scalars. It reads tokens, nests them, and then
tells what they stand for; a text that is wrong at any of these stages has no value.
-/

namespace SyntaxForest.Yaml

mutual

/-- The meaning of a layout, if its parts fit together. -/
def Layout.meaning? : Layout → Option Meaning
  | .scalar t after => scalarMeaning? t after
  | .mapping offset indent entries => do
    let p ← (← parts? entries).foldlM (Contents.addEntry? indent) (.start offset)
    return objectMeaning p.items p.finalStop
  | .sequence offset indent items => do
    let p ← (← parts? items).foldlM (Contents.addItem? indent) (.start offset)
    return listMeaning p.items p.finalStop
  | .flow bracket offset _ entries close after => do
    let stop ← afterStop? (← close).stop false after
    match bracket with
    | .square =>
      let p ← (← parts? entries).foldlM Contents.addFlowItem? (.start (offset + 1))
      return listMeaning p.items stop
    | .curly =>
      let p ← (← parts? entries).foldlM Contents.addFlowEntry? (.start (offset + 1))
      return objectMeaning p.items stop

/-- The entries of a collection, in their order, with the meanings of their keys
and values. -/
def parts? : List (Entry Layout) → Option (List (Entry Part))
  | [] => some []
  | ⟨start, key, mark, value⟩ :: older => do
    let before ← parts? older
    let key ← part? key
    let value ← part? value
    return before ++ [{ start, key, mark, value }]

/-- A key or value with its meaning, if there is one. -/
def part? : Option Layout → Option (Option Part)
  | none => some none
  | some layout => (layout.meaning?).map (fun meaning => some { layout, meaning })

end

/-- The content of a document and the tokens in front of it. A block collection
starts on a line below the marker. -/
def contentMeaning? (start : List Token) (content : Option Layout) : Option Value := do
  let lead ← Lead.read?
    { mark := some .documentStart, inFlow := false, next := content, offset := 0, indent := 0
      atLineStart := true } start
  match content with
  | none => return .null
  | some layout =>
    if lead.mark.isSome && layout.isBlock && !lead.hasBreak then none
    else return (← layout.meaning?).value

/-- Read a text that holds one document; an empty one is null. -/
def parse? (text : String) : Option Value :=
  match contentStart text.toList with
  | [] => some .null
  | text => do
    let (start, content) ← Layout.ofTokens? (← tokens? text)
    contentMeaning? start content

end SyntaxForest.Yaml
