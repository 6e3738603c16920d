import SyntaxForest.Forest.Clone
import SyntaxForest.Session.Make
import SyntaxForest.Visitor.Transform
/-!
# Visitors by recipes

The methods of a session's visitor follow recipes. A recipe may visit the nodes
below its node, make new nodes, and take turns between other recipes.
-/

namespace SyntaxForest.Session

/-- The text of a value; nodes are written in their debug form. -/
def display (v : Value) : Run String := do
  let f ← Act.forest
  return v.display f.nodeText

/-- Visit what a field holds; what is no node stays as it is. -/
def visitField (visit : Visit Session) (v : Value) : Run Value :=
  match v with
  | .node id => visit id
  | .list items => do
    return .list (← items.mapM (fun v => match v with
      | .node id => visit id
      | v => pure v))
  | v => pure v

def visitChildren (visit : Visit Session) (id : NodeId) : Run (List Value) := do
  let f ← Act.forest
  (f.children id).mapM visit

def TextPart.eval (visit : Visit Session) (id : NodeId) : TextPart → Run String
  | .literal s => pure s
  | .field name => do
    let f ← Act.forest
    display (f.field id name)
  | .visit name => do
    let f ← Act.forest
    display (← visitField visit (f.field id name))
  | .each separator => do
    let texts ← (← visitChildren visit id).mapM display
    return String.intercalate separator texts

/-- The number a value counts as: null counts as zero, and a truth value as zero or one. -/
def countsAs : Value → Number
  | .null => .zero
  | .scalar (.num n) => n
  | .scalar (.bool b) => if b then .ofNat 1 else .zero
  | _ => .nan

/-- The node once more, with some fields changed. -/
def remake (id : NodeId) (changes : List (String × Value)) (pool : Option PoolId) : Run NodeId := do
  let f ← Act.forest
  match f.node? id with
  | none => return id
  | some n =>
    let fields := changes.foldl (fun acc p => Fields.put p.1 p.2 acc) n.fields
    match n.kind? with
    | some kind => makeNode kind n.span fields pool
    | none => do
      let name ← display (Fields.read fields "name")
      Act.onForest (Forest.createGraph name n.span)

/-- Take the next turn of the recipe at a position; counting starts at 0. -/
def nextTurn (key : Nat × String × List Nat) : Run Nat := do
  let s ← own
  let turn := ((s.turns.find? (·.1 == key)).map (·.2)).getD 0
  change (fun s => { s with turns := (key, turn + 1) :: s.turns.filter (·.1 != key) })
  return turn

mutual

/-- Follow a recipe. `number` and `method` tell whose recipe it is, `path` where in
the method it stands. -/
def Recipe.follow (number : Nat) (method : String) (visit : Visit Session) (id : NodeId)
    (path : List Nat) : Recipe → Run Value
  | .value t => t.eval
  | .field name => do
    let f ← Act.forest
    return f.field id name
  | .kindName => do
    let f ← Act.forest
    return .text (f.kindName id)
  | .text parts => do
    let texts ← parts.mapM (fun part => part.eval visit id)
    return .text (String.join texts)
  | .sum => do
    let answers ← visitChildren visit id
    return .num (answers.foldl (fun acc v => acc.add (countsAs v)) .zero)
  | .product => do
    let answers ← visitChildren visit id
    return .num (answers.foldl (fun acc v => acc.mul (countsAs v)) (.ofNat 1))
  | .fail message => Act.hostFault message
  | .same => return .node id
  | .clone => do return .node (← Act.onForest (Forest.clone id))
  | .transform => do return .node (← transformChildren visit id)
  | .replace name => do return .node (← node name)
  | .changed fields pool => do
    let changes ← evalEntries fields
    return .node (← remake id changes (← poolNamed pool))
  | .into kindName pool => do
    let kind ← kind kindName
    let pool ← poolNamed pool
    let f ← Act.forest
    let fields ← kind.table.mapM (fun e => do
      return (e.name, ← visitField visit (f.field id e.name)))
    return .node (← makeNode kind (f.span id) fields pool)
  | .turns recipes => do
    let turn ← nextTurn (number, method, path)
    followTurn number method visit id path (min turn (recipes.length - 1)) recipes
  | .uncallable => pure .absent

/-- Follow one of several recipes. -/
def followTurn (number : Nat) (method : String) (visit : Visit Session) (id : NodeId)
    (path : List Nat) (turn : Nat) : List Recipe → Run Value
  | [] => pure .absent
  | r :: rest =>
    match turn with
    | 0 => r.follow number method visit id (rest.length :: path)
    | turn + 1 => followTurn number method visit id path turn rest

end

/-- Whether a recipe makes a method that can be called. -/
def Recipe.isCallable : Recipe → Bool
  | .uncallable => false
  | _ => true

def OpenVisitor.visitor (v : OpenVisitor) : Visitor Session where
  method? name := do
    let (_, recipe) ← v.recipe.methods.reverse.find? (fun m => visitMethodName m.1 == name)
    if recipe.isCallable then
      some (fun visit id => recipe.follow v.number name visit id [])
    else none
  fallback :=
    match v.recipe.fallback, v.recipe.base with
    | some recipe, _ => fun visit id => recipe.follow v.number "fallback" visit id []
    | none, .transformer => Visitor.keep
    | none, _ => Visitor.refuse

end SyntaxForest.Session
