import SyntaxForest.Session.State
/-!
# Terms and factories at work

Terms are worked out left to right. A node made inside a term is stored as soon
as it is finished, whatever becomes of the rest.
-/

namespace SyntaxForest.Session

/-- Make a node of a kind: through the kind's pool category, as a wrapped record,
or fresh. -/
def makeNode (kind : Kind) (span : Span) (fields : Fields) (pool : Option PoolId) : Run NodeId :=
  match kind.strategy with
  | .value => do
    let record ← Act.onForest (Forest.createRecord kind span fields)
    Act.onForest (Forest.wrap kind record)
  | _ => World.createNode watch pool kind span fields

mutual

/-- Work out a term. -/
def Term.eval : Term → Run Value
  | .value v => pure v
  | .stored name => do return .node (← node name)
  | .make b => do return .node (← b.build)
  | .list items => do return .list (← evalItems items)
  | .object bare entries => do return .object bare (Fields.ofPairs (← evalEntries entries))

def evalItems : List Term → Run (List Value)
  | [] => pure []
  | t :: rest => do
    let v ← t.eval
    let vs ← evalItems rest
    return v :: vs

def evalEntries : List (String × Term) → Run (List (String × Value))
  | [] => pure []
  | (name, t) :: rest => do
    let v ← t.eval
    let vs ← evalEntries rest
    return (name, v) :: vs

def Blueprint.build : Blueprint → Run NodeId
  | .ofKind kindName span entries pool storeAs => do
    let kind ← kind kindName
    let pool ← poolNamed pool
    let fields ← evalEntries entries
    let id ← makeNode kind span (Fields.ofPairs fields) pool
    storeNodeAs storeAs id
    return id
  | .graph name span storeAs => do
    let id ← Act.onForest (Forest.createGraph name span)
    storeNodeAs storeAs id
    return id

end

mutual

def Factory.run (asking : PoolId) : Factory → Run NodeId
  | .stored name => node name
  | .make b => b.build
  | .fail message => Act.hostFault message
  | .request r pool => do
    match ← poolNamed pool with
    | some p => r.ask p
    | none => r.ask asking
  | .clear pool next => do
    match ← poolNamed pool with
    | some p => World.clearPool watch p
    | none => World.clearPool watch asking
    next.run asking
  | .attempt first other => do
    match ← (first.run asking).attempt with
    | .ok id => pure id
    | .error fault =>
      tell (.caught fault)
      other.run asking

def RequestTerm.ask (p : PoolId) : RequestTerm → Run NodeId
  | .mk categoryName value matcherTerm factory => do
    let value ← value.eval
    let matcher ← match matcherTerm with
      | some m => do pure (some (← matcher m))
      | none => pure none
    World.requestNamed watch p categoryName value matcher (factory.run p)

end

end SyntaxForest.Session
