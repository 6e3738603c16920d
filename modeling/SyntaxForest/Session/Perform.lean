import SyntaxForest.Forest.Equality
import SyntaxForest.Forest.Parents
import SyntaxForest.Forest.Tour
import SyntaxForest.Session.Answer
import SyntaxForest.Session.Check
import SyntaxForest.Session.Visit
/-!
# Commands at work

`Session.run` performs one command. What a command has changed before it fails
stays changed, and the session goes on.
-/

namespace SyntaxForest.Session

/-! ## Kinds -/

def declareFamily (name storeAs : String) : Run Answer := do
  let s ← own
  let family ← Act.ofExcept (AbstractKind.declare s.familyCount name)
  change (fun s =>
    { s with families := Fields.put storeAs family s.families, familyCount := s.familyCount + 1 })
  return .text family.name

def declareKind (d : Declaration) (storeAs : String) (registry : Option String)
    (rules : List CheckRule) : Run Answer := do
  let s ← own
  let (outcome, catalog) := s.catalog.declare registry d
  change (fun s => { s with catalog })
  let kind ← Act.ofExcept outcome
  change (fun s =>
    { s with
      kinds := Fields.put storeAs kind s.kinds
      rules := if rules.isEmpty then s.rules else (kind.id, rules) :: s.rules })
  return .kind kind

def registerClass (registry : Option String) (kind : String) (c : NodeClass) : Run Answer := do
  let s ← own
  let (outcome, catalog) := s.catalog.register registry kind c
  change (fun s => { s with catalog })
  Act.ofExcept outcome
  return .registration kind c

def readRegistry (registry : Option String) (lookups : List String) : Run Answer := do
  let r := (← own).catalog.registry registry
  return .registry r (lookups.map (fun name => (r.get? name).map (.registration name)))

/-! ## Nodes -/

def describe (f : Forest) (id : NodeId) : NodeQuestion → Answer
  | .text => .text (f.nodeText id)
  | .span => .span (f.span id)
  | .kindName => .text (f.kindName id)
  | .leaf => .flag (f.isLeaf id)
  | .depth => .number (f.depth id)
  | .count => .number (f.count id)
  | .children => .nodes (f.children id)
  | .parent => .node? (f.parent? id)
  | .ancestors => .nodes (f.ancestors id)
  | .siblings => .nodes (f.siblings id)
  | .display =>
    match f.displayField? id with
    | some (name, value) => .field name value
    | none => .nothing
  | .hasDisplay => .flag ((f.node? id).bind Node.kind?).isSome
  | .validatable => .flag (f.isValidatable id)
  | .validate => .nothing
  | .visitMethod => .text (visitMethodName (f.kindName id))

def answerNode (id : NodeId) (q : NodeQuestion) : Run Answer := do
  let f ← Act.forest
  if q = .validate && f.isValidatable id then return .diagnostics (← checkNode id)
  else return describe f id q

inductive WalkEnd where
  /-- Nobody wants to see more. -/
  | enough
  | failed (message : String)
deriving DecidableEq, Inhabited

/-- What is done with the nodes of a walk: each is noted. -/
abbrev Watching (α : Type) := ExceptT WalkEnd (StateM (Array Answer)) α

/-- Note what comes next, unless as many as wanted were seen; fail after `failAfter`
notes, or never if that is zero. -/
def look (wanted : Option Nat) (failAfter : Nat) (next : Answer) : Watching Unit := do
  Forest.collect .enough wanted next
  if (← get).size = failAfter then throw (.failed s!"stopped after {failAfter}")

/-- A walk from a node, each node with its distance where the order gives one. -/
def tour (f : Forest) (id : NodeId) (failAfter : Nat) : WalkOrder → Watching Unit
  | .pre => f.forPreorder (fun id => look none failAfter (.node id)) id
  | .post => f.forPostorder (fun id => look none failAfter (.node id)) id
  | .level => f.forLevels (fun id => look none failAfter (.node id)) id
  | .depth start =>
    f.forDepths (fun (d, id) => look none failAfter (.list [.number d, .node id])) start id
  | .lazily wanted => f.forPreorder (fun id => look wanted failAfter (.node id)) id

/-- What a walk has seen, and the message of the visit that failed. -/
def walk (f : Forest) (id : NodeId) (order : WalkOrder) (failAfter : Nat) : Answer :=
  let (outcome, seen) := (tour f id failAfter order).run.run #[]
  match outcome with
  | .error (.failed message) => .walk seen.toList (some message)
  | _ => .walk seen.toList none

def setParent (node : NodeId) (parent : Option NodeId) : Run Answer := do
  modify (fun w => { w with forest := w.forest.setParent node parent })
  return .node? ((← Act.forest).parent? node)

def changeForest (f : Forest → Forest) : Run Unit := modify (fun w => { w with forest := f w.forest })

/-! ## Pools -/

/-- Lay one setting over a policy, unchecked. -/
def override (p : PoolPolicy) (part key : String) (n : Number) : PoolPolicy :=
  match part, key with
  | "int", "min" => { p with int := { p.int with min := n } }
  | "int", "max" => { p with int := { p.int with max := n } }
  | "bool", "maxEntries" => { p with boolEntries := n }
  | "string", "maxLength" => { p with string := { p.string with maxLength := n } }
  | "string", "maxEntries" => { p with string := { p.string with maxEntries := n } }
  | "identifier", "maxLength" => { p with identifier := { p.identifier with maxLength := n } }
  | "identifier", "maxEntries" => { p with identifier := { p.identifier with maxEntries := n } }
  | _, _ => p

def openPool (storeAs : String) (overrides : List (String × String × Value)) (l : Listening) :
    Run Answer := do
  let policy := overrides.foldl
    (fun p o => match o.2.2.number? with
      | some n => override p o.1 o.2.1 n
      | none => p) PoolPolicy.standard
  let w ← get
  let (id, w) := w.openPool policy
  set w
  change (fun s =>
    { s with
      pools := Fields.put storeAs id s.pools
      poolListening := (id, l) :: s.poolListening })
  return .policy policy

def answerPool (p : Pool) : PoolQuestion → Answer
  | .stats => .stats p.hits p.misses p.hitRateText p.sizes
  | .sizes => .sizes p.sizes
  | .memory => .memory p.memory.1 p.memory.2
  | .policy => .policy p.policy

/-! ## Validators -/

/-- Run an action of a validator, of whichever type it is. What it has found is
kept even if the action fails. -/
def onValidator (name : String)
    (plain : Forest → Inspector (World Session) → Act (PlainValidator × World Session) Answer)
    (structural : Forest → Inspector (World Session) →
      Act (StructuralValidator × World Session) Answer) : Run Answer := do
  let v ← lookup (← own).validators name
  let f ← Act.forest
  let ins := inspector v.listening
  let keep (state : ValidatorState) (w : World Session) : World Session :=
    { w with host :=
      { w.host with validators := Fields.put name { v with state } w.host.validators } }
  match v.state with
  | .plain p =>
    Act.ofStep (fun w =>
      let (outcome, p, w) := (plain f ins).exec (p, w)
      (outcome, keep (.plain p) w))
  | .structural p =>
    Act.ofStep (fun w =>
      let (outcome, p, w) := (structural f ins).exec (p, w)
      (outcome, keep (.structural p) w))

def openValidator (storeAs : String) (type : ValidatorType) (l : Listening) : Run Answer := do
  let state : ValidatorState := match type with
    | .plain => .plain {}
    | .structural | .full => .structural {}
  change (fun s => { s with validators := Fields.put storeAs { state, listening := l } s.validators })
  return .text (match type with
    | .plain => "ast"
    | .structural => "structural"
    | .full => "full")

namespace ValidatorState

/-- All findings, in reporting order. -/
def findings : ValidatorState → List Diagnostic
  | .plain v => v.found
  | .structural v => v.findings

def custom : ValidatorState → List Diagnostic
  | .plain v => v.found
  | .structural v => v.custom

def structuralFindings : ValidatorState → List Diagnostic
  | .plain _ => []
  | .structural v => v.structural

def cycles : ValidatorState → List (List NodeId)
  | .plain _ => []
  | .structural v => v.cycles

def answer (v : ValidatorState) : ValidatorQuestion → Answer
  | .isValid => .flag v.findings.isEmpty
  | .summary => .text (Diagnostic.summary v.findings)
  | .diagnostics => .diagnostics v.findings
  | .ofSeverity s => .diagnostics (Diagnostic.ofSeverity s v.findings)
  | .counts => .list (Severity.all.map (fun s => .number (Diagnostic.count s v.findings)))
  | .custom => .diagnostics v.custom
  | .structural => .diagnostics v.structuralFindings
  | .cycles => .list (v.cycles.map .nodes)
  | .grouped => .grouped (Diagnostic.bySeverity v.findings)

end ValidatorState

/-! ## Visitors -/

def openVisitor (storeAs : String) (recipe : VisitorRecipe) : Run Answer := do
  change (fun s =>
    { s with
      visitors := Fields.put storeAs { number := s.visitorCount, recipe } s.visitors
      visitorCount := s.visitorCount + 1 })
  return .text (match recipe.base with
    | .strict => "base"
    | .transformer => "transformer"
    | .plain => "plain")

def visit (visitor node : String) (storeAs : Option String) : Run Answer := do
  let v ← lookup (← own).visitors visitor
  let id ← Session.node node
  let answer ← v.visitor.visit id
  match answer.node? with
  | some id => storeNodeAs storeAs id
  | none => pure ()
  return .value answer

/-! ## Commands -/

def perform : Command → Run Answer
  | .declareFamily kind storeAs => declareFamily kind storeAs
  | .declare strategy name storeAs fields registry families display category rules => do
    let s ← own
    let families ← families.mapM (lookup s.families)
    declareKind { name, strategy, table := .ofPairs fields, families, display, category } storeAs
      registry rules
  | .registerClass registry kind c => registerClass registry kind c
  | .readRegistry registry lookups => readRegistry registry lookups
  | .make b => do return .node (← b.build)
  | .link name targets => do
    let id ← node name
    let targets ← targets.mapM node
    changeForest (·.link id targets)
    return .nodes ((← Act.forest).children id)
  | .ask name questions => do
    let id ← node name
    return .list (← questions.mapM (answerNode id))
  | .dump name => do
    let id ← node name
    return .dump ((← Act.forest).dump id)
  | .isNode t => do return .flag (← t.eval).node?.isSome
  | .accepts m name => do
    let m ← matcher m
    let id ← node name
    return .flag (m.accepts (← Act.forest) id)
  | .equals a b => do
    let a ← node a
    let b ← node b
    return .flag ((← Act.forest).equals a b)
  | .same a b => do
    let a ← node a
    let b ← node b
    return .flag (a == b)
  | .clone name storeAs => do
    let id ← node name
    let copy ← Act.onForest (Forest.clone id)
    storeNode storeAs copy
    return .node copy
  | .child name index storeAs => do
    let id ← node name
    let children := (← Act.forest).children id
    match if 0 ≤ index then children[index.toNat]? else none with
    | some child =>
      storeNode storeAs child
      return .node child
    | none => return .nothing
  | .relation a b => do
    let a ← node a
    let b ← node b
    let f ← Act.forest
    return .list [.flag (f.isAncestorOf a b), .flag (f.isDescendantOf a b)]
  | .attach name => do
    let id ← node name
    changeForest (·.attachParents id)
    return .nothing
  | .detach name => do
    let id ← node name
    changeForest (·.detachParents id)
    return .nothing
  | .setParent name parent => do
    let id ← node name
    let parent ← match parent with
      | some p => do pure (some (← node p))
      | none => pure none
    setParent id parent
  | .search name m => do
    let id ← node name
    let m ← matcher m
    let f ← Act.forest
    return .list [.nodes (f.findAll m id), .node? (f.findFirst? m id), .flag (f.contains m id)]
  | .searchWalk name m take => do
    let id ← node name
    let m ← matcher m
    let f ← Act.forest
    return .list
      [.nodes (f.search m take id), .nodes (f.search m none id), .node? (f.searchFirst? m id)]
  | .walk name order failAfter => do
    let id ← node name
    return walk (← Act.forest) id order failAfter
  | .record kindName span fields storeAs => do
    let kind ← kind kindName
    let entries ← evalEntries fields
    let r ← Act.onForest (Forest.createRecord kind span (Fields.ofPairs entries))
    storeRecord storeAs r
    return .record r
  | .cloneRecord kindName name storeAs => do
    let kind ← kind kindName
    let r ← lookup (← own).records name
    let copy ← Act.onForest (Forest.copyRecord kind r)
    storeRecord storeAs copy
    return .list [.flag (copy.id == r.id), .flag (kind.sameRecord copy r), .record copy]
  | .equalRecords kindName a b => do
    let kind ← kind kindName
    let a ← lookup (← own).records a
    let b ← lookup (← own).records b
    return .flag (kind.sameRecord a b)
  | .wrap kindName name storeAs => do
    let kind ← kind kindName
    let r ← lookup (← own).records name
    let id ← Act.onForest (Forest.wrap kind r)
    storeNode storeAs id
    return .node id
  | .unwrap kindName name storeAs => do
    let kind ← kind kindName
    let id ← node name
    match (← Act.forest).unwrap? kind id, storeAs with
    | some r, some storeAs =>
      storeRecord storeAs r
      return .record r
    | some r, none => return .record r
    | none, _ => return .nothing
  | .openPool storeAs overrides listening => openPool storeAs overrides listening
  | .request name r storeAs => do
    let id ← r.ask (← pool name)
    storeNodeAs storeAs id
    return .node id
  | .admits name category value filedUnder => do
    let p ← pool name
    let value ← value.eval
    match PoolCategory.ofName? category with
    | some c =>
      return .flag (((← get).pool p).admits c (filedUnder.getD PoolEntry.anyKind) value)
    | none => return .value .absent
  | .askPool name questions => do
    let p ← pool name
    let w ← get
    return .list (questions.map (answerPool (w.pool p)))
  | .clearPool name => do
    World.clearPool watch (← pool name)
    return .nothing
  | .openValidator storeAs type listening => openValidator storeAs type listening
  | .validate name nodeName => do
    let id ← node nodeName
    onValidator name
      (fun f ins => do return .diagnostics (← PlainValidator.validate f ins id))
      (fun f ins => do return .diagnostics (← StructuralValidator.validate f ins id))
  | .visitValidator name nodeName => do
    let id ← node nodeName
    onValidator name
      (fun f ins => do
        PlainValidator.visit f ins id
        return .nothing)
      (fun f ins => do
        StructuralValidator.visit f ins id
        return .nothing)
  | .clearValidator name =>
    onValidator name
      (fun _ _ => do
        modify (fun p => ({}, p.2))
        return .nothing)
      (fun _ _ => do
        modify (fun p => ({}, p.2))
        return .nothing)
  | .askValidator name questions => do
    let v ← lookup (← own).validators name
    return .list (questions.map v.state.answer)
  | .openVisitor storeAs recipe => openVisitor storeAs recipe
  | .visit visitor name storeAs => visit visitor name storeAs

/-- Perform a command and collect what happened meanwhile. -/
def run (w : World Session) (c : Command) : (Except Fault Answer × List Event) × World Session :=
  let w := { w with host := { w.host with events := [] } }
  let (outcome, w) := (perform c).exec w
  ((outcome, w.host.events), w)

def start : World Session := { host := {} }

end SyntaxForest.Session
