import SyntaxForest.Pool.Request
import SyntaxForest.Session.Language
import SyntaxForest.Validation.Plain
import SyntaxForest.Validation.Structural
/-!
# The state of a session

A session stores what commands have made under names, and keeps the events that
callbacks were told of. It is the host of a world: actions of a session run on
the forest, the pools and this state.
-/

namespace SyntaxForest

/-- What callbacks are told of during a command. -/
inductive Event where
  | pool (e : PoolEvent)
  /-- A factory failed and another one took over. -/
  | caught (fault : Fault)
  /-- A node was checked, with findings of these messages. -/
  | checked (node : NodeId) (messages : List String)
  | cycle (path : List NodeId)
deriving Inhabited

namespace Session

/-- A validator with what it has found so far. -/
inductive ValidatorState where
  | plain (v : PlainValidator)
  /-- A structural validator; a full one answers fewer questions. -/
  | structural (v : StructuralValidator)
deriving Inhabited

structure OpenValidator where
  state : ValidatorState
  listening : Listening
deriving Inhabited

/-- A stored visitor. The number tells it from all others of the session. -/
structure OpenVisitor where
  number : Nat
  recipe : VisitorRecipe

end Session

structure Session where
  nodes : List (String × NodeId) := []
  records : List (String × ValueRecord) := []
  kinds : List (String × Kind) := []
  families : List (String × AbstractKind) := []
  pools : List (String × PoolId) := []
  validators : List (String × Session.OpenValidator) := []
  visitors : List (String × Session.OpenVisitor) := []
  catalog : Catalog := {}
  /-- How many families were declared. -/
  familyCount : Nat := 0
  /-- How many visitors were opened. -/
  visitorCount : Nat := 0
  /-- The rules of the kinds that have any. -/
  rules : List (KindId × List Session.CheckRule) := []
  /-- What is done with the callbacks of each pool. -/
  poolListening : List (PoolId × Session.Listening) := []
  /-- How often each recipe that takes turns was asked, by visitor, method and
  position in the method. -/
  turns : List ((Nat × String × List Nat) × Nat) := []
  /-- Events of the present command, oldest first. -/
  events : List Event := []
deriving Inhabited

namespace Session

abbrev Run (α : Type) := Act (World Session) α

variable {α : Type}

/-- What is stored under a name. -/
def lookup (entries : List (String × α)) (name : String) : Run α :=
  match Fields.find? entries name with
  | some a => pure a
  | none => Act.hostFault s!"nothing is stored as {name}"

def own : Run Session := do return (← get).host

/-- Change the session's own state. -/
def change (f : Session → Session) : Run Unit := modify (fun w => { w with host := f w.host })

def node (name : String) : Run NodeId := do lookup (← own).nodes name

def kind (name : String) : Run Kind := do lookup (← own).kinds name

def pool (name : String) : Run PoolId := do lookup (← own).pools name

def poolNamed : Option String → Run (Option PoolId)
  | none => pure none
  | some name => do return some (← pool name)

def storeNode (name : String) (id : NodeId) : Run Unit :=
  change (fun s => { s with nodes := Fields.put name id s.nodes })

/-- Store a node where a name is given for it. -/
def storeNodeAs (storeAs : Option String) (id : NodeId) : Run Unit :=
  match storeAs with
  | some name => storeNode name id
  | none => pure ()

def storeRecord (name : String) (r : ValueRecord) : Run Unit :=
  change (fun s => { s with records := Fields.put name r s.records })

def tell (e : Event) : Run Unit := change (fun s => { s with events := s.events ++ [e] })

/-- The test a term stands for. -/
def matcher : MatcherTerm → Run Matcher
  | .kind name => do return .exactly (← kind name)
  | .family name => do return .within (← lookup (← own).families name)

def callbackOf : PoolEvent → FailingCallback
  | .hit .. => .hit
  | .miss .. => .miss
  | .clear .. => .clear

def failIfAsked (l : Listening) (callback : FailingCallback) : Act α Unit :=
  if l.failing = some callback then Act.hostFault s!"callback {callback.name}" else pure ()

def watch : World.PoolWatch Session := fun p e => do
  let l := ((← own).poolListening.find? (·.1 == p)).map (·.2)
  match l with
  | some l =>
    if l.log then do
      tell (.pool e)
      failIfAsked l (callbackOf e)
    else pure ()
  | none => pure ()

end Session

end SyntaxForest
