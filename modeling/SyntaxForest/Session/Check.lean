import SyntaxForest.Session.Make
/-!
# Checks by rules

The check of a kind goes through the kind's rules in order; every rule that
applies adds one finding, or fails.
-/

namespace SyntaxForest.Session

def LabelPlace.span (f : Forest) (id : NodeId) : LabelPlace → Span
  | .own => f.span id
  | .field name =>
    match f.field id name with
    | .node held => f.span held
    | _ => f.span id

def CheckRule.applies (id : NodeId) (r : CheckRule) : Run Bool :=
  match r.condition with
  | none => pure true
  | some (path, expected) => do
    let found := (← Act.forest).fieldAt (.node id) path
    return found.same (← expected.eval)

def RuleOutcome.finding (f : Forest) (id : NodeId) : RuleOutcome → Except Fault Diagnostic
  | .fail message => .error (.host message)
  | .report severity message primary secondary help note =>
    let draft : Draft := { severity, message }
    let draft := match primary with
      | some (place, text) => draft.primary (place.span f id) text
      | none => draft
    let draft := secondary.foldl (fun d (place, text) => d.secondary (place.span f id) text) draft
    let draft := match help with
      | some text => draft.help text
      | none => draft
    let draft := match note with
      | some text => draft.note text
      | none => draft
    .ok draft.build

/-- The findings of some rules on a node, rule after rule. -/
def findings (id : NodeId) : List CheckRule → Run (List Diagnostic)
  | [] => pure []
  | r :: rest => do
    if ← r.applies id then
      let found ← Act.ofExcept (r.outcome.finding (← Act.forest) id)
      return found :: (← findings id rest)
    else findings id rest

/-- The findings of a node's check; a node of a kind without rules is never at fault. -/
def checkNode (id : NodeId) : Run (List Diagnostic) := do
  match ((← Act.forest).node? id).bind Node.kind? with
  | none => return []
  | some kind =>
    match ((← own).rules.find? (·.1 == kind.id)).map (·.2) with
    | some rules => findings id rules
    | none => return []

/-- What the validators of a session ask and tell it. -/
def inspector (l : Listening) : Inspector (World Session) where
  check := checkNode
  onNode id found :=
    if l.log then do
      tell (.checked id (found.map (·.message)))
      failIfAsked l .node
    else pure ()
  onCycle path :=
    if l.log then do
      tell (.cycle path)
      failIfAsked l .cycle
    else pure ()

end SyntaxForest.Session
