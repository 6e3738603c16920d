import SyntaxForest.Fault.Code
import SyntaxForest.Fault.Template
/-!
# Faults

What an operation can fail with. A reported fault carries a code of the registry
and the values its message was filled from; a misuse is a call with a name that
nothing stands for, or without a pool where one is needed; a host fault comes from a hook, factory, callback or visitor
supplied from outside.
-/

namespace SyntaxForest

/-- The class of a reported fault: one per category, and the general one. -/
inductive FaultClass where
  | general
  | contract
  | schema
  | pool
  | config
deriving DecidableEq, Inhabited

def FaultCategory.faultClass : FaultCategory → FaultClass
  | .kernel => .contract
  | .schema => .schema
  | .pool => .pool
  | .config => .config

/-- A fault with a code of the registry. -/
structure ReportedFault where
  faultClass : FaultClass
  code : FaultCode
  message : String
  context : Option Fields
deriving Inhabited

inductive Fault where
  | reported (fault : ReportedFault)
  | misuse (message : String)
  | host (message : String)
deriving Inhabited

namespace Fault

def message : Fault → String
  | .reported fault => fault.message
  | .misuse message => message
  | .host message => message

/-- The fault of a code: the message is the code's template filled from the
context, the class that of the code's category. -/
def ofCode (code : FaultCode) (context : Fields) : Fault :=
  .reported
    { faultClass := code.category.faultClass
      code
      message := Template.render code.template context
      context := some context }

def ofId (id : String) (context : Fields) : Except Fault Fault :=
  match FaultCode.ofId? id with
  | some code => .ok (ofCode code context)
  | none => .error (.misuse s!"Unknown error ID: {id}")

/-- A reported fault made by hand, with a message of its own. -/
def construct (faultClass : FaultClass) (id message : String) (context : Option Fields) :
    Except Fault Fault :=
  if id.isEmpty then .error (.misuse "errorId is required")
  else match FaultCode.ofId? id with
    | some code => .ok (.reported { faultClass, code, message, context })
    | none => .error (.misuse s!"Unknown error ID: {id}")

/-! ## The library's own faults -/

def incompleteKind (kind method : String) : Fault :=
  ofCode .incompleteKind [("kind", .text kind), ("method", .text method)]

def duplicateKind (kind : String) : Fault :=
  ofCode .duplicateKind [("kind", .text kind)]

def missingVisit (method kind : String) : Fault :=
  ofCode .missingVisit [("method", .text method), ("kind", .text kind)]

def reservedField (field kind : String) : Fault :=
  ofCode .reservedField [("field", .text field), ("kind", .text kind)]

def invalidKindName (kind : String) : Fault :=
  ofCode .invalidKindName [("kind", .text kind)]

def fieldMismatch (field kind expected actual : String) : Fault :=
  ofCode .fieldMismatch
    [("field", .text field), ("kind", .text kind), ("expected", .text expected),
      ("actual", .text actual)]

def unfitStrategy (kind strategy reason : String) : Fault :=
  ofCode .unfitStrategy
    [("kind", .text kind), ("strategy", .text strategy), ("reason", .text reason)]

def poolReentered (category : String) : Fault :=
  ofCode .poolReentered [("category", .text category)]

def unreadableConfig (reason : String) : Fault :=
  ofCode .unreadableConfig [("reason", .text reason)]

def invalidSetting (field reason : String) : Fault :=
  ofCode .invalidSetting [("field", .text field), ("reason", .text reason)]

def unknownPoolCategory (name : String) : Fault :=
  .misuse s!"Unknown pool category: {name}"

def missingPool : Fault := .misuse "pool needed"

theorem ok_bind {α β : Type} (a : α) (next : α → Except Fault β) : .ok a >>= next = next a := rfl

theorem error_bind {α β : Type} (fault : Fault) (next : α → Except Fault β) :
    .error fault >>= next = .error fault := rfl

/-- A sequence that succeeds has two steps that do. -/
theorem of_bind_eq_ok {α β : Type} {x : Except Fault α} {next : α → Except Fault β} {b : β}
    (h : x >>= next = .ok b) : ∃ a, x = .ok a ∧ next a = .ok b := by
  rcases x with fault | a
  · cases h
  · exact ⟨a, rfl, h⟩

theorem bind_eq_ok_iff {α β : Type} {x : Except Fault α} {next : α → Except Fault β} {b : β} :
    x >>= next = .ok b ↔ ∃ a, x = .ok a ∧ next a = .ok b :=
  ⟨of_bind_eq_ok, fun ⟨_, ha, hnext⟩ => ha ▸ hnext⟩

end Fault

end SyntaxForest
