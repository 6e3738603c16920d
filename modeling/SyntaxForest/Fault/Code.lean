/-!
# Fault codes

The conditions the library reports as faults of its own, each with a code, a
category, a description, a message template and possibly advice. `FaultCode.all`
lists them in registry order.
-/

namespace SyntaxForest

/-- What part of the library a fault belongs to. -/
inductive FaultCategory where
  | kernel
  | schema
  | pool
  | config
deriving DecidableEq, Inhabited

def FaultCategory.name : FaultCategory → String
  | .kernel => "kernel"
  | .schema => "schema"
  | .pool => "pool"
  | .config => "config"

/-- The conditions, one by one. -/
inductive FaultCode where
  | incompleteKind
  | duplicateKind
  | missingVisit
  | reservedField
  | invalidKindName
  | fieldMismatch
  | unfitStrategy
  | poolReentered
  | unreadableConfig
  | invalidSetting
deriving DecidableEq, Inhabited

namespace FaultCode

def all : List FaultCode :=
  [.incompleteKind, .duplicateKind, .missingVisit, .reservedField, .invalidKindName,
    .fieldMismatch, .unfitStrategy, .poolReentered, .unreadableConfig, .invalidSetting]

def id : FaultCode → String
  | .incompleteKind => "ARBOR-K001"
  | .duplicateKind => "ARBOR-K002"
  | .missingVisit => "ARBOR-K003"
  | .reservedField => "ARBOR-S001"
  | .invalidKindName => "ARBOR-S002"
  | .fieldMismatch => "ARBOR-S003"
  | .unfitStrategy => "ARBOR-S004"
  | .poolReentered => "ARBOR-P001"
  | .unreadableConfig => "ARBOR-C001"
  | .invalidSetting => "ARBOR-C002"

def ofId? (id : String) : Option FaultCode := all.find? (fun c => c.id == id)

def category : FaultCode → FaultCategory
  | .incompleteKind | .duplicateKind | .missingVisit => .kernel
  | .reservedField | .invalidKindName | .fieldMismatch | .unfitStrategy => .schema
  | .poolReentered => .pool
  | .unreadableConfig | .invalidSetting => .config

def description : FaultCode → String
  | .incompleteKind => "Incomplete node kind"
  | .duplicateKind => "Duplicate node kind"
  | .missingVisit => "Missing visitor method"
  | .reservedField => "Reserved field name"
  | .invalidKindName => "Invalid node kind name"
  | .fieldMismatch => "Field value does not match its spec"
  | .unfitStrategy => "Kind cannot use this representation"
  | .poolReentered => "Pool lock re-entered"
  | .unreadableConfig => "Unreadable configuration file"
  | .invalidSetting => "Invalid configuration value"

def template : FaultCode → String
  | .incompleteKind => "Node kind \x7bkind\x7d does not implement \x7bmethod\x7d"
  | .duplicateKind => "Node kind \x7bkind\x7d is already registered"
  | .missingVisit => "Visitor has no method \x7bmethod\x7d for node kind \x7bkind\x7d"
  | .reservedField => "Field name \x7bfield\x7d is reserved in node kind \x7bkind\x7d"
  | .invalidKindName => "Invalid node kind name \"\x7bkind\x7d\""
  | .fieldMismatch =>
    "Field \x7bfield\x7d of node kind \x7bkind\x7d expects \x7bexpected\x7d, got \x7bactual\x7d"
  | .unfitStrategy =>
    "Node kind \x7bkind\x7d cannot use the \x7bstrategy\x7d representation: \x7breason\x7d"
  | .poolReentered =>
    "Pool category \x7bcategory\x7d is already locked; " ++
      "a factory must not request nodes from its own category"
  | .unreadableConfig => "Invalid configuration: \x7breason\x7d"
  | .invalidSetting => "Invalid configuration: \x7bfield\x7d \x7breason\x7d"

def resolution? : FaultCode → Option String
  | .incompleteKind =>
    some ("Every node kind must implement children, accept, clone and equals. " ++
      "Extend BaseNode or declare the kind with a define* function.")
  | .duplicateKind =>
    some "Give each kind a unique name, or register it in a separate KindRegistry."
  | .missingVisit =>
    some ("Add the visit method to the visitor, or extend Transformer to keep " ++
      "unhandled nodes unchanged.")
  | .reservedField =>
    some ("Rename the field. Reserved names: span, children, accept, clone, kind, " ++
      "fields, parent.")
  | .invalidKindName =>
    some "Kind names start with a letter and contain only letters, digits and underscores."
  | .unfitStrategy =>
    some ("Pooled and value kinds hold primitive fields only. " ++
      "Declare the kind with defineNode or defineOptimizedNode instead.")
  | .fieldMismatch | .poolReentered | .unreadableConfig | .invalidSetting => none

end FaultCode

end SyntaxForest
