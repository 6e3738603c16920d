import SyntaxForest.Kind.Declaration
import SyntaxForest.Diagnostic.Basic
import SyntaxForest.Span
/-!
# The language of sessions

A session works on a forest by commands. This module has the parts commands are
made of: terms for values and nodes to be made, factories for pool requests,
rules for the checks of a kind, and recipes for the methods of a visitor. Names
refer to what the session has stored under them.
-/

namespace SyntaxForest.Session

/-! ## Terms -/

mutual

/-- A value to be worked out. -/
inductive Term where
  | value (v : Value)
  /-- A stored node. -/
  | stored (name : String)
  /-- A node made on the spot. -/
  | make (b : Blueprint)
  | list (items : List Term)
  | object (bare : Bool) (entries : List (String × Term))

/-- A node to be made, and possibly a name to store it under. -/
inductive Blueprint where
  /-- A node of a declared kind; a record of a value kind is made and wrapped. -/
  | ofKind (kind : String) (span : Span) (fields : List (String × Term)) (pool : Option String)
      (storeAs : Option String)
  | graph (name : String) (span : Span) (storeAs : Option String)

end

instance : Inhabited Term := ⟨.value .absent⟩

/-- A test for nodes, by the name of a kind or of a family. -/
inductive MatcherTerm where
  | kind (name : String)
  | family (name : String)
deriving Inhabited

/-! ## Factories -/

mutual

/-- How a pool request makes its node. -/
inductive Factory where
  /-- Give a stored node. -/
  | stored (name : String)
  | make (b : Blueprint)
  | fail (message : String)
  /-- Ask a pool, by default the one that asked for the node. -/
  | request (r : RequestTerm) (pool : Option String)
  /-- Clear a pool, by default the one that asked, and go on. -/
  | clear (pool : Option String) (next : Factory)
  /-- Go on with `other` when `first` fails. -/
  | attempt (first other : Factory)

inductive RequestTerm where
  | mk (category : String) (value : Term) (matcher : Option MatcherTerm) (factory : Factory)

end

/-! ## Checks -/

/-- The place of a label: the checked node, or the node in a field of it. -/
inductive LabelPlace where
  | own
  | field (name : String)
deriving Inhabited

/-- What a rule does when it applies. -/
inductive RuleOutcome where
  | fail (message : String)
  | report (severity : Severity) (message : String) (primary : Option (LabelPlace × String))
      (secondary : List (LabelPlace × String)) (help note : Option String)
deriving Inhabited

/-- A rule of a kind's check. It applies when the value at the end of a path of
fields is the expected one, worked out at every check anew, or always. -/
structure CheckRule where
  condition : Option (List String × Term)
  outcome : RuleOutcome
deriving Inhabited

/-! ## Recipes -/

/-- A part of a text that a recipe puts together. -/
inductive TextPart where
  | literal (s : String)
  | field (name : String)
  /-- What a visit of the node in a field gives. -/
  | visit (field : String)
  /-- What the visits of all children give, joined. -/
  | each (separator : String)
deriving Inhabited

/-- What a method of a visitor does with its node. -/
inductive Recipe where
  | value (t : Term)
  | field (name : String)
  | kindName
  | text (parts : List TextPart)
  /-- The sum of what the visits of all children give. -/
  | sum
  /-- The product of what the visits of all children give. -/
  | product
  | fail (message : String)
  | same
  | clone
  /-- Rebuild the node from the visits of its children. -/
  | transform
  /-- A stored node. -/
  | replace (name : String)
  /-- The node once more, with some fields changed. -/
  | changed (fields : List (String × Term)) (pool : Option String)
  /-- A node of another kind, its fields read from the node and visited. -/
  | into (kind : String) (pool : Option String)
  /-- One recipe after the other, the last one for good. -/
  | turns (recipes : List Recipe)
  /-- No method at all, though the name is taken. -/
  | uncallable

instance : Inhabited Recipe := ⟨.same⟩

inductive VisitorBase where
  /-- Refuse nodes without a method. -/
  | strict
  /-- Keep nodes without a method. -/
  | transformer
  /-- Refuse them too, but usually with a fallback of its own. -/
  | plain
deriving DecidableEq, Inhabited

structure VisitorRecipe where
  base : VisitorBase
  /-- Methods by the kind name they are for; a later one replaces an earlier one. -/
  methods : List (String × Recipe)
  fallback : Option Recipe

/-! ## Commands -/

inductive ValidatorType where
  | plain
  | structural
  | full
deriving DecidableEq, Inhabited

inductive FailingCallback where
  | hit
  | miss
  | clear
  | node
  | cycle
deriving DecidableEq, Inhabited

def FailingCallback.name : FailingCallback → String
  | .hit => "hit"
  | .miss => "miss"
  | .clear => "clear"
  | .node => "node"
  | .cycle => "cycle"

/-- What a session does with the callbacks of a pool or validator. -/
structure Listening where
  /-- Keep what is told as events. -/
  log : Bool := false
  failing : Option FailingCallback := none
deriving DecidableEq, Inhabited

inductive NodeQuestion where
  | text
  | span
  | kindName
  | leaf
  | depth
  | count
  | children
  | parent
  | ancestors
  | siblings
  | display
  | hasDisplay
  | validatable
  | validate
  | visitMethod
deriving DecidableEq, Inhabited

inductive PoolQuestion where
  | stats
  | sizes
  | memory
  | policy
deriving DecidableEq, Inhabited

inductive ValidatorQuestion where
  | isValid
  | summary
  | diagnostics
  | ofSeverity (s : Severity)
  | counts
  | custom
  | structural
  | cycles
  | grouped
deriving DecidableEq, Inhabited

inductive WalkOrder where
  | pre
  | post
  | level
  /-- Preorder with distances counted from `start`. -/
  | depth (start : Int)
  /-- Preorder, stopped after so many nodes. -/
  | lazily (take : Option Nat)
deriving DecidableEq, Inhabited

inductive Command where
  | declareFamily (kind storeAs : String)
  | declare (strategy : Strategy) (kind storeAs : String) (fields : List (String × FieldType))
      (registry : Option String) (families : List String) (display category : Option String)
      (rules : List CheckRule)
  | registerClass (registry : Option String) (kind : String) (nodeClass : NodeClass)
  | readRegistry (registry : Option String) (lookups : List String)
  | make (b : Blueprint)
  | link (node : String) (targets : List String)
  | ask (node : String) (questions : List NodeQuestion)
  | dump (node : String)
  | isNode (value : Term)
  | accepts (matcher : MatcherTerm) (node : String)
  | equals (a b : String)
  | same (a b : String)
  | clone (node storeAs : String)
  | child (node : String) (index : Int) (storeAs : String)
  | relation (a b : String)
  | attach (node : String)
  | detach (node : String)
  | setParent (node : String) (parent : Option String)
  | search (node : String) (matcher : MatcherTerm)
  | searchWalk (node : String) (matcher : MatcherTerm) (take : Option Nat)
  | walk (node : String) (order : WalkOrder) (failAfter : Nat)
  | record (kind : String) (span : Span) (fields : List (String × Term)) (storeAs : String)
  | cloneRecord (kind record storeAs : String)
  | equalRecords (kind a b : String)
  | wrap (kind record storeAs : String)
  | unwrap (kind node : String) (storeAs : Option String)
  | openPool (storeAs : String) (overrides : List (String × String × Value)) (listening : Listening)
  | request (pool : String) (r : RequestTerm) (storeAs : Option String)
  | admits (pool category : String) (value : Term) (filedUnder : Option String)
  | askPool (pool : String) (questions : List PoolQuestion)
  | clearPool (pool : String)
  | openValidator (storeAs : String) (type : ValidatorType) (listening : Listening)
  | validate (validator node : String)
  | visitValidator (validator node : String)
  | clearValidator (validator : String)
  | askValidator (validator : String) (questions : List ValidatorQuestion)
  | openVisitor (storeAs : String) (recipe : VisitorRecipe)
  | visit (visitor node : String) (storeAs : Option String)

end SyntaxForest.Session
