import SyntaxForest.Span
/-!
# Diagnostics

A diagnostic is a finding of a validator: a severity, a message, labelled spans,
and optional help and note. Findings are collected, never thrown.
-/

namespace SyntaxForest

inductive Severity where
  | error
  | warning
  | hint
  | info
deriving DecidableEq, Inhabited

namespace Severity

/-- All severities in reporting order. -/
def all : List Severity := [.error, .warning, .hint, .info]

def name : Severity → String
  | .error => "error"
  | .warning => "warning"
  | .hint => "hint"
  | .info => "info"

def ofName? (name : String) : Option Severity := all.find? (fun s => s.name == name)

end Severity

/-- Whether a label marks the main place or gives context. -/
inductive LabelStyle where
  | primary
  | secondary
deriving DecidableEq, Inhabited

def LabelStyle.name : LabelStyle → String
  | .primary => "primary"
  | .secondary => "secondary"

/-- A span with a short message. -/
structure Label where
  style : LabelStyle
  span : Span
  message : String
deriving DecidableEq, Inhabited

structure Diagnostic where
  severity : Severity
  message : String
  /-- The primary label first if there is one, then the secondary ones. -/
  labels : List Label
  help : Option String
  note : Option String
deriving DecidableEq, Inhabited

namespace Diagnostic

def primaryLabel? (d : Diagnostic) : Option Label := d.labels.find? (·.style == .primary)

def ofSeverity (severity : Severity) (ds : List Diagnostic) : List Diagnostic :=
  ds.filter (·.severity == severity)

/-- Diagnostics by severity, in reporting order; severities without any are left out. -/
def bySeverity (ds : List Diagnostic) : List (Severity × List Diagnostic) :=
  (Severity.all.map (fun s => (s, ofSeverity s ds))).filter (fun group => !group.2.isEmpty)

def failsBuild (ds : List Diagnostic) : Bool := ds.any (·.severity == .error)

end Diagnostic

end SyntaxForest
