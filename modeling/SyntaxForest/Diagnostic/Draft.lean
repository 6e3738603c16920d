import SyntaxForest.Diagnostic.Basic
/-!
# Drafts of diagnostics

A draft collects the parts of one diagnostic. Every step gives a new draft, so a
partly filled one can serve as the start of several.
-/

namespace SyntaxForest

/-- A diagnostic in the making. -/
structure Draft where
  severity : Severity
  message : String
  primaryLabel : Option Label := none
  secondaryLabels : List Label := []
  helpText : Option String := none
  noteText : Option String := none
deriving Inhabited

namespace Draft

/-- Set the primary label, in place of an earlier one. -/
def primary (d : Draft) (span : Span) (message : String) : Draft :=
  { d with primaryLabel := some { style := .primary, span, message } }

/-- Add a secondary label after the earlier ones. -/
def secondary (d : Draft) (span : Span) (message : String) : Draft :=
  { d with secondaryLabels := d.secondaryLabels ++ [{ style := .secondary, span, message }] }

def help (d : Draft) (text : String) : Draft := { d with helpText := some text }

def note (d : Draft) (text : String) : Draft := { d with noteText := some text }

/-- The finished diagnostic, its primary label in front. -/
def build (d : Draft) : Diagnostic :=
  { severity := d.severity
    message := d.message
    labels := d.primaryLabel.toList ++ d.secondaryLabels
    help := d.helpText
    note := d.noteText }

end Draft

end SyntaxForest
