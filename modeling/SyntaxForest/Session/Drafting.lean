import SyntaxForest.Diagnostic.Draft
import SyntaxForest.Session.Answer
/-!
# Drafting diagnostics

Commands that fill drafts step by step, finish them, and ask about the diagnostics
that come out. Drafts and diagnostics are kept under names.
-/

namespace SyntaxForest.Drafting

/-- What is added to a draft. -/
inductive Addition where
  | primary (span : Span) (text : String)
  | secondary (span : Span) (text : String)
  | help (text : String)
  | note (text : String)
deriving Inhabited

def Addition.apply (d : Draft) : Addition → Draft
  | .primary span text => d.primary span text
  | .secondary span text => d.secondary span text
  | .help text => d.help text
  | .note text => d.note text

inductive Command where
  | start (name : String) (severity : Severity) (message : String)
  /-- Fill a draft and keep the result, under the same name or another. -/
  | fill (name : String) (addition : Addition) (storeAs : String)
  | finish (name storeAs : String)
  | primaryLabel (name : String)
  | group (names : List String)
  | failsBuild (names : List String)
deriving Inhabited

/-- Drafts and diagnostics by name. -/
structure Book where
  drafts : List (String × Draft) := []
  finished : List (String × Diagnostic) := []
deriving Inhabited

/-- Perform a command; one on a name that is not there changes nothing. -/
def Book.perform (b : Book) : Command → Answer × Book
  | .start name severity message =>
    (.nothing, { b with drafts := Fields.put name { severity, message } b.drafts })
  | .fill name addition storeAs =>
    match Fields.find? b.drafts name with
    | some d => (.nothing, { b with drafts := Fields.put storeAs (addition.apply d) b.drafts })
    | none => (.nothing, b)
  | .finish name storeAs =>
    match Fields.find? b.drafts name with
    | some d => (.diagnostic d.build, { b with finished := Fields.put storeAs d.build b.finished })
    | none => (.nothing, b)
  | .primaryLabel name =>
    match (Fields.find? b.finished name).bind Diagnostic.primaryLabel? with
    | some l => (.label l, b)
    | none => (.nothing, b)
  | .group names =>
    (.grouped (Diagnostic.bySeverity (names.filterMap (Fields.find? b.finished))), b)
  | .failsBuild names =>
    (.flag (Diagnostic.failsBuild (names.filterMap (Fields.find? b.finished))), b)

/-- Perform commands in order, from an empty book. -/
def performAll (commands : List Command) : List Answer :=
  (commands.foldl
    (fun (acc : List Answer × Book) c =>
      let (answer, b) := acc.2.perform c
      (acc.1 ++ [answer], b)) ([], {})).1

end SyntaxForest.Drafting
