import SyntaxForest.Session.Drafting
import SyntaxForest.Session.Perform
import SyntaxForest.Settings.Directory
import SyntaxForest.Proofs.Forest.Links
import SyntaxForest.Proofs.Forest.Trees
import SyntaxForest.Proofs.Forest.Unfolding
import SyntaxForest.Proofs.Forest.Discovery
import SyntaxForest.Proofs.Validation.Walk
import SyntaxForest.Proofs.Validation.Stack
import SyntaxForest.Proofs.Validation.Cycles
import SyntaxForest.Proofs.Validation.Calls
import SyntaxForest.Proofs.Validation.Order
import SyntaxForest.Proofs.Pool.Request
import SyntaxForest.Proofs.Pool.Play
import SyntaxForest.Proofs.Pool.Policy
import SyntaxForest.Proofs.Pool.Sound
import SyntaxForest.Proofs.Pool.Reachable
import SyntaxForest.Proofs.Kind.Made
import SyntaxForest.Proofs.Kind.Registrations
import SyntaxForest.Proofs.Kind.Table
import SyntaxForest.Proofs.Kind.Fit
import SyntaxForest.Proofs.Forest.Grown
import SyntaxForest.Proofs.Forest.Content
import SyntaxForest.Proofs.Forest.Equality
import SyntaxForest.Proofs.Forest.Clone
import SyntaxForest.Proofs.Forest.Walks
import SyntaxForest.Proofs.Forest.Alike
import SyntaxForest.Proofs.Forest.Indistinct
import SyntaxForest.Proofs.Forest.Represented
import SyntaxForest.Proofs.Visitor.Rebuild
import SyntaxForest.Proofs.Visitor.Places
import SyntaxForest.Proofs.Forest.Making
import SyntaxForest.Proofs.Forest.Ancestry
import SyntaxForest.Proofs.Visitor.Visiting
import SyntaxForest.Proofs.Visitor.Rewriting
import SyntaxForest.Proofs.Pool.Meaning
import SyntaxForest.Proofs.Forest.Typing
import SyntaxForest.Proofs.Pool.Lasting
import SyntaxForest.Proofs.Pool.Ledger
import SyntaxForest.Proofs.Pool.Accounts
import SyntaxForest.Proofs.Validation.Agreement
import SyntaxForest.Proofs.Pool.Errands
import SyntaxForest.Proofs.Pool.Lanes
import SyntaxForest.Proofs.Pool.Clearing
import SyntaxForest.Proofs.Pool.Admission
import SyntaxForest.Proofs.Pool.Failures
import SyntaxForest.Proofs.Forest.Slots
import SyntaxForest.Proofs.Fault.Template
import SyntaxForest.Proofs.Forest.Attaching
import SyntaxForest.Proofs.Forest.Levels
import SyntaxForest.Proofs.Pool.Locking
import SyntaxForest.Proofs.Kind.Copying
import SyntaxForest.Proofs.Kind.Legality
import SyntaxForest.Proofs.Settings.Resolving
import SyntaxForest.Proofs.Span.Covering
