import Courtesy.Command
import Courtesy.Diagnostic.Excerpt
import Courtesy.Diagnostic.Journal
import Courtesy.Main
import Courtesy.Service.Server
import Courtesy.Translator
import Courtesy.Uuid
import Courtesy.Watch.Watcher
import Courtesy.Proofs.Steps
import Courtesy.Proofs.Braces
import Courtesy.Proofs.Functions
import Courtesy.Proofs.Verdict
import Courtesy.Proofs.Modularity
import Courtesy.Proofs.Statements
import Courtesy.Proofs.Scopes
import Courtesy.Proofs.Lines
import Courtesy.Proofs.Scoping
import Courtesy.Proofs.Lexemes
import Courtesy.Proofs.Expressions
import Courtesy.Proofs.Rendering
import Courtesy.Proofs.Layout
import Courtesy.Proofs.Literals
import Courtesy.Proofs.Effects
import Courtesy.Proofs.Variables
import Courtesy.Proofs.Pairing
import Courtesy.Proofs.Recognisers
import Courtesy.Proofs.Phrases
import Courtesy.Proofs.Rescanning
import Courtesy.Proofs.Spacing
import Courtesy.Proofs.Columns
import Courtesy.Proofs.Relayout
import Courtesy.Proofs.TargetStrings
import Courtesy.Proofs.Quotations
import Courtesy.Proofs.Visibility
import Courtesy.Proofs.Returns
import Courtesy.Proofs.Calls
import Courtesy.Proofs.NameSharing
import Courtesy.Proofs.Methods
import Courtesy.Proofs.Paths
import Courtesy.Proofs.Changes
import Courtesy.Proofs.Registration
import Courtesy.Proofs.Updates
import Courtesy.Proofs.Places
import Courtesy.Proofs.Saving
import Courtesy.Proofs.Outputs
import Courtesy.Proofs.Freshness
import Courtesy.Proofs.Walks
import Courtesy.Proofs.Admission
import Courtesy.Proofs.Positional.Translation
import Courtesy.Proofs.Acceptor
import Courtesy.Proofs.Sums
import Courtesy.Proofs.RoundTrip
import Courtesy.Proofs.Accounting
import Courtesy.Proofs.Locations
import Courtesy.Proofs.Reuse
import Courtesy.Proofs.Gates
import Courtesy.Proofs.AtomTokens
import Courtesy.Proofs.Narrowing
import Courtesy.Proofs.Concatenation
import Courtesy.Proofs.Conditions
import Courtesy.Proofs.ConditionCode
import Courtesy.Proofs.ControlBlocks
import Courtesy.Proofs.MissingReturns
import Courtesy.Proofs.Hints
import Courtesy.Proofs.Requoting
import Courtesy.Proofs.Agreement
import Courtesy.Proofs.Categories
import Courtesy.Proofs.Coverage
import Courtesy.Proofs.Parameters
import Courtesy.Proofs.Gaps
import Courtesy.Proofs.Blames
import Courtesy.Proofs.Carets
import Courtesy.Proofs.Grammar
import Courtesy.Proofs.Tracking
import Courtesy.Proofs.Scaffolds
import Courtesy.Proofs.NewProjects
import Courtesy.Proofs.Arguments
import Courtesy.Proofs.Occurrences
import Courtesy.Proofs.Snapshots
