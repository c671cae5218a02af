import ClassScript.CommandLine
import ClassScript.Main
import ClassScript.Proofs.Store.Cells
import ClassScript.Proofs.Store.Sound
import ClassScript.Proofs.Store.Marking
import ClassScript.Proofs.Run.Ends
import ClassScript.Proofs.Run.Sound
import ClassScript.Proofs.Collection.Registry
import ClassScript.Proofs.Collection.Alike
import ClassScript.Proofs.Collection.Invisible
import ClassScript.Proofs.Parser.Advances
import ClassScript.Proofs.Binding.Guarded
import ClassScript.Proofs.Parser.Numbering
import ClassScript.Proofs.Parser.Programs
import ClassScript.Proofs.Lexical.Chain
import ClassScript.Proofs.Binding.Recorded
import ClassScript.Proofs.Store.Stored
import ClassScript.Proofs.Lexical.Code
import ClassScript.Proofs.Lexical.Run
import ClassScript.Proofs.Lexical.Moments
import ClassScript.Proofs.Lexical.Sessions
import ClassScript.Proofs.Grammar.Expressions
import ClassScript.Proofs.Grammar.Statements
import ClassScript.Proofs.Grammar.Recognized
import ClassScript.Proofs.Grammar.SoundExpressions
import ClassScript.Proofs.Grammar.SoundStatements
import ClassScript.Proofs.Grammar.Accepted
import ClassScript.Proofs.Grammar.CompleteExpressions
import ClassScript.Proofs.Grammar.CompleteStatements
import ClassScript.Proofs.Grammar.Exact
import ClassScript.Proofs.Run.Restored
import ClassScript.Proofs.Run.Entered
import ClassScript.Proofs.Session.Exits
import ClassScript.Proofs.Collection.Tracing
import ClassScript.Proofs.Collection.Built
import ClassScript.Proofs.Run.Order
import ClassScript.Proofs.Run.Calls
import ClassScript.Proofs.Binding.Ordinary
import ClassScript.Proofs.Binding.Surrounded
import ClassScript.Proofs.Lexical.Ancestors
import ClassScript.Proofs.Lexical.Occurrences
import ClassScript.Proofs.Lexical.Closures
import ClassScript.Proofs.Binding.Charted
import ClassScript.Proofs.Dispatch.Homes
import ClassScript.Proofs.Dispatch.Run
import ClassScript.Proofs.Dispatch.Moments
import ClassScript.Proofs.Dispatch.Methods
import ClassScript.Proofs.Run.Lockstep
import ClassScript.Proofs.Run.Shortened
import ClassScript.Proofs.Run.Sources
import ClassScript.Proofs.Run.Overflow
import ClassScript.Proofs.Run.Active
import ClassScript.Proofs.Session.CallLimit
import ClassScript.Proofs.Run.Signals
import ClassScript.Proofs.Run.Bodies
import ClassScript.Proofs.Session.Signals
import ClassScript.Proofs.Run.Fuel
import ClassScript.Proofs.Run.Interrupted
import ClassScript.Proofs.Session.Interrupts
import ClassScript.Proofs.Binding.Noted
import ClassScript.Proofs.Run.Knowledge
import ClassScript.Proofs.Session.Composition
import ClassScript.Proofs.Grammar.Proper
import ClassScript.Proofs.Run.Continues
import ClassScript.Proofs.Similar.Programs
import ClassScript.Proofs.Similar.Symmetry
import ClassScript.Proofs.Similar.Analysis
import ClassScript.Proofs.Similar.Worlds
import ClassScript.Proofs.Similar.Operations
import ClassScript.Proofs.Similar.Steps
import ClassScript.Proofs.Similar.Run
import ClassScript.Proofs.Similar.Blocks
import ClassScript.Proofs.Similar.Interpreted
import ClassScript.Proofs.Similar.Unchanged
import ClassScript.Proofs.Similar.OnePlace
import ClassScript.Proofs.Similar.Renamed
import ClassScript.Proofs.Similar.Renumbered
import ClassScript.Proofs.Session.ExtraScope
import ClassScript.Proofs.Session.LocalNames
import ClassScript.Proofs.Token.Rules
import ClassScript.Proofs.Token.Division
import ClassScript.Proofs.Grammar.Words
import ClassScript.Proofs.Grammar.ForLoops
import ClassScript.Proofs.Run.Rounds
import ClassScript.Proofs.Session.ForLoops
import ClassScript.Proofs.Parser.Shifted
import ClassScript.Proofs.Parser.Carried
import ClassScript.Proofs.Parser.CarriedExpressions
import ClassScript.Proofs.Parser.CarriedStatements
import ClassScript.Proofs.Parser.Concatenation
import ClassScript.Proofs.Grammar.Damaged
import ClassScript.Proofs.Parser.Reports
import ClassScript.Proofs.Parser.Recovery
import ClassScript.Proofs.Store.Evolution
import ClassScript.Proofs.Run.Operates
import ClassScript.Proofs.Run.Evolves
import ClassScript.Proofs.Session.Orderly
import ClassScript.Proofs.Run.Leaves
import ClassScript.Proofs.Session.Declarations
import ClassScript.Proofs.Collection.Cycles
import ClassScript.Proofs.Session.Garbage
import ClassScript.Proofs.Token.Spacing
import ClassScript.Proofs.Grammar.Nodes
import ClassScript.Proofs.Binding.Legal
import ClassScript.Proofs.Session.Keywords
import ClassScript.Proofs.Session.Construction
import ClassScript.Proofs.Dispatch.Vetted
import ClassScript.Proofs.Session.Accepted
import ClassScript.Proofs.Session.Guards
import ClassScript.Proofs.Store.Distances
import ClassScript.Proofs.Grammar.Printed
import ClassScript.Proofs.Session.Printing
import ClassScript.Proofs.Parser.Totality
import ClassScript.Proofs.Grammar.EntryLists
import ClassScript.Proofs.Parser.EntryFaults
import ClassScript.Proofs.Parser.LongLists
import ClassScript.Proofs.Parser.Unterminated
import ClassScript.Proofs.Number.Rounding
import ClassScript.Proofs.Number.Bits
import ClassScript.Proofs.Number.Positional
import ClassScript.Proofs.Number.ReadBack
import ClassScript.Proofs.Binding.Inserted
import ClassScript.Proofs.Session.Identities
import ClassScript.Proofs.Form.Texts
import ClassScript.Proofs.Form.Trees
import ClassScript.Proofs.Grammar.Unlined
import ClassScript.Proofs.Grammar.Literals
import ClassScript.Proofs.Form.Reading
import ClassScript.Proofs.Form.Scanned
import ClassScript.Proofs.Form.Parsed
