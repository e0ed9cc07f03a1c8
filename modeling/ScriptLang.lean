import ScriptLang.Main
import ScriptLang.Proofs.Grammar.Reading
import ScriptLang.Proofs.Parsing.Soundness
import ScriptLang.Syntax.Reference
import ScriptLang.Proofs.Parsing.Taking
import ScriptLang.Proofs.Parsing.Completeness
import ScriptLang.Proofs.Grammar.Closure
import ScriptLang.Proofs.Parsing.Acceptance
import ScriptLang.Proofs.Grammar.Shape
import ScriptLang.Proofs.Grammar.Writing
import ScriptLang.Proofs.Grammar.Rewriting
import ScriptLang.Proofs.Parsing.RoundTrip
import ScriptLang.Proofs.Running.Hosts
import ScriptLang.Proofs.Recording.Erasure
import ScriptLang.Proofs.Chronicle.Observation
import ScriptLang.Proofs.Chronicle.Frames
import ScriptLang.Proofs.Chronicle.Names
import ScriptLang.Proofs.Chronicle.Scoped
import ScriptLang.Proofs.Chronicle.Standing
import ScriptLang.Proofs.Chronicle.Growth
import ScriptLang.Proofs.Chronicle.Keeping
import ScriptLang.Proofs.Chronicle.Primitives
import ScriptLang.Proofs.Chronicle.Declaring
import ScriptLang.Proofs.Chronicle.Evaluating
import ScriptLang.Proofs.Chronicle.Execution
import ScriptLang.Proofs.Chronicle.History
import ScriptLang.Proofs.Chronicle.Agreement
import ScriptLang.Proofs.Chronicle.Undefined
import ScriptLang.Proofs.Running.Conduct
import ScriptLang.Proofs.Running.Discipline
import ScriptLang.Proofs.Parsing.Compiling
import ScriptLang.Proofs.Running.Signals
import ScriptLang.Proofs.Renaming.Occurrence
import ScriptLang.Proofs.Resolution.Resolved
import ScriptLang.Proofs.Resolution.Status
import ScriptLang.Proofs.Renaming.Scopes
import ScriptLang.Proofs.Renaming.Declaring
import ScriptLang.Proofs.Renaming.Invariance
import ScriptLang.Proofs.Lines.Moving
import ScriptLang.Proofs.Recoding.Linking
import ScriptLang.Proofs.Recoding.Running
import ScriptLang.Proofs.Lines.Running
import ScriptLang.Proofs.Lines.Reading
import ScriptLang.Proofs.Lines.Resolving
import ScriptLang.Proofs.Lines.Scanning
import ScriptLang.Proofs.Lines.Joining
import ScriptLang.Proofs.Layout.Reading
import ScriptLang.Proofs.Layout.Resolving
import ScriptLang.Proofs.Layout.Sessions
import ScriptLang.Proofs.Numbering.Drawing
import ScriptLang.Proofs.Numbering.Freshness
import ScriptLang.Proofs.Numbering.Table
import ScriptLang.Proofs.Numbering.Sessions
import ScriptLang.Proofs.Resolution.Position
import ScriptLang.Proofs.Resolution.Visibility
import ScriptLang.Proofs.Resolution.Sight
import ScriptLang.Proofs.Resolution.Walk
import ScriptLang.Source.Cursor
import ScriptLang.Proofs.Scanning.Lexeme
import ScriptLang.Proofs.Scanning.Comments
import ScriptLang.Proofs.Scanning.Tiling
import ScriptLang.Proofs.Scanning.Cursors
import ScriptLang.Proofs.Scanning.Rounds
import ScriptLang.Proofs.Scanning.Sources
import ScriptLang.Proofs.Parsing.Seams
import ScriptLang.Proofs.Parsing.Extending
import ScriptLang.Proofs.Parsing.Isolation
import ScriptLang.Proofs.Output.Sinks
import ScriptLang.Proofs.Output.Traced
import ScriptLang.Proofs.Output.Cutting
import ScriptLang.Proofs.Output.Limits
import ScriptLang.Proofs.Interaction.Lines
import ScriptLang.Proofs.Interaction.Loop
import ScriptLang.Proofs.Running.Fuel
import ScriptLang.Proofs.Desugaring.Skipping
import ScriptLang.Proofs.Desugaring.Resolving
import ScriptLang.Proofs.Desugaring.Worlds
import ScriptLang.Proofs.Desugaring.Simulation
import ScriptLang.Proofs.Desugaring.Closed
import ScriptLang.Proofs.Desugaring.Loops
import ScriptLang.Proofs.Desugaring.Meaning
import ScriptLang.Proofs.Captured.Regions
import ScriptLang.Proofs.Captured.Confinement
import ScriptLang.Proofs.Calls.Moments
import ScriptLang.Proofs.Calls.Counting
import ScriptLang.Proofs.Calls.Limits
import ScriptLang.Proofs.Captured.Encapsulation
import ScriptLang.Proofs.Scanning.LineNumbers
import ScriptLang.Syntax.Indexed
import ScriptLang.Proofs.Indexing.Following
import ScriptLang.Proofs.Indexing.Parts
import ScriptLang.Proofs.Indexing.Rules
import ScriptLang.Proofs.Indexing.Safety
import ScriptLang.Proofs.Parsing.EntryPoints
import ScriptLang.Proofs.Scanning.Joining
import ScriptLang.Proofs.Scanning.Respelling
import ScriptLang.Proofs.Reporting.Advancing
import ScriptLang.Proofs.Reporting.Reading
import ScriptLang.Proofs.Reporting.Resolving
import ScriptLang.Proofs.Reporting.Diagnostics
import ScriptLang.Proofs.Scanning.Balance
import ScriptLang.Proofs.Nesting.Watched
import ScriptLang.Proofs.Nesting.Counting
import ScriptLang.Proofs.Nesting.Reading
import ScriptLang.Proofs.Numerals.Patterns
import ScriptLang.Proofs.Numerals.Rounding
import ScriptLang.Proofs.Numerals.Digits
import ScriptLang.Proofs.Numerals.ReadingBack
import ScriptLang.Proofs.Printing.Bracketed
import ScriptLang.Proofs.Printing.Leaves
import ScriptLang.Proofs.Printing.Words
import ScriptLang.Proofs.Printing.Decoding
import ScriptLang.Proofs.Printing.Unambiguous
import ScriptLang.Proofs.Sharing.Histories
import ScriptLang.Proofs.Sharing.Laws
