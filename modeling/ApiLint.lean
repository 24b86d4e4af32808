import ApiLint.Main
import ApiLint.Settings.Logging
import ApiLint.Proofs.Locations
import ApiLint.Proofs.Walking
import ApiLint.Proofs.Nodes
import ApiLint.Proofs.Reading
import ApiLint.Proofs.Following
import ApiLint.Proofs.Loading
import ApiLint.Proofs.Documents
import ApiLint.Proofs.Occurrences
import ApiLint.Proofs.Reaching
import ApiLint.Proofs.WalkCoverage
import ApiLint.Proofs.Slots
import ApiLint.Proofs.Locating
import ApiLint.Proofs.BoundedSearch
import ApiLint.Proofs.DefinedProperties
import ApiLint.Proofs.Loops
import ApiLint.Proofs.DeadEnds
import ApiLint.Proofs.JsonTrees
import ApiLint.Proofs.Mirroring
import ApiLint.Proofs.Fragments
import ApiLint.Proofs.SelfContained
import ApiLint.Proofs.Addresses
import ApiLint.Proofs.Registration
import ApiLint.Proofs.Holding
import ApiLint.Proofs.Ownership
import ApiLint.Proofs.CommonUrls
import ApiLint.Proofs.AmbiguityLaws
import ApiLint.Proofs.VariableTypes
import ApiLint.Proofs.Unmarked
import ApiLint.Proofs.Declarations
import ApiLint.Proofs.PathOrder
import ApiLint.Proofs.Verdicts
import ApiLint.Proofs.Findings
import ApiLint.Proofs.Reports
import ApiLint.Proofs.Runs
import ApiLint.Proofs.Reporting
import ApiLint.Proofs.Deadlines
import ApiLint.Proofs.Coverage
import ApiLint.Proofs.Phrases
import ApiLint.Proofs.Compiling
import ApiLint.Proofs.Reasons
import ApiLint.Proofs.PlainSchemas
import ApiLint.Proofs.PlainReading
import ApiLint.Proofs.Nulls
import ApiLint.Proofs.CopyBudget
import ApiLint.Proofs.Serialization
import ApiLint.Proofs.Origins
import ApiLint.Proofs.FindingSpots
import ApiLint.Proofs.FindingPaths
import ApiLint.Proofs.Attachment
import ApiLint.Proofs.ParameterReports
import ApiLint.Proofs.SingleEntries
import ApiLint.Proofs.PointerText
import ApiLint.Proofs.RepeatedKeys
import ApiLint.Proofs.PlainScalars
import ApiLint.Proofs.Spans
import ApiLint.Proofs.FindingSpans
import ApiLint.Proofs.Configuring
import ApiLint.Proofs.Hops
import ApiLint.Proofs.Outcomes
import ApiLint.Proofs.Pools
import ApiLint.Proofs.Memos
import ApiLint.Proofs.Templates
import ApiLint.Proofs.Placing
import ApiLint.Proofs.Validations
