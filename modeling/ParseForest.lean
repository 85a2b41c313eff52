import ParseForest.Build.Roots
import ParseForest.Declaration.Evaluation
import ParseForest.Grammar.Json
import ParseForest.Registry.Standard
import ParseForest.Tree.Printer
import ParseForest.Proofs.Declaration.Grounding
import ParseForest.Proofs.Declaration.Preservation
import ParseForest.Proofs.Declaration.Record
import ParseForest.Proofs.Declaration.Residue
import ParseForest.Proofs.Fragment.Optimality
import ParseForest.Proofs.Reading.Coverage
import ParseForest.Proofs.Reading.Transparency
import ParseForest.Proofs.Types.Coherence
import ParseForest.Proofs.Reading.Flags
import ParseForest.Proofs.Fragment.Lifting
import ParseForest.Proofs.Fragment.Nesting
import ParseForest.Proofs.Grammar.Documents
import ParseForest.Proofs.Reading.Retention
import ParseForest.Proofs.Reading.Conformity
import ParseForest.Proofs.Declaration.Shapes
import ParseForest.Proofs.Reading.ListClusters
import ParseForest.Proofs.Reading.Layout
import ParseForest.Proofs.Reading.Grouping
import ParseForest.Proofs.Reading.Modules
import ParseForest.Proofs.Reading.Sizes
import ParseForest.Proofs.Declaration.Ties
import ParseForest.Proofs.Fragment.Text
import ParseForest.Proofs.Reading.Separators
import ParseForest.Proofs.Reading.Literals
import ParseForest.Proofs.Reading.AmbiguousLayout
import ParseForest.Proofs.Symbol.Matching
import ParseForest.Proofs.Declaration.Redeclaration
import ParseForest.Proofs.Declaration.Labels
import ParseForest.Proofs.Declaration.Qualification
import ParseForest.Proofs.Position
import ParseForest.Proofs.Types.Permanence
import ParseForest.Proofs.Symbol.SeparatedLists
import ParseForest.Proofs.Declaration.UserTypes
import ParseForest.Proofs.Cost.Order
import ParseForest.Proofs.Registry.History
import ParseForest.Proofs.Forest.Concatenation
import ParseForest.Proofs.Declaration.Countdown
