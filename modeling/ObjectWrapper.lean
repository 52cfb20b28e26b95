import ObjectWrapper.Main
import ObjectWrapper.Proofs.CommandLine.RelativePath
import ObjectWrapper.Proofs.Condition.Derivation
import ObjectWrapper.Proofs.Declaration.Scanning
import ObjectWrapper.Proofs.Macro.Calls
import ObjectWrapper.Proofs.Macro.Elements
import ObjectWrapper.Proofs.Macro.HideSets
import ObjectWrapper.Proofs.Macro.LineOrder
import ObjectWrapper.Proofs.Preprocess.Nesting
import ObjectWrapper.Proofs.Preprocess.Splicing
import ObjectWrapper.Proofs.Preprocess.Steps
import ObjectWrapper.Proofs.Source.Position
import ObjectWrapper.Proofs.Source.RoundTrip
import ObjectWrapper.Proofs.Preprocess.Trace
import ObjectWrapper.Proofs.Source.LineFeeds
import ObjectWrapper.Proofs.Preprocess.LineKeeping
import ObjectWrapper.Proofs.Preprocess.LineOrder
import ObjectWrapper.Proofs.Macro.Rescan
import ObjectWrapper.Proofs.Source.Apart
import ObjectWrapper.Proofs.Macro.Apart
import ObjectWrapper.Proofs.Source.Coverage
import ObjectWrapper.Proofs.CommandLine.Parts
import ObjectWrapper.Proofs.Run.Frame
import ObjectWrapper.Proofs.Source.LiteralRun
import ObjectWrapper.Proofs.Macro.Reachability
import ObjectWrapper.Proofs.Condition.Relevance
import ObjectWrapper.Proofs.Preprocess.Malformed
import ObjectWrapper.Proofs.Preprocess.Inclusion
import ObjectWrapper.Proofs.Preprocess.Skipping
import ObjectWrapper.Proofs.Source.Stretches
import ObjectWrapper.Proofs.Preprocess.MainFile
import ObjectWrapper.Proofs.Preprocess.Procedure
import ObjectWrapper.Proofs.Declaration.SourceOrder
import ObjectWrapper.Proofs.Declaration.BaseClause
import ObjectWrapper.Proofs.Declaration.Places
import ObjectWrapper.Proofs.Declaration.BaseNames
import ObjectWrapper.Proofs.Declaration.QualifiedNames
import ObjectWrapper.Proofs.Source.Neighbours
import ObjectWrapper.Proofs.Condition.NeededOperands
import ObjectWrapper.Proofs.Condition.IntegerValue
import ObjectWrapper.Proofs.Condition.CharacterValue
import ObjectWrapper.Proofs.Wrapper.TableNames
import ObjectWrapper.Proofs.Macro.ArgumentLists
import ObjectWrapper.Proofs.Preprocess.Definitions
import ObjectWrapper.Proofs.Directive.HeaderName
import ObjectWrapper.Proofs.Condition.CommandLineValues
import ObjectWrapper.Proofs.CommandLine.Clashes
import ObjectWrapper.Proofs.CommandLine.OptionFiles
import ObjectWrapper.Proofs.Preprocess.IncludeDepth
import ObjectWrapper.Proofs.Run.MacroNames
import ObjectWrapper.Proofs.Text.RoundTrip
import ObjectWrapper.Proofs.Macro.Provenance
import ObjectWrapper.Proofs.Files.Search
import ObjectWrapper.Proofs.Source.Maximal
