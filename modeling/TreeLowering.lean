import TreeLowering.Grammar.Match
import TreeLowering.Main
import TreeLowering.Proofs.AdjacentLiterals
import TreeLowering.Proofs.ChainRanges
import TreeLowering.Proofs.CheckAndLower
import TreeLowering.Proofs.ComparisonChain
import TreeLowering.Proofs.ConditionalChain
import TreeLowering.Proofs.Conservation
import TreeLowering.Proofs.DecoratedDefinitions
import TreeLowering.Proofs.DottedAccess
import TreeLowering.Proofs.DumpReading
import TreeLowering.Proofs.Enclosure
import TreeLowering.Proofs.FilledBlocks
import TreeLowering.Proofs.FirstFailure
import TreeLowering.Proofs.FractionOption
import TreeLowering.Proofs.ImportClauses
import TreeLowering.Proofs.IntegerNumerals
import TreeLowering.Proofs.LeafMatch
import TreeLowering.Proofs.LosslessDump
import TreeLowering.Proofs.MatchLayout
import TreeLowering.Proofs.MetadataIndependence
import TreeLowering.Proofs.NodeBuilding
import TreeLowering.Proofs.OperatorFamily
import TreeLowering.Proofs.OperatorSpelling
import TreeLowering.Proofs.ParameterDefaults
import TreeLowering.Proofs.ParameterGroups
import TreeLowering.Proofs.Placeholder
import TreeLowering.Proofs.Regrouping
import TreeLowering.Proofs.StringDelimiters
import TreeLowering.Proofs.TargetBinding
import TreeLowering.Proofs.TreeExchange
import TreeLowering.Proofs.TruncatedFractions
import TreeLowering.Proofs.TryClauses
import TreeLowering.Proofs.UsagePlacement
