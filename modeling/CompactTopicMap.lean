import CompactTopicMap.Main
import CompactTopicMap.Resolver
import CompactTopicMap.Settings.Object
import CompactTopicMap.Json.Printer
import CompactTopicMap.Graph.Build
import CompactTopicMap.Proofs.Matching.Bindings
import CompactTopicMap.Proofs.Matching.Claims
import CompactTopicMap.Proofs.Adaptivity
import CompactTopicMap.Proofs.Rejection
import CompactTopicMap.Proofs.Built
import CompactTopicMap.Proofs.Emission
import CompactTopicMap.Proofs.Tracing
import CompactTopicMap.Proofs.AtMostOnce
import CompactTopicMap.Proofs.Completeness
import CompactTopicMap.Proofs.Mining.Explicit
import CompactTopicMap.Proofs.Mining.Mined
import CompactTopicMap.Proofs.Mining.Ordinals
import CompactTopicMap.Proofs.Mining.Counts
import CompactTopicMap.Proofs.Mining.Variables
import CompactTopicMap.Proofs.Mining.Merged
import CompactTopicMap.Proofs.Mining.Transparent
import CompactTopicMap.Proofs.Naming.PercentDecoding
import CompactTopicMap.Proofs.Naming.Injectivity
import CompactTopicMap.Proofs.Matching.Datatypes
import CompactTopicMap.Proofs.Matching.Associations
import CompactTopicMap.Proofs.Merging.Factoring
import CompactTopicMap.Proofs.Merging.Candidates
import CompactTopicMap.Proofs.Merging.Bodies
import CompactTopicMap.Proofs.Matching.Search
import CompactTopicMap.Proofs.Merging.Applicability
import CompactTopicMap.Proofs.Locality.Steps
import CompactTopicMap.Proofs.Locality.Topics
import CompactTopicMap.Proofs.Merging.Names
import CompactTopicMap.Proofs.Matching.Places
import CompactTopicMap.Proofs.Matching.Solutions
import CompactTopicMap.Proofs.Parameters
import CompactTopicMap.Proofs.Mining.Applicable
import CompactTopicMap.Proofs.Matching.Antitone
import CompactTopicMap.Proofs.Extension
import CompactTopicMap.Proofs.Integrity
import CompactTopicMap.Proofs.DocumentLayout
import CompactTopicMap.Proofs.DefinitionLayout
import CompactTopicMap.Proofs.Exhaustion
import CompactTopicMap.Proofs.Literals.Quotation
import CompactTopicMap.Proofs.Literals.Delimited
import CompactTopicMap.Proofs.Mining.Freshness
import CompactTopicMap.Proofs.Typing.Decoding
import CompactTopicMap.Proofs.Typing.Recording
import CompactTopicMap.Proofs.Encoding
import CompactTopicMap.Proofs.Naming.Labels
import CompactTopicMap.Proofs.Merging.EntryOrder
import CompactTopicMap.Proofs.Merging.Materialised
import CompactTopicMap.Proofs.Naming.Remembered
import CompactTopicMap.Proofs.Naming.DetectedLabels
import CompactTopicMap.Proofs.DefinitionOrder
import CompactTopicMap.Proofs.Merging.Subsets
import CompactTopicMap.Proofs.PassedVariables
import CompactTopicMap.Proofs.BufferContent
import CompactTopicMap.Proofs.Validation
