import CedarSpec.HashTable
import CedarSpec.ClassPeeling
import CedarSpec.RequestEnvs
import CedarSpec.Analysis
import CedarSpec.AnalysisTables
import CedarSpec.AnalysisOracle
import CedarSpec.AnalysisPass
import CedarSpec.AnalysisExact
import CedarSpec.AnalysisOrder
import CedarSpec.RandomGen
import CedarSpec.IndexCollections
import CedarSpec.Acyclic
import CedarSpec.HierarchyGen
import CedarSpec.HierarchyPool
import CedarSpec.HierarchyUids
import CedarSpec.HierarchyParents
import CedarSpec.HierarchyEnds
import CedarSpec.HierarchyEntities
import CedarSpec.ByteSource
import CedarSpec.HierarchyTermination
import CedarSpec.HierarchyAcyclic
import CedarSpec.ExtValues
import CedarSpec.ExtDatatypes
import CedarSpec.NumberText
import CedarSpec.IPAddrText
import CedarSpec.IPv6Text
import CedarSpec.ExtText
import CedarSpec.ByteParser
import CedarSpec.Protobuf
import CedarSpec.ProtoWire
import CedarSpec.ProtobufReads
import CedarSpec.SymTerm
import CedarSpec.TermTypeProto
import CedarSpec.TermProto
import CedarSpec.Messages
import CedarSpec.Transmission
import CedarSpec.TermTypeTransfer
import CedarSpec.TermTransfer
import CedarSpec.TermBoundary
import CedarSpec.SmtLib
import CedarSpec.TermTyping
import CedarSpec.Encoder
import CedarSpec.EncoderSteps
import CedarSpec.EncoderText
import CedarSpec.EncoderRuns
import CedarSpec.EncoderTermRuns
import CedarSpec.EncoderScript
import CedarSpec.SmtTheory
import CedarSpec.SmtScript
import CedarSpec.SmtScope
import CedarSpec.TermMeaning
import CedarSpec.EncoderNames
import CedarSpec.EncoderMeaning
import CedarSpec.EncoderBodies
import CedarSpec.EncoderOperators
import CedarSpec.EncoderAccepted
import CedarSpec.EncoderValues
import CedarSpec.EncoderModels
import CedarSpec.TermSoundness
