import FfiHeaders.CommandLine.Report
import FfiHeaders.Files.Tree
import FfiHeaders.Main
import FfiHeaders.Proofs.IncludeOrder
import FfiHeaders.Proofs.TypeNames
import FfiHeaders.Proofs.Mentions
import FfiHeaders.Proofs.Run
import FfiHeaders.Proofs.Finalisation
import FfiHeaders.Proofs.AggregateHeader
import FfiHeaders.Proofs.DeclaratorReading
import FfiHeaders.Proofs.TypeReading
import FfiHeaders.Proofs.PrototypeReading
import FfiHeaders.Proofs.Exports
import FfiHeaders.Proofs.ModuleHeaders
import FfiHeaders.Proofs.LeastOrder
import FfiHeaders.Proofs.WordNames
import FfiHeaders.Proofs.CycleSearch
import FfiHeaders.Proofs.Session
import FfiHeaders.Proofs.Consistency
import FfiHeaders.Proofs.Deposits
import FfiHeaders.Proofs.EmissionOrder
import FfiHeaders.Proofs.PatternNames
import FfiHeaders.Proofs.AcceptedTypes
import FfiHeaders.Proofs.DeclaratorPlaces
import FfiHeaders.Proofs.Classification
import FfiHeaders.Proofs.SessionInvariant
import FfiHeaders.Proofs.DeclarationOrder
import FfiHeaders.Proofs.Pruning
import FfiHeaders.Proofs.TextNames
import FfiHeaders.Proofs.IncludeGuards
import FfiHeaders.Proofs.Composition
import FfiHeaders.Proofs.Blame
import FfiHeaders.Proofs.Leftovers
import FfiHeaders.Proofs.DocumentWriting
import FfiHeaders.Proofs.LanguageRegistry
import FfiHeaders.Proofs.DeclaredNames
import FfiHeaders.Proofs.SharedHeaders
import FfiHeaders.Proofs.HeaderPlaces
import FfiHeaders.Proofs.FileChanges
import FfiHeaders.Proofs.CommandLineRun
import FfiHeaders.Proofs.RejectionPlaces
import FfiHeaders.Proofs.ParameterLists
import FfiHeaders.Proofs.DocumentGrammar
import FfiHeaders.Proofs.MemberReading
import FfiHeaders.Proofs.UnrelatedHeaders
import FfiHeaders.Proofs.LayoutQualifiers
import FfiHeaders.Proofs.DefaultLanguage
import FfiHeaders.Proofs.SourceText
import FfiHeaders.Proofs.RecoveredNames
