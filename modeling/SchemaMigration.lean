import SchemaMigration.Main
import SchemaMigration.Proofs.LexicalPaths
import SchemaMigration.Proofs.NormalPaths
import SchemaMigration.Proofs.Relocation
import SchemaMigration.Proofs.PathSets
import SchemaMigration.Proofs.Reachability
import SchemaMigration.Proofs.UsageGraph
import SchemaMigration.Proofs.BaseGraph
import SchemaMigration.Proofs.BaseOrder
import SchemaMigration.Proofs.Intermediates
import SchemaMigration.Proofs.CanonicalPaths
import SchemaMigration.Proofs.DryRun
import SchemaMigration.Proofs.Composition
import SchemaMigration.Proofs.Loading
import SchemaMigration.Proofs.Visits
import SchemaMigration.Proofs.Accounting
import SchemaMigration.Proofs.Forecast
import SchemaMigration.Proofs.OutputPaths
import SchemaMigration.Proofs.KeptFiles
import SchemaMigration.Proofs.References
import SchemaMigration.Proofs.ConnectedMixins
import SchemaMigration.Proofs.SkippedFiles
import SchemaMigration.Proofs.Reading
import SchemaMigration.Proofs.ExpressionRules
import SchemaMigration.Proofs.MemberPlaces
import SchemaMigration.Proofs.StatementPlaces
import SchemaMigration.Proofs.Identifiers
import SchemaMigration.Proofs.IdentifierSearch
import SchemaMigration.Proofs.SourcePlaces
import SchemaMigration.Proofs.Extensions
import SchemaMigration.Proofs.Bindings
import SchemaMigration.Proofs.ComposedMembers
import SchemaMigration.Proofs.Rearrangement
import SchemaMigration.Proofs.BaseTraits
import SchemaMigration.Proofs.ReorderedBases
import SchemaMigration.Proofs.DiscoveredFiles
import SchemaMigration.Proofs.Rereading
import SchemaMigration.Proofs.ImportClauses
import SchemaMigration.Proofs.WrittenImports
import SchemaMigration.Proofs.PartialImports
import SchemaMigration.Proofs.NumberTokens
import SchemaMigration.Proofs.LexedExpressions
import SchemaMigration.Proofs.ReadOptions
import SchemaMigration.Proofs.RereadBrackets
import SchemaMigration.Proofs.WrittenFiles
import SchemaMigration.Proofs.FilePlaces
import SchemaMigration.Proofs.RereadOptions
import SchemaMigration.Proofs.RereadSteps
import SchemaMigration.Proofs.SurvivingOptions
import SchemaMigration.Proofs.SpecifierPatterns
import SchemaMigration.Proofs.WildcardRoots
import SchemaMigration.Proofs.Resolution
import SchemaMigration.Proofs.MemberReadings
import SchemaMigration.Proofs.ClassifiedFiles
import SchemaMigration.Proofs.DashedNames
import SchemaMigration.Proofs.MappedSpecifiers
import SchemaMigration.Proofs.TraitNames
import SchemaMigration.Proofs.WrittenLiterals
import SchemaMigration.Proofs.HeritageChains
import SchemaMigration.Proofs.LayeredOptions
import SchemaMigration.Proofs.MirroredPlaces
import SchemaMigration.Proofs.JsonTexts
import SchemaMigration.Proofs.ConfigDocuments
import SchemaMigration.Proofs.SpelledNames
import SchemaMigration.Proofs.ExportedNames
