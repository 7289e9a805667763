import CanopenTables.AscendingMap
import CanopenTables.Numeral.Positional
import CanopenTables.Numeral.Binary64
import CanopenTables.Numeral.FixedPoint
import CanopenTables.Numeral.Shortest
import CanopenTables.Text.Uppercase
import CanopenTables.Text.Identifier
import CanopenTables.Value
import CanopenTables.Node
import CanopenTables.Profile
import CanopenTables.Entry
import CanopenTables.Files.Path
import CanopenTables.Files.Failure
import CanopenTables.DataType
import CanopenTables.DataType.Family
import CanopenTables.DataType.RangeName
import CanopenTables.Error
import CanopenTables.Notice
import CanopenTables.Reported
import CanopenTables.Dictionary
import CanopenTables.DataType.Resolver
import CanopenTables.Literal
import CanopenTables.Code.Symbol
import CanopenTables.Code.Variable
import CanopenTables.Code.Block
import CanopenTables.EntryCode
import CanopenTables.RangeType
import CanopenTables.Fallback
import CanopenTables.Navigation
import CanopenTables.Document
import CanopenTables.Generation
import CanopenTables.Files.Tree
import CanopenTables.Files.Script
import CanopenTables.Files.PairWriter
import CanopenTables.Publication
import CanopenTables.Proofs.Answers
import CanopenTables.Proofs.Identifiers
import CanopenTables.Proofs.EntryLayout
import CanopenTables.Proofs.Fallbacks
import CanopenTables.Proofs.Documents
import CanopenTables.Proofs.PrintedLines
import CanopenTables.Proofs.MappedVariables
import CanopenTables.Proofs.TargetNames
import CanopenTables.Proofs.Composition
import CanopenTables.Proofs.LiteralForms
import CanopenTables.Proofs.RangeAcceptance
import CanopenTables.Proofs.Acceptance
import CanopenTables.Proofs.QuickIndexBounds
import CanopenTables.Proofs.TableLookup
import CanopenTables.Proofs.FileOperations
import CanopenTables.Proofs.SiblingPaths
import CanopenTables.Proofs.PairReplacement
import CanopenTables.Proofs.FaultyRuns
import CanopenTables.Proofs.HeaderLast
import CanopenTables.Proofs.DictionarySection
import CanopenTables.Proofs.TableRows
import CanopenTables.Proofs.MappedNames
import CanopenTables.Proofs.SourceTokens
import CanopenTables.Proofs.DictionaryTexts
import CanopenTables.Proofs.Declarators
import CanopenTables.Proofs.RowStorage
import CanopenTables.Proofs.RangeRegistration
import CanopenTables.Proofs.RangeTags
import CanopenTables.Proofs.RangeLabels
import CanopenTables.Proofs.RangeChecks
import CanopenTables.Proofs.Notices
import CanopenTables.Proofs.AliasPointers
import CanopenTables.Proofs.CallbackArrays
import CanopenTables.Proofs.CallHistories
import CanopenTables.Proofs.TwoRuns
import CanopenTables.Proofs.ValueLines
import CanopenTables.Proofs.ShapeTargets
import CanopenTables.Proofs.DeclaredCounts
import CanopenTables.Proofs.TypeSizes
import CanopenTables.Proofs.NumberTexts
import CanopenTables.Proofs.LiteralValues
import CanopenTables.Proofs.FamilyNames
import CanopenTables.Proofs.RangeNames
import CanopenTables.Proofs.LocalSymbols
import CanopenTables.Proofs.WordRuns
import CanopenTables.Proofs.NamedPaths
import CanopenTables.Proofs.PairPaths
import CanopenTables.Proofs.InsertionHistories
import CanopenTables.Proofs.DecimalPlaces
