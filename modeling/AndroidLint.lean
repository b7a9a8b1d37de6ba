import AndroidLint.Fixture
import AndroidLint.Main
import AndroidLint.Watch
import AndroidLint.Proofs.FormatPattern
import AndroidLint.Proofs.FormatScan
import AndroidLint.Proofs.Bytes
import AndroidLint.Proofs.FormatLoops
import AndroidLint.Proofs.Findings
import AndroidLint.Proofs.ReportOrder
import AndroidLint.Proofs.Selection
import AndroidLint.Proofs.FileOrder
import AndroidLint.Proofs.XmlEvents
import AndroidLint.Proofs.XmlAttributes
import AndroidLint.Proofs.XmlBuilder
import AndroidLint.Proofs.XmlRanges
import AndroidLint.Proofs.Edits
import AndroidLint.Proofs.FixRanges
import AndroidLint.Proofs.Replacements
import AndroidLint.Proofs.Groups
import AndroidLint.Proofs.FixRuns
import AndroidLint.Proofs.Baselines
import AndroidLint.Proofs.JavaScopes
import AndroidLint.Proofs.PermissionGrants
import AndroidLint.Proofs.DirectiveText
import AndroidLint.Proofs.FormatFixes
import AndroidLint.Proofs.EditOrder
import AndroidLint.Proofs.IssueNames
import AndroidLint.Proofs.PathPatterns
import AndroidLint.Proofs.Watching
import AndroidLint.Proofs.ArgumentNumbers
import AndroidLint.Proofs.EscapeFixes
import AndroidLint.Proofs.FormatAgreement
import AndroidLint.Proofs.XmlOrder
import AndroidLint.Proofs.XmlData
import AndroidLint.Proofs.XmlReferences
import AndroidLint.Proofs.XmlOutline
import AndroidLint.Proofs.XmlInsertion
import AndroidLint.Proofs.XmlReplacement
import AndroidLint.Proofs.SpecifierCopies
import AndroidLint.Proofs.SpecifierPlaces
import AndroidLint.Proofs.DuplicateDefinitions
import AndroidLint.Proofs.CharacterData
import AndroidLint.Proofs.EscapeContents
import AndroidLint.Proofs.XmlNamespaces
import AndroidLint.Proofs.XmlTexts
import AndroidLint.Proofs.AttributeRendering
import AndroidLint.Proofs.LinePatches
import AndroidLint.Proofs.Positions
import AndroidLint.Proofs.PatternMeaning
import AndroidLint.Proofs.Readers
import AndroidLint.Proofs.JavaShapes
import AndroidLint.Proofs.JavaFiles
import AndroidLint.Proofs.JavaVisits
import AndroidLint.Proofs.JavaCatches
import AndroidLint.Proofs.JavaExprTypes
import AndroidLint.Proofs.JavaTypes
import AndroidLint.Proofs.ClassNames
import AndroidLint.Proofs.ClassChains
import AndroidLint.Proofs.ConstantChains
import AndroidLint.Proofs.ConstantSets
import AndroidLint.Proofs.WholeNumbers
import AndroidLint.Proofs.QuotedLiterals
import AndroidLint.Proofs.Excerpts
import AndroidLint.Proofs.BackupFixes
import AndroidLint.Proofs.Negations
import AndroidLint.Proofs.QuoteRemoval
import AndroidLint.Proofs.VariableTypes
