import PyTune.Text.WhiteSpace
import PyTune.Text.Identifier
import PyTune.Source
import PyTune.Token.Basic
import PyTune.Token.Scan
import PyTune.Token.Literal
import PyTune.Tree.Basic
import PyTune.Grammar.Error
import PyTune.Grammar.Cursor
import PyTune.Grammar.Expression
import PyTune.Grammar.Statement
import PyTune.Tree.Render
import PyTune.Edit.Decorate
import PyTune.Edit.Import
import PyTune.Edit.EntryPoint
import PyTune.Edit.Comments
import PyTune.Edit.Session
import PyTune.Method.Basic
import PyTune.Method.Apply
import PyTune.Path
import PyTune.Report
import PyTune.Main
import PyTune.Proofs.Session
import PyTune.Proofs.Printing
import PyTune.Proofs.Apply
import PyTune.Proofs.Reading
import PyTune.Proofs.Scanning
import PyTune.Proofs.Editing
import PyTune.Proofs.Lines
import PyTune.Proofs.Parsed
import PyTune.Proofs.Imports
import PyTune.Proofs.Commuting
import PyTune.Proofs.Functions
import PyTune.Proofs.Spelling
import PyTune.Proofs.DefFree
import PyTune.Proofs.Definitions
import PyTune.Proofs.LineEndings
import PyTune.Proofs.CrlfScanning
import PyTune.Proofs.LexemeCount
import PyTune.Proofs.CrlfLexing
import PyTune.Proofs.CrlfReading
import PyTune.Proofs.ScanStep
import PyTune.Proofs.LexicalFaults
import PyTune.Proofs.Brackets
import PyTune.Proofs.Indentation
import PyTune.Proofs.Binding
import PyTune.Proofs.CrlfExpressions
import PyTune.Proofs.CrlfStatements
import PyTune.Proofs.Tiling
import PyTune.Proofs.Nesting
import PyTune.Proofs.DecoratorShapes
import PyTune.Proofs.GuardDetection
import PyTune.Proofs.LogicalLines
import PyTune.Proofs.ClauseSequences
import PyTune.Proofs.OutputPaths
import PyTune.Proofs.SoftKeywords
import PyTune.Proofs.Targets
import PyTune.Proofs.ClauseLines
import PyTune.Proofs.LiteralValues
import PyTune.Proofs.LineBrackets
import PyTune.Proofs.RelativeImports
import PyTune.Proofs.ExpressionDepth
import PyTune.Proofs.StatementDepth
import PyTune.Proofs.LexemeSteps
import PyTune.Proofs.StatementSpans
import PyTune.Proofs.LineColumns
import PyTune.Proofs.CrlfParsing
import PyTune.Proofs.AddedLines
