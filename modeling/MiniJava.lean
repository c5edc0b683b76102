import MiniJava.Analysis.Basic
import MiniJava.Analysis.Call
import MiniJava.Analysis.Declaration
import MiniJava.Analysis.DeclarationOrder
import MiniJava.Analysis.Declared
import MiniJava.Analysis.Nodes
import MiniJava.Analysis.Reentry
import MiniJava.Analysis.Rename
import MiniJava.Analysis.Rules
import MiniJava.Analysis.Scope
import MiniJava.Analysis.SourceNames
import MiniJava.Analysis.Typing
import MiniJava.Analysis.Violation
import MiniJava.CommandLine.Arguments
import MiniJava.CommandLine.Run
import MiniJava.Digits
import MiniJava.Error
import MiniJava.Json.Basic
import MiniJava.Json.Printer
import MiniJava.Json.Reader
import MiniJava.Json.Token
import MiniJava.Layout
import MiniJava.Main
import MiniJava.Program.Basic
import MiniJava.Program.Cursor
import MiniJava.Program.Derivation
import MiniJava.Program.Grammar
import MiniJava.Program.Map
import MiniJava.Program.Names
import MiniJava.Program.Parser
import MiniJava.Program.Phrases
import MiniJava.Program.Printer
import MiniJava.Program.Spans
import MiniJava.Program.SyntaxError
import MiniJava.Program.Walk
import MiniJava.Proofs.Agreement
import MiniJava.Proofs.Batches
import MiniJava.Proofs.ClassOrder
import MiniJava.Proofs.CursorSteps
import MiniJava.Proofs.DebugLog
import MiniJava.Proofs.Declaration
import MiniJava.Proofs.DeclaredTable
import MiniJava.Proofs.DeclaredTypes
import MiniJava.Proofs.Derivation
import MiniJava.Proofs.Diagnostics
import MiniJava.Proofs.Extension
import MiniJava.Proofs.FaultPosition
import MiniJava.Proofs.Fillers
import MiniJava.Proofs.FirstViolation
import MiniJava.Proofs.Formatting
import MiniJava.Proofs.InvalidCharacters
import MiniJava.Proofs.JsonRoundTrip
import MiniJava.Proofs.Lexemes
import MiniJava.Proofs.Lookahead
import MiniJava.Proofs.MemoryTiling
import MiniJava.Proofs.MessageSends
import MiniJava.Proofs.NameResolution
import MiniJava.Proofs.Naturality
import MiniJava.Proofs.NodeSpans
import MiniJava.Proofs.Outcome
import MiniJava.Proofs.Parentheses
import MiniJava.Proofs.ParserCompleteness
import MiniJava.Proofs.ParserSoundness
import MiniJava.Proofs.PhraseSpans
import MiniJava.Proofs.PositionCode
import MiniJava.Proofs.ProgramRuns
import MiniJava.Proofs.ReaderRuns
import MiniJava.Proofs.Reentry
import MiniJava.Proofs.Relocation
import MiniJava.Proofs.Renaming
import MiniJava.Proofs.ReportRoundTrip
import MiniJava.Proofs.ReportedLayouts
import MiniJava.Proofs.RoundTrip
import MiniJava.Proofs.Subtyping
import MiniJava.Proofs.TableRuns
import MiniJava.Proofs.TableText
import MiniJava.Proofs.TextCut
import MiniJava.Proofs.TokenKinds
import MiniJava.Proofs.TokenRows
import MiniJava.Proofs.TypeSystem
import MiniJava.Proofs.Typesetting
import MiniJava.Proofs.Violations
import MiniJava.Proofs.WalkBounds
import MiniJava.Proofs.WalkDeclarations
import MiniJava.Proofs.WalkReaders
import MiniJava.Proofs.WalkSteps
import MiniJava.Report.Basic
import MiniJava.Report.Format
import MiniJava.SemanticError
import MiniJava.Span
import MiniJava.SymbolTable.Basic
import MiniJava.SymbolTable.Edit
import MiniJava.SymbolTable.Indexed
import MiniJava.SymbolTable.Printer
import MiniJava.SymbolTable.Rules
import MiniJava.Token.Basic
import MiniJava.Token.Lexer
import MiniJava.Ty
