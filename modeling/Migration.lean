import Migration.Calendar
import Migration.Catalog
import Migration.Cell
import Migration.Copy
import Migration.Copy.Progress
import Migration.Cursor
import Migration.Decimal
import Migration.Decimal.Shortest
import Migration.Draft
import Migration.Error
import Migration.Identifier
import Migration.Memory.Catalog
import Migration.Memory.Store
import Migration.Naming.Canonical
import Migration.Naming.Collision
import Migration.Naming.Ledger
import Migration.Naming.Policy
import Migration.Naming.Renamed
import Migration.Plan
import Migration.Postgres.Exchange
import Migration.Postgres.Numeric
import Migration.Postgres.Session
import Migration.Postgres.Value
import Migration.Postgres.Word
import Migration.Report
import Migration.Report.Document
import Migration.Run
import Migration.Settings
import Migration.Settings.Decode
import Migration.Source
import Migration.SqlServer.Catalog
import Migration.SqlServer.Exchange
import Migration.SqlServer.Value
import Migration.Statement
import Migration.Statement.Default
import Migration.Statement.Preview
import Migration.Step
import Migration.Substitution
import Migration.Text.Blank
import Migration.Text.Bytes
import Migration.Text.Digits
import Migration.Text.Display
import Migration.Text.Json
import Migration.Text.Letter
import Migration.Text.Lowercase
import Migration.Text.Range
import Migration.Text.Replace
import Migration.Token
import Migration.Token.Keyword
import Migration.Token.Lexer
import Migration.Total
import Migration.TypeMap
import Migration.TypeMap.Postgres
import Migration.TypeMap.SqlServer
import Migration.Yaml.Directive
import Migration.Yaml.Mark
import Migration.Yaml.Node
import Migration.Yaml.Scalar
import Migration.Yaml.Tag
import Migration.Yaml.Token
import Migration.Proofs.Lexing
import Migration.Proofs.TargetName
import Migration.Proofs.Substitution
import Migration.Proofs.Quoting
import Migration.Proofs.TokenBoundaries
import Migration.Proofs.BatchedCopy
import Migration.Proofs.Drafting
import Migration.Proofs.TableStatements
import Migration.Proofs.TableLoss
import Migration.Proofs.Agreement
import Migration.Proofs.Attempts
import Migration.Proofs.Ambiguity
import Migration.Proofs.ModuleNames
import Migration.Proofs.References
import Migration.Proofs.RowQueries
import Migration.Proofs.CopiedRows
import Migration.Proofs.TokenCuts
import Migration.Proofs.OpenDelimiters
import Migration.Proofs.QuotedTokens
import Migration.Proofs.WovenNames
import Migration.Proofs.StatementTokens
import Migration.Proofs.AnswerLog
import Migration.Proofs.HaltedRuns
import Migration.Proofs.ModuleTurns
import Migration.Proofs.LostViews
import Migration.Proofs.ModuleAccounts
import Migration.Proofs.Recreation
import Migration.Proofs.LedgerSessions
import Migration.Proofs.EventOrder
import Migration.Proofs.DataIndependence
import Migration.Proofs.PhaseWords
import Migration.Proofs.PhaseOrder
import Migration.Proofs.TypeNames
import Migration.Proofs.ColumnTypes
import Migration.Proofs.RenderedNames
import Migration.Proofs.Spellings
import Migration.Proofs.NumberedNames
import Migration.Proofs.WordBoundaries
import Migration.Proofs.CanonicalNames
import Migration.Proofs.NameBytes
import Migration.Proofs.Placeholders
import Migration.Proofs.Registrations
import Migration.Proofs.ReverseIndex
import Migration.Proofs.ClosedDefaults
import Migration.Proofs.WrappedDefaults
import Migration.Proofs.GroupedRows
import Migration.Proofs.SkippedTables
import Migration.Proofs.Digits
import Migration.Proofs.CellTexts
import Migration.Proofs.Splicing
import Migration.Proofs.DirectRuns
