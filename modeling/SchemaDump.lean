import SchemaDump.Dump
import SchemaDump.Json.Bytes
import SchemaDump.Report
import SchemaDump.Encoding
import SchemaDump.Files.Export
import SchemaDump.Files.Source
import SchemaDump.CommandLine.Run
import SchemaDump.Service
import SchemaDump.Service.Routing
import SchemaDump.Main
import SchemaDump.Proofs.Lists
import SchemaDump.Proofs.Pieces
import SchemaDump.Proofs.Statement.Scan
import SchemaDump.Proofs.Statement.Flags
import SchemaDump.Proofs.Statement.Grammar
import SchemaDump.Proofs.Blanks
import SchemaDump.Proofs.Readings
import SchemaDump.Proofs.Classification
import SchemaDump.Proofs.Completeness
import SchemaDump.Proofs.Statement.Split
import SchemaDump.Proofs.Files.Tree
import SchemaDump.Proofs.Files.Export
import SchemaDump.Proofs.Endings
import SchemaDump.Proofs.Columns
import SchemaDump.Proofs.Attachment
import SchemaDump.Proofs.Independence
import SchemaDump.Proofs.Statement.Tokens
import SchemaDump.Proofs.Statement.Append
import SchemaDump.Proofs.Modularity
import SchemaDump.Proofs.Statement.Sequence
import SchemaDump.Proofs.Headings
import SchemaDump.Proofs.Locality
import SchemaDump.Proofs.Enclosure
import SchemaDump.Proofs.Statement.Core
import SchemaDump.Proofs.Definitions
import SchemaDump.Proofs.Origins
import SchemaDump.Proofs.Reparse
import SchemaDump.Proofs.Encoding.Utf8
import SchemaDump.Proofs.Files.Fresh
import SchemaDump.Proofs.Files.Source
import SchemaDump.Proofs.Files.Slices
import SchemaDump.Proofs.Files.Containment
import SchemaDump.Proofs.Files.Access
import SchemaDump.Proofs.Files.Outcomes
import SchemaDump.Proofs.Files.Isolation
import SchemaDump.Proofs.CommandLine.Options
import SchemaDump.Proofs.CommandLine.Run
import SchemaDump.Proofs.Json.Strings
import SchemaDump.Proofs.Json.Documents
import SchemaDump.Proofs.Files.Absent
import SchemaDump.Proofs.Files.Unencodable
import SchemaDump.Proofs.FrontEnds
import SchemaDump.Proofs.Prefixes
import SchemaDump.Proofs.Identifiers
import SchemaDump.Proofs.Names
import SchemaDump.Proofs.Objects
import SchemaDump.Proofs.Creations
import SchemaDump.Proofs.Answers
import SchemaDump.Proofs.Attachables
import SchemaDump.Proofs.LetterCase
import SchemaDump.Proofs.Owners
import SchemaDump.Proofs.Statement.Passage
import SchemaDump.Proofs.Inlining
import SchemaDump.Proofs.Failures
import SchemaDump.Proofs.TableHeaders
import SchemaDump.Proofs.ColumnClauses
import SchemaDump.Proofs.IdentityClauses
import SchemaDump.Proofs.Statement.Inert
import SchemaDump.Proofs.ColumnList
import SchemaDump.Proofs.ColumnSpans
import SchemaDump.Proofs.SequenceOrder
import SchemaDump.Proofs.Statement.Items
import SchemaDump.Proofs.ConstraintItems
import SchemaDump.Proofs.ColumnItems
import SchemaDump.Proofs.Statement.BlockComments
import SchemaDump.Proofs.Extensions
import SchemaDump.Proofs.ClauseBlanks
import SchemaDump.Proofs.Indentation
import SchemaDump.Proofs.Number.Rounding
import SchemaDump.Proofs.Number.Numerals
import SchemaDump.Proofs.Report.Sizes
import SchemaDump.Proofs.Report.Limits
