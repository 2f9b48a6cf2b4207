import Glossary.CommandLine.Arguments
import Glossary.CommandLine.FileTree
import Glossary.CommandLine.Path
import Glossary.CommandLine.Session
import Glossary.CommandLine.Settings
import Glossary.CommandLine.Variables
import Glossary.Compilation
import Glossary.Diagnostic
import Glossary.Dictionary.Block
import Glossary.Dictionary.Line
import Glossary.Dictionary.Statement
import Glossary.Dictionary.Terms
import Glossary.Graph.Basic
import Glossary.Graph.Build
import Glossary.Graph.Enumeration
import Glossary.Listing
import Glossary.Main
import Glossary.Name
import Glossary.Proofs.Acceptance
import Glossary.Proofs.Agreement
import Glossary.Proofs.Ancestors
import Glossary.Proofs.Draft
import Glossary.Proofs.Fallible
import Glossary.Proofs.Independence
import Glossary.Proofs.InheritanceCycles
import Glossary.Proofs.JoinKeys
import Glossary.Proofs.JoinPath
import Glossary.Proofs.Locality
import Glossary.Proofs.Memory
import Glossary.Proofs.Nullability
import Glossary.Proofs.Reordering
import Glossary.Proofs.Resolvability
import Glossary.Proofs.Scripts
import Glossary.Proofs.Sharing
import Glossary.Proofs.StatementColumns
import Glossary.Proofs.Table
import Glossary.Proofs.ViewAssembly
import Glossary.Proofs.ViewAttachments
import Glossary.Proofs.ViewForest
import Glossary.Proofs.ViewScope
import Glossary.Proofs.ViewSimulation
import Glossary.Resolve.Draft
import Glossary.Resolve.Inheritance
import Glossary.Resolve.Memory
import Glossary.Resolve.Request
import Glossary.Resolve.Sharing
import Glossary.Resolve.Table
import Glossary.Resolve.View
import Glossary.Schema.Basic
import Glossary.Schema.Document
import Glossary.Schema.Validation
import Glossary.Sql.Error
import Glossary.Sql.Generator
import Glossary.Sql.Identifier
import Glossary.Sql.Query
import Glossary.Sql.Script
import Glossary.Sql.Table
import Glossary.Sql.TypeMap
import Glossary.Term
import Glossary.Text.Blank
import Glossary.Text.CaseTable
import Glossary.Text.ControlSequence
import Glossary.Text.DecimalDigit
import Glossary.Text.Json
import Glossary.Text.JsonReader
import Glossary.Text.Lines
import Glossary.Text.Lowercase
import Glossary.Text.Printable
import Glossary.Text.Quoted
import Glossary.Text.Ranges
import Glossary.Text.Template
import Glossary.Text.Template.Subject
import Glossary.Text.Utf8
import Glossary.Proofs.Reordering
import Glossary.Proofs.Evaluation
import Glossary.Proofs.ViewTerms
import Glossary.Proofs.Attributes
import Glossary.Proofs.RowPreservation
import Glossary.Proofs.EmbeddedViews
import Glossary.Proofs.SelfContainment
import Glossary.Proofs.RowSurvival
import Glossary.Proofs.IntegrityChecks
import Glossary.Proofs.OrphanRows
import Glossary.Proofs.Strictness
import Glossary.Proofs.HiddenAmbiguities
import Glossary.Proofs.Pool
import Glossary.Proofs.Generation
import Glossary.Proofs.Isolation
import Glossary.Proofs.FileWriting
import Glossary.Proofs.ScriptTexts
import Glossary.Proofs.ArtifactFiles
import Glossary.Proofs.Words
import Glossary.Proofs.Declarations
import Glossary.Proofs.Outlines
import Glossary.Proofs.Composition
import Glossary.Proofs.Rendering
import Glossary.Proofs.VerbSpelling
import Glossary.Proofs.EnumeratedStatements
import Glossary.Proofs.Lookups
import Glossary.Proofs.GroundedScripts
import Glossary.Proofs.ShownTerms
import Glossary.Proofs.ReportedCycles
import Glossary.Proofs.SoleIdentifier
import Glossary.Proofs.AncestorOrder
import Glossary.Proofs.ColumnSelection
import Glossary.Proofs.TypedSchemas
import Glossary.Text.Pattern
import Glossary.Dictionary.Grammar
import Glossary.Proofs.TrimmedTexts
import Glossary.Proofs.Patterns
import Glossary.Proofs.StatementPattern
import Glossary.Proofs.Names
import Glossary.Proofs.BlankHeadings
import Glossary.Proofs.ReferredNames
import Glossary.Proofs.Linkability
import Glossary.Proofs.QuotedNames
import Glossary.Proofs.TableStatements
import Glossary.Proofs.WellFormedSchemas
import Glossary.Proofs.AcceptedSchemas
import Glossary.Proofs.NamelessColumns
import Glossary.Proofs.LowerForms
import Glossary.Proofs.DerivedNames
import Glossary.Proofs.NestedCalls
import Glossary.Proofs.Termination
