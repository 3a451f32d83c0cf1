import Runbook.Text.Blank
import Runbook.Text.Case
import Runbook.Text.Quoted
import Runbook.Text.Markup
import Runbook.Number.Shortest
import Runbook.Number.Decimal
import Runbook.Calendar.Iso
import Runbook.Xml.Tree
import Runbook.Xml.Characters
import Runbook.Xml.Reader
import Runbook.Xml.XPath.Reader
import Runbook.Xml.XPath.Evaluation
import Runbook.Error
import Runbook.Value.Key
import Runbook.Value.Text
import Runbook.Json.Printer
import Runbook.Template
import Runbook.Store.Operation
import Runbook.Value.Parsing
import Runbook.Policy
import Runbook.Display.Text
import Runbook.Files.Blocks
import Runbook.Records.Reader
import Runbook.Value.Members
import Runbook.Condition
import Runbook.Procedure.Coercion
import Runbook.Procedure.Connection
import Runbook.Plan.WorkflowFile
import Runbook.Display.Notice
import Runbook.Run.World
import Runbook.Task.Check
import Runbook.Task.Assign
import Runbook.Task.Maintain
import Runbook.Task.Branch
import Runbook.Task.ReadFile
import Runbook.Task.CallProcedure
import Runbook.Run.Flow
import Runbook.CommandLine.Arguments
import Runbook.CommandLine.Session
import Runbook.Display.Console
import Runbook.Main
import Runbook.Proofs.Digits
import Runbook.Proofs.History
import Runbook.Proofs.Interpolation
import Runbook.Proofs.Trimming
import Runbook.Proofs.Variables
import Runbook.Proofs.PathRendering
import Runbook.Proofs.JsonReading
import Runbook.Proofs.BlockDecoding
import Runbook.Proofs.RowReading
import Runbook.Proofs.StreamDecoding
import Runbook.Proofs.Streaming
import Runbook.Proofs.Escaping
import Runbook.Proofs.Consoles
import Runbook.Proofs.Course
import Runbook.Proofs.Transaction
import Runbook.Proofs.Publication
import Runbook.Proofs.JsonCutting
import Runbook.Proofs.ChunkDecoding
import Runbook.Proofs.ChunkSizes
import Runbook.Proofs.JsonWriting
import Runbook.Proofs.ReadingBack
import Runbook.Proofs.Snapshots
import Runbook.Proofs.TreeCopies
import Runbook.Proofs.Failures
import Runbook.Proofs.Endings
import Runbook.Proofs.Drilling
import Runbook.Proofs.Addressing
import Runbook.Proofs.Interleaving
import Runbook.Proofs.ExportImport
import Runbook.Proofs.ReadRoutes
import Runbook.Proofs.DescendantQueries
import Runbook.Proofs.FailingDrills
import Runbook.Proofs.Overrides
import Runbook.Proofs.Silence
import Runbook.Proofs.Accounting
import Runbook.Proofs.Checking
import Runbook.Proofs.Showing
import Runbook.Proofs.Reporting
import Runbook.Proofs.Verdicts
import Runbook.Proofs.IntactStores
import Runbook.Proofs.PrivateMembers
import Runbook.Proofs.MapTexts
import Runbook.Proofs.JsonGrammar
import Runbook.Proofs.ReadableRows
import Runbook.Proofs.TruncatedArrays
import Runbook.Proofs.AcceptedTexts
import Runbook.Proofs.RecordSequences
import Runbook.Proofs.Batching
import Runbook.Proofs.Results
import Runbook.Proofs.LineDocuments
import Runbook.Proofs.CompletionOrder
import Runbook.Proofs.LetterCase
import Runbook.Proofs.Formulas
import Runbook.Proofs.NumberTexts
import Runbook.Proofs.Equality
import Runbook.Proofs.Rounding
import Runbook.Proofs.IntegerComparison
import Runbook.Proofs.PlanFlaws
import Runbook.Proofs.PlanShapes
import Runbook.Proofs.Tokens
import Runbook.Proofs.BatchWrites
import Runbook.Proofs.StreamCalls
import Runbook.Proofs.FloatTexts
import Runbook.Proofs.JsonForms
import Runbook.Proofs.WholeExports
