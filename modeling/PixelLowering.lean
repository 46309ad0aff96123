import PixelLowering.Diagnostic.Failure
import PixelLowering.Diagnostic.Report
import PixelLowering.Library.Constant
import PixelLowering.Library.Routine
import PixelLowering.Lower.Event
import PixelLowering.Lower.Expression
import PixelLowering.Lower.Method
import PixelLowering.Lower.Pass
import PixelLowering.Lower.Statement
import PixelLowering.Lower.Type
import PixelLowering.Names.Fresh
import PixelLowering.Names.Table
import PixelLowering.Proofs.Diagnostic.Caret
import PixelLowering.Proofs.Domain.Exactness
import PixelLowering.Proofs.Domain.Lowerable
import PixelLowering.Proofs.Domain.Validity
import PixelLowering.Proofs.Faults.Provenance
import PixelLowering.Proofs.Faults.Visits
import PixelLowering.Proofs.Guarded.Flag
import PixelLowering.Proofs.Guarded.Meaning
import PixelLowering.Proofs.Guarded.Preservation
import PixelLowering.Proofs.Guarded.Printed
import PixelLowering.Proofs.Layout.Nesting
import PixelLowering.Proofs.Layout.Page
import PixelLowering.Proofs.Layout.Scan
import PixelLowering.Proofs.Layout.WellLaidOut
import PixelLowering.Proofs.Layout.Width
import PixelLowering.Proofs.Lexical.Agreement
import PixelLowering.Proofs.Lexical.Lowering
import PixelLowering.Proofs.Lexical.Renaming
import PixelLowering.Proofs.Lexical.Scoping
import PixelLowering.Proofs.Literals.Copied
import PixelLowering.Proofs.Literals.Moved
import PixelLowering.Proofs.Literals.Rendered
import PixelLowering.Proofs.Log.Journal
import PixelLowering.Proofs.Log.Record
import PixelLowering.Proofs.Names.Counters
import PixelLowering.Proofs.Names.History
import PixelLowering.Proofs.Names.LeastSuffix
import PixelLowering.Proofs.Names.Plain
import PixelLowering.Proofs.Names.Run
import PixelLowering.Proofs.Names.Uniqueness
import PixelLowering.Proofs.Operands.Calls
import PixelLowering.Proofs.Operands.Delimited
import PixelLowering.Proofs.Reading.Alike
import PixelLowering.Proofs.Reading.Expression
import PixelLowering.Proofs.Reading.Joint
import PixelLowering.Proofs.Reading.Lowered
import PixelLowering.Proofs.Reading.Statement
import PixelLowering.Proofs.Reading.Token
import PixelLowering.Proofs.Reading.Unambiguous
import PixelLowering.Proofs.Reading.Unique
import PixelLowering.Proofs.Scopes.Discipline
import PixelLowering.Proofs.Scopes.Residue
import PixelLowering.Proofs.Scopes.Walk
import PixelLowering.Proofs.Selection.Routes
import PixelLowering.Proofs.Text.Indentation
import PixelLowering.Proofs.Text.Lines
import PixelLowering.Proofs.Text.Location
import PixelLowering.Source.Position
import PixelLowering.Source.Tree
import PixelLowering.Source.Vocabulary
import PixelLowering.Target.Identifier
import PixelLowering.Target.Render
import PixelLowering.Target.Reserved
import PixelLowering.Target.Tree
import PixelLowering.Text.Blank
import PixelLowering.Text.Hidden
import PixelLowering.Text.Indent
import PixelLowering.Text.Lines
import PixelLowering.Text.Location
import PixelLowering.Text.Quoted
