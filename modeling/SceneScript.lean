import SceneScript.Command.Basic
import SceneScript.Command.Paint
import SceneScript.Command.Session
import SceneScript.Diagnostic
import SceneScript.Json
import SceneScript.Library.Call
import SceneScript.Library.Function
import SceneScript.Main
import SceneScript.Module.Address
import SceneScript.Module.Compile
import SceneScript.Module.Remote
import SceneScript.Notice
import SceneScript.Number.Binary
import SceneScript.Number.Reader
import SceneScript.Number.Rounding
import SceneScript.Number.Shortest
import SceneScript.Number.Written
import SceneScript.Program.Basic
import SceneScript.Program.Expr
import SceneScript.Program.Read
import SceneScript.Program.ReadExpr
import SceneScript.Program.Reader
import SceneScript.Random.Draw
import SceneScript.Random.Stream
import SceneScript.Run.Evaluate
import SceneScript.Run.Execute
import SceneScript.Run.Machine
import SceneScript.Run.Operate
import SceneScript.Run.Properties
import SceneScript.Run.Result
import SceneScript.Scene.Cube
import SceneScript.Scene.Modifier
import SceneScript.Scene.Object
import SceneScript.Scene.Vector
import SceneScript.Scene.Written
import SceneScript.Scope
import SceneScript.Span
import SceneScript.Store
import SceneScript.Table
import SceneScript.Text.Blank
import SceneScript.Text.Cluster
import SceneScript.Text.ClusterClass
import SceneScript.Text.Erase
import SceneScript.Text.Runs
import SceneScript.Text.Split
import SceneScript.Token.Basic
import SceneScript.Token.Scan
import SceneScript.Value
import SceneScript.Workspace.Directory
import SceneScript.Workspace.Load
import SceneScript.Proofs.Run.Evaluation
import SceneScript.Proofs.Run.Failure
import SceneScript.Proofs.Library.Outcome
import SceneScript.Proofs.Run.Reference
import SceneScript.Proofs.Run.Binding
import SceneScript.Proofs.Run.Path
import SceneScript.Proofs.Scene.Links
import SceneScript.Proofs.Scene.Entries
import SceneScript.Proofs.Module.Units
import SceneScript.Proofs.Module.Severity
import SceneScript.Proofs.Module.Supply
import SceneScript.Proofs.Program.Syntax
import SceneScript.Proofs.Run.Diagnostics
import SceneScript.Proofs.Module.Calls
import SceneScript.Proofs.Module.Depth
import SceneScript.Proofs.Module.Fallback
import SceneScript.Proofs.Module.History
import SceneScript.Proofs.Module.Cycles
import SceneScript.Proofs.Module.Past
import SceneScript.Proofs.Module.Appended
import SceneScript.Proofs.Command.Session
import SceneScript.Proofs.Program.Reading
import SceneScript.Proofs.Program.Levels
import SceneScript.Proofs.Program.Unplaced
import SceneScript.Proofs.Program.Rendering
import SceneScript.Proofs.Program.Extends
import SceneScript.Proofs.Program.ExtendsExpr
import SceneScript.Proofs.Program.Append
import SceneScript.Proofs.Program.Render
import SceneScript.Proofs.Program.WellFormed
import SceneScript.Proofs.Number.Numeral
import SceneScript.Proofs.Program.ReparseExpr
import SceneScript.Proofs.Program.Reparse
import SceneScript.Proofs.Scene.Meshes
import SceneScript.Proofs.Scene.Parents
import SceneScript.Proofs.Renaming
import SceneScript.Proofs.Run.Mirror
import SceneScript.Proofs.Run.Equivariance
import SceneScript.Proofs.Run.Repeat
import SceneScript.Proofs.Module.Lookups
import SceneScript.Proofs.Run.Breakdown
import SceneScript.Proofs.Module.Breakdown
import SceneScript.Proofs.Run.Visits
import SceneScript.Proofs.Run.Exports
import SceneScript.Proofs.Scene.Sharing
import SceneScript.Proofs.Run.Effects
import SceneScript.Proofs.Run.Offset
import SceneScript.Proofs.Module.Growth
import SceneScript.Proofs.Module.Parallel
import SceneScript.Proofs.Module.Context
import SceneScript.Proofs.Module.Resolution
import SceneScript.Proofs.Run.Deeds
import SceneScript.Proofs.Run.Blocks
import SceneScript.Proofs.Run.Loops
import SceneScript.Proofs.Token.Tiling
import SceneScript.Proofs.Token.Layout
import SceneScript.Proofs.Program.InStepStmt
import SceneScript.Proofs.Program.Layout
import SceneScript.Proofs.Program.Total
import SceneScript.Proofs.Program.Separators
import SceneScript.Proofs.Program.InStep
import SceneScript.Proofs.Program.InStepExpr
import SceneScript.Proofs.Program.StopsBefore
import SceneScript.Proofs.Run.Faces
import SceneScript.Proofs.Text.Lines
import SceneScript.Proofs.Program.Caret
import SceneScript.Proofs.Program.Cube
import SceneScript.Proofs.Module.StandIn
import SceneScript.Proofs.Workspace.Files
import SceneScript.Proofs.Number.Nearest
import SceneScript.Proofs.Number.Order
import SceneScript.Proofs.Library.Interval
import SceneScript.Proofs.Number.Decimal
import SceneScript.Proofs.Number.Shortest
import SceneScript.Proofs.Number.Written
import SceneScript.Proofs.Json
import SceneScript.Proofs.Scene.Written
