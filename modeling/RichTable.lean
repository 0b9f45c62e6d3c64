import RichTable.Command
import RichTable.Format.Position
import RichTable.Main
import RichTable.Session
import RichTable.Proofs.Action
import RichTable.Proofs.Edit.Absorb
import RichTable.Proofs.Edit.Build
import RichTable.Proofs.Edit.Clamp
import RichTable.Proofs.Edit.Column
import RichTable.Proofs.Edit.Merge
import RichTable.Proofs.Edit.RowDelete
import RichTable.Proofs.Edit.RowInsert
import RichTable.Proofs.Edit.Split
import RichTable.Proofs.Editor.Count
import RichTable.Proofs.Editor.Scripts
import RichTable.Proofs.Editor.Texts
import RichTable.Proofs.Grid.Greedy
import RichTable.Proofs.Lockstep
import RichTable.Proofs.Tree.Below
import RichTable.Proofs.Tree.Calls
import RichTable.Proofs.Tree.Lines
import RichTable.Proofs.Twin.Related
import RichTable.Proofs.Twin.Basic
import RichTable.Proofs.Twin.Columns
import RichTable.Proofs.Twin.Merge
import RichTable.Proofs.Twin.Editor
import RichTable.Proofs.Twin.Opposite
import RichTable.Proofs.Twin.Session
import RichTable.Proofs.Edit.MergeGrid
import RichTable.Proofs.Tree.Anchor
import RichTable.Proofs.Edit.Anchor
import RichTable.Proofs.Editor.Lifetime
import RichTable.Proofs.Grid.Border
import RichTable.Proofs.Edit.Border
import RichTable.Proofs.Editor.Border
import RichTable.Proofs.Json.Text
import RichTable.Proofs.Decimal.Layout
import RichTable.Proofs.Edit.RowGrid
import RichTable.Proofs.Edit.ColumnGrid
import RichTable.Proofs.Edit.MergeCaret
import RichTable.Proofs.Format.Script
import RichTable.Proofs.Edit.ColumnDelete
import RichTable.Proofs.Editor.Columns
import RichTable.Proofs.Edit.SplitGrid
import RichTable.Proofs.Edit.Undo
import RichTable.Proofs.Selection.Direction
import RichTable.Proofs.Selection.Rectangle
import RichTable.Proofs.Tree.Search
import RichTable.Proofs.Column.HitTest
import RichTable.Proofs.Editor.Rows
import RichTable.Proofs.Column.Drag
import RichTable.Proofs.Edit.ClampGrid
import RichTable.Proofs.Selection.Reading
