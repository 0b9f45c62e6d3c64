import RichTable.Column.Drag
import RichTable.Edit.Column
import RichTable.Edit.Merge
import RichTable.Edit.Split
import RichTable.Grid.Outline

/-!
# The editor

An editor owns a document and its settings. It counts the user actions that changed a table, and
remembers which tables have changed since it was last told that they were dealt with. Actions are
addressed by a selection or by grid coordinates; rows are then counted across all row groups.

Like the document's own actions, an action of the editor may fail, and a failed one keeps what it
has changed in the document. It does not count.
-/

namespace RichTable

/-- A document being edited. -/
structure Editor (L : Type) where
  doc : Document L := .empty
  config : Config L
  /-- The tables that have changed, by ascending id. -/
  dirty : List NodeId := []
  /-- The number of successful actions. -/
  revision : Nat := 0
deriving Repr, DecidableEq

/-- An action of an editor that may fail. The editor is kept in either case. -/
abbrev EditorAction (L : Type) := ExceptT EditError (StateM (Editor L))

namespace Editor

variable {L : Type}

/-- Whether any table has changed. -/
def isDirty (e : Editor L) : Bool := !e.dirty.isEmpty

/-- Forgets which tables have changed. -/
def clearDirty (e : Editor L) : Editor L := { e with dirty := [] }

/-- Counts a successful action on a table. -/
def touch (e : Editor L) (table : NodeId) : Editor L :=
  { e with
    dirty := e.dirty.filter (· < table) ++ table :: e.dirty.filter (table < ·)
    revision := e.revision + 1 }

/-- The cell at a row of a table and a grid column. -/
def cellAt? (e : Editor L) (table row column : Nat) : Option NodeId :=
  ((e.doc.tableRows table)[row]?).bind (e.doc.coveringCell? · column)

/-- The selection from one grid place to another. -/
def selectCells? (e : Editor L) (table : NodeId) (source target : Nat × Nat) : Option Segment := do
  let a ← e.cellAt? table source.1 source.2
  let b ← e.cellAt? table target.1 target.2
  let aStart ← e.doc.elementStart? a
  let bStart ← e.doc.elementStart? b
  let (first, last) := if aStart ≤ bStart then (a, b) else (b, a)
  let start ← e.doc.firstCaret? first
  let stop ← e.doc.edgePosition? last .afterEnd
  return .between start stop

/-- What a selection covers. -/
def select? (e : Editor L) (anchor moving : Position) : Option SelectedRange :=
  e.doc.selectedRange? anchor moving

/-- The table of the cell at the start of a selection. -/
def selectedTable? (e : Editor L) (selection : Segment) : Option NodeId :=
  (e.doc.boundaryCells? selection.start selection.stop).bind fun (cell, _) =>
    e.doc.tableOfCell? cell

/-- The last row that a cell occupies. -/
def bottomRow? (e : Editor L) (cell : NodeId) : Option NodeId := do
  let row ← e.doc.rowOf? cell
  let group ← e.doc.parent? row
  let index ← e.doc.childIndex? row
  (e.doc.children group)[index + max (e.doc.effectiveRowSpan cell) 1 - 1]?

/-- Whether row `r` starts no later than row `s`. -/
def startsBy (e : Editor L) (r s : NodeId) : Bool :=
  missingFirstLE (e.doc.elementStart? r) (e.doc.elementStart? s)

/-- Of two rows, of which either may be missing, the one that starts first. -/
def upperRow? (e : Editor L) : Option NodeId → Option NodeId → Option NodeId
  | some r, some s => some (if e.startsBy r s then r else s)
  | r, s => r.or s

/-- Of two rows, of which either may be missing, the one that starts last. -/
def lowerRow? (e : Editor L) : Option NodeId → Option NodeId → Option NodeId
  | some r, some s => some (if e.startsBy r s then s else r)
  | r, s => r.or s

/-- The row next to which rows are inserted for a selection between two cells, whichever of them
comes first in the document. -/
def insertionRow? (e : Editor L) (x y : NodeId) : Side → Option NodeId
  | .before => e.upperRow? (e.doc.rowOf? x) (e.doc.rowOf? y)
  | .after => e.lowerRow? (e.bottomRow? x) (e.bottomRow? y)

/-- The row group that holds rows `first` to `last` of a table, of which `groups` are the row groups
from row `offset` on, and the places of these rows in it. -/
def locateIn (d : Document L) (first last : Nat) :
    (groups : List NodeId) → (offset : Nat) → Option (NodeId × Nat × Nat)
  | [], _ => none
  | group :: groups, offset =>
    let next := offset + (d.children group).length
    if first < next then
      if last < next then some (group, first - offset, last - offset) else none
    else locateIn d first last groups next

/-- The row group that holds rows `first` to `last` of a table, and their places in it. -/
def locateRows? (e : Editor L) (table first last : Nat) : Option (NodeId × Nat × Nat) :=
  if last < first then none else locateIn e.doc first last (e.doc.children table) 0

/-- Starts a drag of the column border closest to `x`. -/
def startDrag? [Length L] (e : Editor L) (table : NodeId) (x : L) : Option (ColumnDrag L) :=
  ColumnDrag.start? e.doc table x e.config.autofitWidth e.config.resizeTolerance

end Editor

namespace EditorAction

variable {L : Type}

/-- Runs an action on the document. -/
def onDocument {α : Type} (action : Action L α) : EditorAction L α := do
  let e ← get
  let (result, doc) := action.run.run e.doc
  set { e with doc }
  match result with
  | .ok a => return a
  | .error err => throw err

/-- Counts an action on a table, if there is a table and the action was done. -/
def touchIf (done : Bool) (table : Option NodeId) : EditorAction L Unit := do
  match done, table with
  | true, some t => modify (·.touch t)
  | _, _ => return ()

variable [Length L]

/-- Appends a table to the document and places it. -/
def insertTable (outline : TableOutline L) : EditorAction L NodeId := do
  let config := (← get).config
  let table ← onDocument do
    let table ← Action.buildTable config Document.root outline
    let _ ← Action.place table
    Action.correctBorders table
    return table
  modify (·.touch table)
  return table

/-! ## By selection -/

/-- Inserts rows above the first row of a selection or below its last. -/
def insertRows (selection : Segment) (count : Nat) (side : Side) :
    EditorAction L (Option CellRange) := do
  let e ← get
  match e.doc.boundaryCells? selection.start selection.stop with
  | none => return none
  | some (x, y) =>
    match e.insertionRow? x y side, e.doc.tableOfCell? x with
    | some reference, some table =>
      let range ← onDocument (Action.insertRows reference count side)
      touchIf range.isSome (some table)
      return range
    | _, _ => return none

/-- Deletes the rows of a selection. Returns whether it was done, and the selection afterwards. -/
def deleteRows (selection : Segment) : EditorAction L (Bool × Segment) := do
  let table := (← get).selectedTable? selection
  let result ← onDocument (Action.deleteRows selection)
  touchIf result.1 table
  return result

/-- Inserts columns next to those of a selection. -/
def insertColumns (selection : Segment) (count : Nat) (side : Side) : EditorAction L Bool := do
  let table := (← get).selectedTable? selection
  let done ← onDocument (Action.insertColumns selection count side)
  touchIf done table
  return done

/-- Deletes all columns of a selection. -/
def deleteColumns (selection : Segment) : EditorAction L Bool := do
  let d := (← get).doc
  match d.boundaryCells? selection.start selection.stop with
  | none => return false
  | some (a, b) =>
    match d.tableOfCell? a with
    | none => return false
    | some table =>
      let _ ← onDocument (Action.place table)
      match (← get).doc.columnBounds? a b with
      | none => return false
      | some columns =>
        let done ← onDocument (Action.deleteColumns selection (columns.last - columns.first + 1))
        touchIf done (some table)
        return done

/-- Merges the rectangle of a selection. -/
def mergeCells (selection : Segment) : EditorAction L (Option Segment) := do
  let table := (← get).selectedTable? selection
  let caret ← onDocument (Action.mergeCells selection)
  touchIf caret.isSome table
  return caret

/-- Splits the selected cell. -/
def splitCell (selection : Segment) (horizontal vertical : Nat) :
    EditorAction L (Option Segment) := do
  let table := (← get).selectedTable? selection
  let caret ← onDocument (Action.splitCell selection horizontal vertical)
  touchIf caret.isSome table
  return caret

/-- Drops a dragged column border at `x`. -/
def commitDrag (drag : ColumnDrag L) (x : L) : EditorAction L Bool := do
  let e ← get
  let (done, doc) := drag.commit e.doc x
  set { e with doc }
  touchIf done (some drag.table)
  return done

/-! ## By grid coordinates -/

/-- Inserts rows next to a row of a table. -/
def insertRowsAt (table row count : Nat) (side : Side) : EditorAction L (Option CellRange) := do
  match ((← get).doc.tableRows table)[row]? with
  | none => return none
  | some reference =>
    let range ← onDocument (Action.insertRows reference count side)
    touchIf range.isSome (some table)
    return range

/-- Deletes rows of a table that share a row group. -/
def deleteRowRange (table first last : Nat) : EditorAction L Bool := do
  match (← get).locateRows? table first last with
  | none => return false
  | some (group, first, last) =>
    let done ← onDocument (Action.deleteRowInterval group first last)
    touchIf done (some table)
    return done

/-- Merges a rectangle of a table whose rows share a row group. -/
def mergeRectangle (table : NodeId) (rect : CellRect) : EditorAction L (Option Segment) := do
  match (← get).locateRows? table rect.top rect.bottom with
  | none => return none
  | some (group, top, bottom) =>
    let caret ← onDocument (Action.mergeRect group { rect with top, bottom })
    touchIf caret.isSome (some table)
    return caret

/-- Moves the right border of a column by `delta`, as a drag would. -/
def resizeColumn (table column : Nat) (delta : L) : EditorAction L Bool := do
  let e ← get
  let drag := do
    let layout ← ColumnLayout.compute? e.doc table e.config.autofitWidth
    let rect ← layout.rect? column
    let border := rect.x + rect.width
    let drag ← ColumnDrag.ofLayout? table column layout border
    return (drag, border)
  match drag with
  | none => return false
  | some (drag, border) => commitDrag drag (border + delta)

end EditorAction

end RichTable
