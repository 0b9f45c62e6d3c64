import RichTable.Editor

/-!
# Scripts

A script is a table and a list of edits addressed by grid coordinates. Running it builds the table
and applies the edits in order. An edit that cannot be done is recorded as such and does not stop
the script; an edit that finds the table malformed does.
-/

namespace RichTable

/-- A structural edit. Rows are counted across all row groups. -/
inductive Edit (L : Type) where
  | insertRows (row count : Nat) (side : Side)
  | deleteRows (first last : Nat)
  /-- Inserts next to the cell that occupies `column` in the first row. -/
  | insertColumns (column count : Nat) (side : Side)
  | deleteColumns (first last : Nat)
  | merge (rect : CellRect)
  | split (row column horizontal vertical : Nat)
  | resizeColumn (column : Nat) (delta : L)
deriving Repr, DecidableEq

/-- A table and the edits to apply to it. -/
structure Script (L : Type) where
  config : Config L
  table : TableOutline L
  edits : List (Edit L)
deriving Repr, DecidableEq

/-- What running a script has led to. -/
structure Outcome (L : Type) where
  /-- Whether each edit took effect. -/
  applied : List Bool
  /-- The number of successful actions, the construction of the table included. -/
  revision : Nat
  /-- The table as it is now; `none` if all of its rows have been deleted. -/
  table : Option (TableOutline L)
deriving Repr, DecidableEq

variable {L : Type}

/-- The description of a table that is part of the document. -/
def Editor.outline? (e : Editor L) (table : NodeId) : Option (TableOutline L) :=
  if e.doc.isAttached table then e.doc.outline? table else none

variable [Length L]

/-- Applies an edit to a table and tells whether it took effect. -/
def EditorAction.apply (table : NodeId) : Edit L → EditorAction L Bool
  | .insertRows row count side => return (← insertRowsAt table row count side).isSome
  | .deleteRows first last => deleteRowRange table first last
  | .insertColumns column count side => do
    match (← get).selectCells? table (0, column) (0, column) with
    | some selection => insertColumns selection count side
    | none => return false
  | .deleteColumns first last => do
    match (← get).selectCells? table (0, first) (0, last) with
    | some selection => deleteColumns selection
    | none => return false
  | .merge rect => return (← mergeRectangle table rect).isSome
  | .split row column horizontal vertical => do
    match (← get).selectCells? table (row, column) (row, column) with
    | some selection => return (← splitCell selection horizontal vertical).isSome
    | none => return false
  | .resizeColumn column delta => resizeColumn table column delta

namespace Script

/-- Builds the table of a script, applies the edits and describes the result. -/
def runIn (s : Script L) : EditorAction L (Outcome L) := do
  let table ← EditorAction.insertTable s.table
  let applied ← s.edits.mapM (EditorAction.apply table)
  let e ← get
  return { applied, revision := e.revision, table := e.outline? table }

/-- Runs a script in a new editor. -/
def run (s : Script L) : Except EditError (Outcome L) :=
  (s.runIn.run.run { config := s.config }).1

end Script

end RichTable
