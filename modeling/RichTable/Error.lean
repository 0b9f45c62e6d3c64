import RichTable.Tree.Kind

/-!
# Errors of tree building and editing

An edit that cannot be carried out (a merge that cuts a cell, the deletion of the last column) is
not an error: it reports that nothing was done. Errors are for trees that do not have the shape an
operation needs, and for grids that turn out not to be regular.
-/

namespace RichTable

/-- A node is named by its index in the arena of its document. -/
abbrev NodeId := Nat

/-- How node ids are written in messages. -/
def NodeId.text (id : NodeId) : String := "#" ++ toString id

/-- What is wrong with the grid of a table. Rows are counted within their row group. -/
inductive GridFault where
  /-- A cell has no column. -/
  | unplaced (cell : NodeId) (row group : Nat)
  /-- Two cells of a row share a column. -/
  | overlap (row group column : Nat)
  /-- No cell of a row occupies a column. -/
  | hole (row group column : Nat)
  /-- The cells of a row end before or behind the last column of the table. -/
  | width (row group covered count : Nat)
  /-- No cell of the top row starts at the left column of a merge. -/
  | noCellAt (column : Nat)
deriving Repr, DecidableEq

/-- Why building or editing a document failed. -/
inductive EditError where
  /-- An id that belongs to no node. -/
  | unknownNode (id : NodeId)
  /-- The schema does not allow the child below the parent. -/
  | invalidChild (parent child : Kind)
  /-- Attaching a node that has a place already. -/
  | alreadyAttached (id : NodeId)
  /-- The node, or what stands above it, is not of the expected kind. -/
  | unexpectedElement (node : NodeId) (expected : Kind)
  /-- The grid of the table is not regular. -/
  | invariant (fault : GridFault)
deriving Repr, DecidableEq

/-- The text of a grid fault. -/
def GridFault.message : GridFault → String
  | unplaced cell row group => s!"cell {cell.text} in row {row} of group {group} is unplaced"
  | overlap row group column => s!"row {row} of group {group}: column {column} overlaps"
  | hole row group column => s!"row {row} of group {group}: column {column} is empty"
  | width row group covered count =>
    s!"row {row} of group {group} covers {covered} of {count} columns"
  | noCellAt column => s!"no cell at column {column} of merge"

/-- The text of an error. -/
def EditError.message : EditError → String
  | unknownNode id => s!"Unknown node: {id.text}"
  | invalidChild parent child => s!"A {child.name} cannot be placed inside a {parent.name}"
  | alreadyAttached id => s!"Node {id.text} is already attached"
  | unexpectedElement node expected => s!"Expected a {expected.name} at node {node.text}"
  | invariant fault => s!"Table invariant violated: {fault.message}"

end RichTable
