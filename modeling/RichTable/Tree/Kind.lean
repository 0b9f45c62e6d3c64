/-!
# Kinds of nodes

A document is built from nodes of seven kinds. `Kind.accepts` is the schema: which kind of node may
stand directly below which.
-/

namespace RichTable

/-- The structural kind of a node. -/
inductive Kind where
  | table
  | rowGroup
  | row
  | cell
  /-- A paragraph. -/
  | block
  /-- A run of text. -/
  | inline
  /-- A container outside tables, such as the root of a document. -/
  | other
deriving Repr, DecidableEq, Inhabited

namespace Kind

/-- Every kind, tables first. -/
def all : List Kind := [table, rowGroup, row, cell, block, inline, other]

/-- The name of a kind in messages. -/
def name : Kind → String
  | table => "Table"
  | rowGroup => "RowGroup"
  | row => "Row"
  | cell => "Cell"
  | block => "Block"
  | inline => "Inline"
  | other => "Other"

/-- The kind of a given name. -/
def ofName? (s : String) : Option Kind := all.find? (·.name == s)

/-- The schema: whether a node of kind `child` may stand directly below one of kind `parent`. -/
def accepts : (parent child : Kind) → Bool
  | other, table => true
  | other, block => true
  | other, other => true
  | table, rowGroup => true
  | rowGroup, row => true
  | row, cell => true
  | cell, block => true
  | cell, table => true
  | block, inline => true
  | _, _ => false

theorem mem_all (k : Kind) : k ∈ all := by cases k <;> decide

theorem ofName?_name (k : Kind) : ofName? k.name = some k := by cases k <;> decide

/-- Text runs are leaves. -/
theorem inline_accepts (k : Kind) : inline.accepts k = false := by cases k <;> rfl

end Kind

end RichTable
