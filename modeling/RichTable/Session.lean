import RichTable.Script

/-!
# Sessions

A session is an editor with a single table, for interactive use. Loading a table starts over with a
new document; edits go to the loaded table as long as it is part of the document.
-/

namespace RichTable

/-- An editor and its table. -/
structure Session (L : Type) where
  editor : Editor L
  table : Option NodeId := none
deriving Repr, DecidableEq

namespace Session

variable {L : Type}

/-- A session without a table. -/
def ofConfig (config : Config L) : Session L := { editor := { config } }

/-- The table of the session, if it is part of the document. -/
def liveTable? (s : Session L) : Option NodeId := s.table.filter s.editor.doc.isAttached

/-- The description of the table. -/
def outline? (s : Session L) : Option (TableOutline L) := s.liveTable?.bind s.editor.doc.outline?

/-- Forgets that the table has changed. -/
def clearDirty (s : Session L) : Session L := { s with editor := s.editor.clearDirty }

variable [Length L]

/-- Builds a table in a new document. -/
def load (s : Session L) (outline : TableOutline L) : Except EditError Unit × Session L :=
  match (EditorAction.insertTable outline).run.run { config := s.editor.config } with
  | (.ok table, editor) => (.ok (), { editor := editor.clearDirty, table := some table })
  | (.error e, editor) => (.error e, { s with editor })

/-- Applies an edit to the table and tells whether it took effect. -/
def apply (s : Session L) (edit : Edit L) : Except EditError Bool × Session L :=
  match s.liveTable? with
  | none => (.ok false, s)
  | some table =>
    let (result, editor) := (EditorAction.apply table edit).run.run s.editor
    (result, { s with editor })

end Session

end RichTable
