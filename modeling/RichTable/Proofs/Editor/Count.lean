import Mathlib
import RichTable.Script
import RichTable.Proofs.Outcome

/-!
# What editors count

An editor counts the actions that took effect, and nothing else. `Counted done a d config` says so for
an action: what it does to the document does not depend on what has been counted before, and it is
counted once if its result is one that `done` tells, and not at all otherwise. All edits are counted
in this way (`counted_apply`), whatever the document is.
-/

namespace RichTable

variable {L α β : Type}

/-- Whether an action has succeeded with a result that `done` tells. -/
def tookEffect (done : α → Bool) : Except EditError α → Bool
  | .ok x => done x
  | .error _ => false

namespace Editor

/-- The editor with another document, after an action on a table that may have taken effect. -/
def tally (e : Editor L) (effect : Bool) (d : Document L) (t : NodeId) : Editor L :=
  if effect then touch { e with doc := d } t else { e with doc := d }

theorem doc_tally (e : Editor L) (effect : Bool) (d : Document L) (t : NodeId) :
    (e.tally effect d t).doc = d := by
  cases effect <;> rfl

theorem config_tally (e : Editor L) (effect : Bool) (d : Document L) (t : NodeId) :
    (e.tally effect d t).config = e.config := by
  cases effect <;> rfl

theorem revision_tally (e : Editor L) (effect : Bool) (d : Document L) (t : NodeId) :
    (e.tally effect d t).revision = e.revision + effect.toNat := by
  cases effect <;> rfl

theorem isDirty_tally (e : Editor L) (effect : Bool) (d : Document L) (t : NodeId) :
    (e.tally effect d t).isDirty = (e.isDirty || effect) := by
  cases effect
  · exact (Bool.or_false _).symm
  · simp [tally, touch, isDirty]

end Editor

/-- An action that leads from a document to the same result and document, whatever has been counted
before, and that is counted once if it took effect. -/
def Counted (done : α → Bool) (a : EditorAction L α) (d : Document L) (config : Config L) : Prop :=
  ∃ result d' t, ∀ e : Editor L, e.doc = d → e.config = config →
    a.run.run e = (result, e.tally (tookEffect done result) d' t)

section Rules

variable {done : α → Bool} {a : EditorAction L α} {d : Document L} {config : Config L}

theorem counted_pure {x : α} (h : done x = false) : Counted done (pure x) d config := by
  refine ⟨.ok x, d, 0, fun e hd _ => ?_⟩
  rw [tookEffect, h, ← hd]
  rfl

/-- A look at the document and the settings. -/
theorem counted_get_bind {f : Editor L → EditorAction L α}
    (same : ∀ dirty revision, f ⟨d, config, dirty, revision⟩ = f { doc := d, config })
    (h : Counted done (f { doc := d, config }) d config) : Counted done (get >>= f) d config := by
  obtain ⟨result, d', t, run⟩ := h
  refine ⟨result, d', t, fun e hd hc => ?_⟩
  obtain ⟨_, _, dirty, revision⟩ := e
  subst hd hc
  rw [run_bind_eq, ← run _ rfl rfl, ← same dirty revision]
  rfl

theorem counted_map {done : β → Bool} {f : α → β} (h : Counted (fun x => done (f x)) a d config) :
    Counted done (a >>= fun x => pure (f x)) d config := by
  obtain ⟨result, d', t, run⟩ := h
  refine ⟨result.map f, d', t, fun e hd hc => ?_⟩
  rw [run_bind_eq, run e hd hc]
  cases result <;> rfl

theorem onDocument_run (act : Action L α) (e : Editor L) :
    (EditorAction.onDocument act).run.run e =
      ((act.run.run e.doc).1, { e with doc := (act.run.run e.doc).2 }) := by
  rw [EditorAction.onDocument, run_bind_eq]
  show ((do
    set { e with doc := (act.run.run e.doc).2 }
    match (act.run.run e.doc).1 with
    | .ok x => return x
    | .error err => throw err : EditorAction L α).run.run e) = _
  generalize act.run.run e.doc = outcome
  rcases outcome with ⟨_ | _, _⟩ <;> rfl

/-- An action on the document that does not end the block. -/
theorem counted_onDocument_bind {act : Action L β} {f : β → EditorAction L α}
    (h : ∀ x d', act.run.run d = (.ok x, d') → Counted done (f x) d' config) :
    Counted done (EditorAction.onDocument act >>= f) d config := by
  rcases hr : act.run.run d with ⟨err | x, d'⟩
  · refine ⟨.error err, d', 0, fun e hd _ => ?_⟩
    rw [run_bind_eq, onDocument_run, hd, hr]
    rfl
  · obtain ⟨result, d'', t, run⟩ := h x d' hr
    refine ⟨result, d'', t, fun e hd hc => ?_⟩
    rw [run_bind_eq, onDocument_run, hd, hr]
    exact run _ rfl hc

/-- The end of most blocks: an action that takes effect only if there is a table to count it for. -/
theorem counted_onDocument {act : Action L α} {table : Option NodeId}
    (h : Ends act d (fun x _ => done x = true → table.isSome = true) fun _ _ => True) :
    Counted done (do
      let x ← EditorAction.onDocument act
      EditorAction.touchIf (done x) table
      return x) d config := by
  refine counted_onDocument_bind fun x d' hr => ?_
  rw [Ends, hr] at h
  cases hx : done x with
  | false =>
    refine ⟨.ok x, d', 0, fun e hd _ => ?_⟩
    rw [tookEffect, hx, ← hd]
    rfl
  | true =>
    obtain ⟨t, rfl⟩ := Option.isSome_iff_exists.1 (h hx)
    refine ⟨.ok x, d', t, fun e hd _ => ?_⟩
    rw [tookEffect, hx, ← hd]
    rfl

end Rules

namespace EditorAction

variable {d : Document L} {config : Config L}

theorem ends_requireCell {id : NodeId} {Q : CellProps L → Document L → Prop} :
    Ends (Action.requireCell id) d Q (fun _ _ => True) ↔ ∀ props, d.cell? id = some props → Q props d := by
  simp only [Action.requireCell, ends_bind, ends_get]
  cases d.cell? id with
  | none => exact ⟨fun _ _ e => (by cases e), fun _ => trivial⟩
  | some props => exact ⟨fun h _ e => Option.some.inj e ▸ h, fun h => h props rfl⟩

theorem ends_requireParent {id : NodeId} {k : Kind} {Q : NodeId → Document L → Prop} :
    Ends (Action.requireParent id k) d Q (fun _ _ => True) ↔
      ∀ p, d.parentOfKind? id k = some p → Q p d := by
  simp only [Action.requireParent, ends_bind, ends_get]
  cases d.parentOfKind? id k with
  | none => exact ⟨fun _ _ e => (by cases e), fun _ => trivial⟩
  | some p => exact ⟨fun h _ e => Option.some.inj e ▸ h, fun h => h p rfl⟩

variable [Length L]

/-- Columns are inserted for a selection with a table only. -/
theorem ends_insertColumns (selection : Segment) (count : Nat) (side : Side) :
    Ends (Action.insertColumns selection count side) d (fun done _ => done = true →
      (Editor.selectedTable? { doc := d, config } selection).isSome = true) fun _ _ => True := by
  unfold Action.insertColumns
  dsimp only
  split
  · exact ends_pure.2 nofun
  unfold Action.selectedColumns Editor.selectedTable?
  simp only [ends_bind, ends_get]
  rcases d.boundaryCells? selection.start selection.stop with _ | ⟨a, b⟩
  · exact ends_pure.2 (ends_pure.2 nofun)
  · dsimp only [Option.bind_some]
    cases d.tableOfCell? a with
    | none => exact ends_pure.2 (ends_pure.2 nofun)
    | some table => exact ends_of_forall fun _ _ => ends_of_forall fun _ _ _ => rfl

/-- A cell is split for a selection with a table only. -/
theorem ends_splitCell (selection : Segment) (horizontal vertical : Nat) :
    Ends (Action.splitCell selection horizontal vertical) d (fun caret _ => caret.isSome = true →
      (Editor.selectedTable? { doc := d, config } selection).isSome = true) fun _ _ => True := by
  unfold Action.splitCell Editor.selectedTable?
  simp only [ends_bind, ends_get]
  rcases d.boundaryCells? selection.start selection.stop with _ | ⟨cell, other⟩
  · exact ends_pure.2 nofun
  dsimp only [Option.bind_some]
  split
  · exact ends_pure.2 nofun
  refine ends_bind.2 (ends_requireCell.2 fun props _ => ?_)
  split
  · exact ends_pure.2 nofun
  split
  · exact ends_pure.2 nofun
  refine ends_bind.2 (ends_requireParent.2 fun row hrow => ?_)
  refine ends_bind.2 (ends_requireParent.2 fun group hgroup => ?_)
  refine ends_bind.2 (ends_requireParent.2 fun table htable => ?_)
  refine ends_of_forall fun _ _ _ => ?_
  rw [Document.tableOfCell?, Document.rowOf?, hrow, Option.bind_some, Document.groupOf?, hgroup,
    Option.bind_some, Document.tableOf?, htable]
  rfl

/-- Dropping a dragged border is counted if the number of columns is still the same. -/
theorem counted_commitDrag (drag : ColumnDrag L) (x : L) :
    Counted id (commitDrag drag x) d config := by
  refine ⟨.ok (drag.commit d x).1, (drag.commit d x).2, drag.table, fun e hd _ => ?_⟩
  subst hd
  rw [commitDrag, run_bind_eq]
  show ((do
    set { e with doc := (drag.commit e.doc x).2 }
    touchIf (drag.commit e.doc x).1 (some drag.table)
    return (drag.commit e.doc x).1 : EditorAction L Bool).run.run e) = _
  rcases drag.commit e.doc x with ⟨_ | _, _⟩ <;> rfl

theorem counted_deleteColumns (selection : Segment) :
    Counted id (deleteColumns selection) d config := by
  refine counted_get_bind (fun _ _ => rfl) ?_
  dsimp only
  rcases d.boundaryCells? selection.start selection.stop with _ | ⟨a, b⟩
  · exact counted_pure rfl
  · dsimp only
    cases d.tableOfCell? a with
    | none => exact counted_pure rfl
    | some table =>
      refine counted_onDocument_bind fun _ d' _ => counted_get_bind (fun _ _ => rfl) ?_
      dsimp only
      cases d'.columnBounds? a b with
      | none => exact counted_pure rfl
      | some columns => exact counted_onDocument (ends_of_forall fun _ _ _ => rfl)

/-- Every edit is counted if its answer is `true`, and not otherwise. -/
theorem counted_apply (d : Document L) (config : Config L) (t : NodeId) (edit : Edit L) :
    Counted id (apply t edit) d config := by
  cases edit with
  | insertRows row count side =>
    refine counted_map (counted_get_bind (fun _ _ => rfl) ?_)
    dsimp only
    cases (d.tableRows t)[row]? with
    | none => exact counted_pure rfl
    | some reference => exact counted_onDocument (ends_of_forall fun _ _ _ => rfl)
  | deleteRows first last =>
    refine counted_get_bind (fun _ _ => rfl) ?_
    rcases Editor.locateRows? { doc := d, config } t first last with _ | ⟨group, first, last⟩
    · exact counted_pure rfl
    · exact counted_onDocument (ends_of_forall fun _ _ _ => rfl)
  | insertColumns column count side =>
    refine counted_get_bind (fun _ _ => rfl) ?_
    cases Editor.selectCells? { doc := d, config } t (0, column) (0, column) with
    | none => exact counted_pure rfl
    | some selection =>
      exact counted_get_bind (fun _ _ => rfl) (counted_onDocument (ends_insertColumns ..))
  | deleteColumns first last =>
    refine counted_get_bind (fun _ _ => rfl) ?_
    cases Editor.selectCells? { doc := d, config } t (0, first) (0, last) with
    | none => exact counted_pure rfl
    | some selection => exact counted_deleteColumns selection
  | merge rect =>
    refine counted_map (counted_get_bind (fun _ _ => rfl) ?_)
    rcases Editor.locateRows? { doc := d, config } t rect.top rect.bottom with _ | ⟨group, top, bottom⟩
    · exact counted_pure rfl
    · exact counted_onDocument (ends_of_forall fun _ _ _ => rfl)
  | split row column horizontal vertical =>
    refine counted_get_bind (fun _ _ => rfl) ?_
    cases Editor.selectCells? { doc := d, config } t (row, column) (row, column) with
    | none => exact counted_pure rfl
    | some selection =>
      exact counted_map (counted_get_bind (fun _ _ => rfl) (counted_onDocument (ends_splitCell ..)))
  | resizeColumn column delta =>
    refine counted_get_bind (fun _ _ => rfl) ?_
    dsimp only
    split
    · exact counted_pure rfl
    · exact counted_commitDrag _ _

end EditorAction

end RichTable
