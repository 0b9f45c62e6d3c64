import Mathlib
import RichTable.Editor
import RichTable.Proofs.Grid.Place
import RichTable.Proofs.Outcome

/-!
# Sequences of calls

A document is changed by calls: nodes are created, attached and detached, paragraphs and whole tables
are appended, properties are set, and tables are placed, bordered and edited. The calls take any node
ids, known or not, and a call that fails keeps what it has done so far. Whatever the calls and however
they end, the nodes form a forest that fits the schema, and every cached length is right.

The only writes that change the tree are `push`, `attach` and `detach`, and each keeps a document
well-formed; so every call does, and so do all calls in a row (`Call.wellFormed_runAll`).
-/

namespace RichTable

/-- Lengths in whole pixels. -/
instance Length.instInt : Length Int where
  zero := 0
  natCast := Int.ofNat
  decLT _ _ := inferInstance
  decLE _ _ := inferInstance

namespace Document

variable {L : Type} {d : Document L}

theorem node?_empty (id : NodeId) :
    (empty : Document L).node? id = if id = root then some { payload := .other } else none := by
  cases id with
  | zero => rfl
  | succ id => rfl

/-- The document with only a root is well-formed. -/
theorem WellFormed.empty : (Document.empty : Document L).WellFormed := by
  have parent : ∀ id, (Document.empty : Document L).parent? id = none := fun id => by
    rw [parent?, node?_empty]
    split <;> rfl
  have children : ∀ id, (Document.empty : Document L).children id = [] := fun id => by
    rw [Document.children, node?_empty]
    split <;> rfl
  refine ⟨rfl, parent root, by simp [parent, children], by simp [children],
    ⟨fun _ => 0, by simp [parent]⟩, by simp [parent], fun id => ?_⟩
  rw [children, contentLength, ownLength, payload?, node?_empty]
  split <;> rfl

/-! ## What being well-formed comes to -/

/-- Following parents from `id`, the nodes of `way` are met, and the last one has no parent. -/
inductive LeadsUp (d : Document L) : NodeId → List NodeId → Prop
  | top {id : NodeId} (h : d.parent? id = none) : LeadsUp d id [id]
  | step {id p : NodeId} {way : List NodeId} (h : d.parent? id = some p) (rest : LeadsUp d p way) :
    LeadsUp d id (id :: way)

/-- The way up from a known node is the list of its ancestors. -/
theorem WellFormed.leadsUp_ancestors (wf : d.WellFormed) {id : NodeId} (h : id < d.size) :
    d.LeadsUp id (d.ancestors id) := by
  induction id using wf.induct_up with
  | top id hp =>
    rw [wf.ancestors_of_no_parent h hp]
    exact .top hp
  | step c p hp ih =>
    rw [wf.ancestors_of_parent hp]
    exact .step hp (ih (wf.lt_size_parent hp))

theorem WellFormed.exists_leadsUp (wf : d.WellFormed) (id : NodeId) :
    ∃ way, d.LeadsUp id way ∧ way.Nodup := by
  rcases Nat.lt_or_ge id d.size with h | h
  · exact ⟨_, wf.leadsUp_ancestors h, wf.nodup_ancestors id⟩
  · have unknown : d.parent? id = none := by
      by_contra hp
      obtain ⟨p, hp⟩ := Option.ne_none_iff_exists'.1 hp
      exact absurd (lt_size_of_parent? hp) (Nat.not_lt.2 h)
    exact ⟨[id], .top unknown, List.nodup_singleton id⟩

theorem WellFormed.count_children (wf : d.WellFormed) (p c : NodeId) :
    (d.children p).count c = if d.parent? c = some p then 1 else 0 := by
  split
  · next h => exact List.count_eq_one_of_mem (wf.nodup p) (wf.mem_children.2 h)
  · next h => exact List.count_eq_zero.2 fun hc => h (wf.mem_children.1 hc)

theorem WellFormed.contentLength_eq (wf : d.WellFormed) (id : NodeId) :
    d.contentLength id = match d.text? id with
      | some text => text.length
      | none => ((d.children id).map fun c => d.contentLength c + 2).sum := by
  rw [wf.length, ownLength, text?]
  cases hp : d.payload? id with
  | none => exact Nat.zero_add _
  | some p =>
    cases p with
    | inline text =>
      have kind : d.kind? id = some .inline := by simp [kind?, hp, Payload.kind]
      simp [Payload.ownLength, wf.children_inline kind]
    | _ => exact Nat.zero_add _

end Document

namespace Action

open Document

variable {L : Type}

/-- A refused attachment changes nothing. -/
theorem insertChild_error {d d' : Document L} {p c : NodeId} {i : Nat} {e : EditError}
    (h : (insertChild p i c).run.run d = (.error e, d')) : d' = d := by
  have kept : Ends (insertChild p i c) d (fun _ _ => True) fun _ s => s = d := by
    refine ends_bind.2 (ends_get.2 ?_)
    split
    · exact ends_throw.2 rfl
    · exact ends_set.2 trivial
  rw [Ends, h] at kept
  exact kept

/-! ## Primitive actions -/

theorem keeps_create (p : Payload L) : Keeps WellFormed (create p) :=
  keeps_get_bind fun _ wf => wf.push p

theorem keeps_insertChild (p : NodeId) (i : Nat) (c : NodeId) :
    Keeps (WellFormed (L := L)) (insertChild p i c) := by
  refine keeps_get_bind fun d wf => ?_
  split
  · exact wf
  · next h => exact wf.attach (attachError?_eq_none.1 h) i

theorem keeps_appendChild (p c : NodeId) : Keeps (WellFormed (L := L)) (appendChild p c) :=
  keeps_get.bind fun _ => keeps_insertChild p _ c

theorem keeps_detach (id : NodeId) : Keeps (WellFormed (L := L)) (Action.detach id) :=
  keeps_modify fun _ wf => wf.detach id

theorem keeps_appendParagraph (p : NodeId) (text : String) :
    Keeps (WellFormed (L := L)) (appendParagraph p text) := by
  refine (keeps_create _).bind fun block => ?_
  dsimp only
  split
  · refine (keeps_create _).bind fun run => (keeps_appendChild _ _).bind fun _ => ?_
    exact (keeps_appendChild _ _).bind fun _ => keeps_pure _
  · exact (keeps_appendChild _ _).bind fun _ => keeps_pure _

theorem keeps_requireCell (id : NodeId) : Keeps (WellFormed (L := L)) (requireCell id) := by
  refine keeps_get.bind fun d => ?_
  split
  · exact keeps_pure _
  · exact keeps_throw _

theorem keeps_requireTable (id : NodeId) : Keeps (WellFormed (L := L)) (requireTable id) := by
  refine keeps_get.bind fun d => ?_
  split
  · exact keeps_pure _
  · exact keeps_throw _

theorem keeps_requireParent (id : NodeId) (k : Kind) :
    Keeps (WellFormed (L := L)) (requireParent id k) := by
  refine keeps_get.bind fun d => ?_
  split
  · exact keeps_pure _
  · exact keeps_throw _

theorem keeps_updateCell (id : NodeId) (f : CellProps L → CellProps L) :
    Keeps WellFormed (updateCell id f) :=
  (keeps_requireCell id).bind fun _ => keeps_modify fun _ wf => wf.modifyCell id f

theorem keeps_modifyTable (id : NodeId) (f : TableProps L → TableProps L) :
    Keeps WellFormed (modify (·.modifyTable id f) : Action L PUnit) :=
  keeps_modify fun _ wf => wf.modifyTable id f

theorem keeps_clampRowSpans (g : NodeId) :
    Keeps WellFormed (modify (·.clampRowSpans g) : Action L PUnit) := by
  refine keeps_modify fun d wf => ?_
  unfold clampRowSpans
  generalize (d.children g).flatMap d.children = cells
  induction cells generalizing d with
  | nil => exact wf
  | cons c cells ih => exact ih _ (wf.modifyCell c _)

/-! ## Grids -/

theorem keeps_copyCell (id : NodeId) : Keeps (WellFormed (L := L)) (copyCell id) :=
  (keeps_requireCell id).bind fun _ => (keeps_create _).bind fun _ =>
    (keeps_appendParagraph _ _).bind fun _ => keeps_pure _

theorem keeps_place (t : NodeId) : Keeps (WellFormed (L := L)) (place t) := by
  refine (keeps_requireTable t).bind fun _ => keeps_get_bind fun d wf => ?_
  split
  · exact wf
  · exact (wf.sameTree_placed t).wellFormed wf

theorem keeps_checkGrid (t : NodeId) : Keeps (WellFormed (L := L)) (checkGrid t) := by
  refine keeps_get.bind fun d => ?_
  split
  · exact keeps_throw _
  · exact keeps_pure _

section Borders

variable [Length L]

theorem keeps_correctGroupBorders (t g : NodeId) :
    Keeps (WellFormed (L := L)) (correctGroupBorders t g) :=
  (keeps_requireTable t).bind fun _ => keeps_get.bind fun d =>
    .forM (fun row => .forM (fun _ => keeps_updateCell _ _) (d.children row)) (d.children g)

theorem keeps_correctBorders (t : NodeId) : Keeps (WellFormed (L := L)) (correctBorders t) :=
  keeps_get.bind fun d => .forM (fun g => keeps_correctGroupBorders t g) (d.children t)

theorem keeps_settle (t : NodeId) : Keeps (WellFormed (L := L)) (settle t) :=
  (keeps_correctBorders t).bind fun _ => (keeps_place t).bind fun _ => keeps_checkGrid t

end Borders

theorem keeps_buildCell (config : Config L) (row : NodeId) (c : CellOutline) :
    Keeps WellFormed (buildCell config row c) :=
  (keeps_create _).bind fun _ => (keeps_appendParagraph _ _).bind fun _ => keeps_appendChild _ _

theorem keeps_buildRow (config : Config L) (g : NodeId) (cells : List CellOutline) :
    Keeps WellFormed (buildRow config g cells) :=
  (keeps_create _).bind fun row => (Keeps.forM (keeps_buildCell config row) cells).bind fun _ =>
    keeps_appendChild _ _

theorem keeps_buildGroup (config : Config L) (t : NodeId) (rows : List (List CellOutline)) :
    Keeps WellFormed (buildGroup config t rows) :=
  (keeps_create _).bind fun g => (Keeps.forM (keeps_buildRow config g) rows).bind fun _ =>
    keeps_appendChild _ _

theorem keeps_buildTable (config : Config L) (p : NodeId) (outline : TableOutline L) :
    Keeps WellFormed (buildTable config p outline) :=
  (keeps_create _).bind fun t => (Keeps.forM (keeps_buildGroup config t) outline.groups).bind
    fun _ => (keeps_appendChild _ _).bind fun _ => keeps_pure _

/-! ## Edits -/

theorem keeps_insertRowOf (templates : List NodeId) (g : NodeId) (i : Nat) :
    Keeps (WellFormed (L := L)) (insertRowOf templates g i) := by
  refine (keeps_create _).bind fun row => ?_
  refine (Keeps.forM (fun c => ?_) templates).bind fun _ =>
    (keeps_insertChild _ _ _).bind fun _ => keeps_pure _
  exact (keeps_copyCell c).bind fun _ => (keeps_updateCell _ _).bind fun _ => keeps_appendChild _ _

theorem keeps_recreateIn (next cell : NodeId) (height : Nat) :
    Keeps (WellFormed (L := L)) (recreateIn next cell height) :=
  (keeps_requireCell cell).bind fun _ => (keeps_copyCell cell).bind fun _ =>
    (keeps_updateCell _ _).bind fun _ => keeps_get.bind fun _ => keeps_insertChild _ _ _

theorem keeps_widenRow (target : Nat) (behind : Bool) (row : NodeId) :
    Keeps (WellFormed (L := L)) (widenRow target behind row) := by
  refine keeps_get.bind fun d => ?_
  split
  · exact keeps_pure _
  · refine (keeps_requireCell _).bind fun props => ?_
    split
    · exact keeps_updateCell _ _
    · exact (keeps_copyCell _).bind fun _ => keeps_get.bind fun _ => keeps_insertChild _ _ _

theorem keeps_narrowRow (column : Nat) (row : NodeId) :
    Keeps (WellFormed (L := L)) (narrowRow column row) := by
  refine keeps_get.bind fun d => ?_
  split
  · exact keeps_pure _
  · refine (keeps_requireCell _).bind fun props => ?_
    split
    · exact keeps_updateCell _ _
    · exact keeps_detach _

theorem keeps_carve (row cell : NodeId) (count : Nat) :
    Keeps (WellFormed (L := L)) (carve row cell count) := by
  induction count with
  | zero => exact keeps_pure _
  | succ count ih =>
    exact (keeps_copyCell _).bind fun _ => (keeps_updateCell _ _).bind fun _ => keeps_get.bind
      fun _ => (keeps_insertChild _ _ _).bind fun _ => (keeps_updateCell _ _).bind fun _ => ih

theorem keeps_moveContent (survivor child : NodeId) :
    Keeps (WellFormed (L := L)) (moveContent survivor child) := by
  refine keeps_get.bind fun d => ?_
  split
  · exact (keeps_detach _).bind fun _ => keeps_appendChild _ _
  · exact keeps_pure _

theorem keeps_absorbContent (survivor : NodeId) (cells : List NodeId) :
    Keeps (WellFormed (L := L)) (absorbContent survivor cells) := by
  refine keeps_get.bind fun d => ?_
  have moves : ∀ donor, Keeps (WellFormed (L := L)) (do
      ((← get).children donor).forM (moveContent survivor)) := fun donor =>
    keeps_get.bind fun e => .forM (keeps_moveContent survivor) (e.children donor)
  dsimp only
  split
  · exact keeps_pure _
  · split
    · exact (Keeps.forM keeps_detach _).bind fun _ => .forM moves _
    · exact .forM moves _

theorem keeps_clearRow (survivor : NodeId) (merged : List NodeId) (row : NodeId) :
    Keeps (WellFormed (L := L)) (clearRow survivor merged row) := by
  refine keeps_get.bind fun d => ?_
  dsimp only
  split
  · exact (Keeps.forM (fun _ => keeps_updateCell _ _) _).bind fun _ => (keeps_detach _).bind fun _ =>
      keeps_pure _
  · exact (Keeps.forM keeps_detach _).bind fun _ => keeps_pure _

theorem keeps_selectedColumns (selection : Segment) :
    Keeps (WellFormed (L := L)) (selectedColumns selection) := by
  refine keeps_get.bind fun d => ?_
  split
  · exact keeps_pure _
  split
  · exact keeps_pure _
  · exact (keeps_place _).bind fun _ => keeps_get.bind fun _ => keeps_pure _

section Edits

variable [Length L]

theorem keeps_insertRows (reference : NodeId) (count : Nat) (side : Side) :
    Keeps (WellFormed (L := L)) (insertRows reference count side) := by
  unfold insertRows
  split
  · exact keeps_pure _
  · refine (keeps_requireParent _ _).bind fun g => (keeps_requireParent _ _).bind fun t =>
      (keeps_place t).bind fun _ => (keeps_clampRowSpans g).bind fun _ => keeps_get.bind fun d => ?_
    split
    · exact keeps_throw _
    · exact (Keeps.forM (fun _ => keeps_updateCell _ _) _).bind fun _ =>
        (Keeps.mapM (fun _ => keeps_insertRowOf _ _ _) _).bind fun _ =>
          (keeps_settle t).bind fun _ => keeps_get.bind fun _ => keeps_pure _

theorem keeps_deleteRowInterval (g : NodeId) (first last : Nat) :
    Keeps (WellFormed (L := L)) (deleteRowInterval g first last) := by
  refine (keeps_requireParent _ _).bind fun t => keeps_get.bind fun d => ?_
  dsimp only
  split
  · exact keeps_pure _
  split
  · refine keeps_get.bind fun d => ?_
    split
    · exact (keeps_detach t).bind fun _ => keeps_pure _
    · exact (keeps_detach g).bind fun _ => (keeps_settle t).bind fun _ => keeps_pure _
  refine (keeps_place t).bind fun _ => (keeps_clampRowSpans g).bind fun _ => keeps_get.bind fun d =>
    (Keeps.forM (fun _ => keeps_updateCell _ _) _).bind fun _ => ?_
  split
  · exact (Keeps.forM (fun _ => keeps_recreateIn _ _ _) _).bind fun _ =>
      (Keeps.forM keeps_detach _).bind fun _ => (keeps_settle t).bind fun _ => keeps_pure _
  · exact (Keeps.forM keeps_detach _).bind fun _ => (keeps_settle t).bind fun _ => keeps_pure _

theorem keeps_deleteRows (selection : Segment) :
    Keeps (WellFormed (L := L)) (deleteRows selection) := by
  refine keeps_get.bind fun d => ?_
  split
  · exact keeps_pure _
  · refine (keeps_requireParent _ _).bind fun _ => (keeps_requireParent _ _).bind fun _ =>
      (keeps_requireParent _ _).bind fun g => keeps_get.bind fun d => ?_
    split
    · exact keeps_pure _
    split
    · refine (keeps_deleteRowInterval g _ _).bind fun done => ?_
      split <;> exact keeps_pure _
    · exact keeps_pure _

theorem keeps_insertColumn (t : NodeId) (after : Option Nat) :
    Keeps (WellFormed (L := L)) (insertColumn t after) :=
  (keeps_place t).bind fun _ => keeps_get.bind fun _ =>
    (Keeps.forM (keeps_widenRow _ _) _).bind fun _ => (keeps_modifyTable t _).bind fun _ =>
      (keeps_place t).bind fun _ => (keeps_checkGrid t).bind fun _ => keeps_correctBorders t

theorem keeps_deleteColumn (t : NodeId) (column : Nat) :
    Keeps (WellFormed (L := L)) (deleteColumn t column) := by
  refine (keeps_place t).bind fun count => ?_
  split
  · exact keeps_pure _
  · exact keeps_get.bind fun _ => (Keeps.forM (keeps_narrowRow _) _).bind fun _ =>
      (keeps_modifyTable t _).bind fun _ => (keeps_place t).bind fun _ =>
        (keeps_checkGrid t).bind fun _ => (keeps_correctBorders t).bind fun _ => keeps_pure _

theorem keeps_insertColumnTimes (t : NodeId) (after : Option Nat) (count : Nat) :
    Keeps (WellFormed (L := L)) (insertColumnTimes t after count) := by
  induction count with
  | zero => exact keeps_pure _
  | succ count ih => exact (keeps_insertColumn t after).bind fun _ => ih

theorem keeps_deleteColumnTimes (t : NodeId) (column count : Nat) :
    Keeps (WellFormed (L := L)) (deleteColumnTimes t column count) := by
  induction count with
  | zero => exact keeps_pure _
  | succ count ih =>
    refine (keeps_deleteColumn t column).bind fun done => ?_
    split
    · exact ih
    · exact keeps_pure _

theorem keeps_insertColumns (selection : Segment) (count : Nat) (side : Side) :
    Keeps (WellFormed (L := L)) (insertColumns selection count side) := by
  unfold insertColumns
  split
  · exact keeps_pure _
  · refine (keeps_selectedColumns selection).bind fun found => ?_
    split
    · exact keeps_pure _
    · exact (keeps_insertColumnTimes _ _ _).bind fun _ => keeps_pure _

theorem keeps_deleteColumns (selection : Segment) (count : Nat) :
    Keeps (WellFormed (L := L)) (deleteColumns selection count) := by
  refine (keeps_selectedColumns selection).bind fun found => ?_
  split
  · exact keeps_pure _
  · refine keeps_get.bind fun d => ?_
    dsimp only
    split
    · exact keeps_pure _
    · exact keeps_deleteColumnTimes _ _ _

theorem keeps_mergeRect (g : NodeId) (rect : CellRect) :
    Keeps (WellFormed (L := L)) (mergeRect g rect) := by
  refine (keeps_requireParent _ _).bind fun t => (keeps_place t).bind fun _ =>
    keeps_get.bind fun d => ?_
  dsimp only
  split
  · exact keeps_pure _
  split
  · exact keeps_throw _
  · refine (keeps_absorbContent _ _).bind fun _ => (keeps_updateCell _ _).bind fun _ =>
      (Keeps.mapM (keeps_clearRow _ _) _).bind fun _ => (Keeps.forM keeps_detach _).bind fun _ => ?_
    have rest : ∀ s, Keeps (WellFormed (L := L)) (do
        let _ ← place t
        checkGrid t
        correctGroupBorders t g
        return ((← get).firstCaret? s).map Segment.collapsed) := fun s =>
      (keeps_place t).bind fun _ => (keeps_checkGrid t).bind fun _ =>
        (keeps_correctGroupBorders t g).bind fun _ => keeps_get.bind fun _ => keeps_pure _
    split
    · exact (keeps_updateCell _ _).bind fun _ => rest _
    · exact rest _

theorem keeps_mergeCells (selection : Segment) :
    Keeps (WellFormed (L := L)) (mergeCells selection) := by
  refine keeps_get.bind fun d => ?_
  have group : ∀ c, Keeps (WellFormed (L := L)) (requireGroup c) := fun c =>
    (keeps_requireParent _ _).bind fun _ => keeps_requireParent _ _
  split
  · exact keeps_pure _
  · refine (group _).bind fun g => (group _).bind fun g' => ?_
    split
    · exact keeps_pure _
    · refine (keeps_requireParent _ _).bind fun t => (keeps_place t).bind fun _ =>
        keeps_get.bind fun d => ?_
      split
      · exact keeps_mergeRect _ _
      · exact keeps_pure _

theorem keeps_splitCell (selection : Segment) (horizontal vertical : Nat) :
    Keeps (WellFormed (L := L)) (splitCell selection horizontal vertical) := by
  refine keeps_get.bind fun d => ?_
  split
  · exact keeps_pure _
  split
  · exact keeps_pure _
  refine (keeps_requireCell _).bind fun props => ?_
  split
  · exact keeps_pure _
  dsimp only
  split
  · exact keeps_pure _
  · exact (keeps_requireParent _ _).bind fun _ => (keeps_requireParent _ _).bind fun _ =>
      (keeps_requireParent _ _).bind fun _ => (keeps_carve _ _ _).bind fun _ =>
        (keeps_place _).bind fun _ => (keeps_checkGrid _).bind fun _ =>
          (keeps_correctGroupBorders _ _).bind fun _ => keeps_get.bind fun _ => keeps_pure _

end Edits

end Action

/-! ## Calls -/

/-- A call that changes a document. -/
inductive Call (L : Type) where
  | create (payload : Payload L)
  | insertChild (parent : NodeId) (index : Nat) (child : NodeId)
  | appendChild (parent child : NodeId)
  | detach (id : NodeId)
  | appendParagraph (parent : NodeId) (text : String)
  | buildTable (config : Config L) (parent : NodeId) (outline : TableOutline L)
  /-- Changes the properties of a cell in any way. -/
  | changeCell (id : NodeId) (f : CellProps L → CellProps L)
  /-- Changes the properties of a table in any way. -/
  | changeTable (id : NodeId) (f : TableProps L → TableProps L)
  | place (table : NodeId)
  | correctGroupBorders (table group : NodeId)
  | correctBorders (table : NodeId)
  | insertRows (reference : NodeId) (count : Nat) (side : Side)
  | deleteRowInterval (group : NodeId) (first last : Nat)
  | deleteRows (selection : Segment)
  | insertColumn (table : NodeId) (after : Option Nat)
  | deleteColumn (table : NodeId) (column : Nat)
  | insertColumns (selection : Segment) (count : Nat) (side : Side)
  | deleteColumns (selection : Segment) (count : Nat)
  | mergeRect (group : NodeId) (rect : CellRect)
  | mergeCells (selection : Segment)
  | splitCell (selection : Segment) (horizontal vertical : Nat)
  | commitDrag (drag : ColumnDrag L) (x : L)

namespace Call

variable {L : Type} [Length L]

/-- Makes the call and drops its result. -/
def perform : Call L → Action L Unit
  | create payload => discard (Action.create payload)
  | insertChild parent index child => Action.insertChild parent index child
  | appendChild parent child => Action.appendChild parent child
  | detach id => Action.detach id
  | appendParagraph parent text => discard (Action.appendParagraph parent text)
  | buildTable config parent outline => discard (Action.buildTable config parent outline)
  | changeCell id f => modify (·.modifyCell id f)
  | changeTable id f => modify (·.modifyTable id f)
  | place table => discard (Action.place table)
  | correctGroupBorders table group => Action.correctGroupBorders table group
  | correctBorders table => Action.correctBorders table
  | insertRows reference count side => discard (Action.insertRows reference count side)
  | deleteRowInterval group first last => discard (Action.deleteRowInterval group first last)
  | deleteRows selection => discard (Action.deleteRows selection)
  | insertColumn table after => Action.insertColumn table after
  | deleteColumn table column => discard (Action.deleteColumn table column)
  | insertColumns selection count side => discard (Action.insertColumns selection count side)
  | deleteColumns selection count => discard (Action.deleteColumns selection count)
  | mergeRect group rect => discard (Action.mergeRect group rect)
  | mergeCells selection => discard (Action.mergeCells selection)
  | splitCell selection horizontal vertical =>
    discard (Action.splitCell selection horizontal vertical)
  | commitDrag drag x => modify fun d => (drag.commit d x).2

/-- The document after some calls, each of which may have failed. -/
def runAll (calls : List (Call L)) (d : Document L) : Document L :=
  calls.foldl (fun d call => (call.perform.run.run d).2) d

theorem keeps_perform (call : Call L) : Keeps Document.WellFormed call.perform := by
  cases call with
  | create payload => exact (Action.keeps_create payload).map
  | insertChild parent index child => exact Action.keeps_insertChild parent index child
  | appendChild parent child => exact Action.keeps_appendChild parent child
  | detach id => exact Action.keeps_detach id
  | appendParagraph parent text => exact (Action.keeps_appendParagraph parent text).map
  | buildTable config parent outline => exact (Action.keeps_buildTable config parent outline).map
  | changeCell id f => exact keeps_modify fun _ wf => wf.modifyCell id f
  | changeTable id f => exact Action.keeps_modifyTable id f
  | place table => exact (Action.keeps_place table).map
  | correctGroupBorders table group => exact Action.keeps_correctGroupBorders table group
  | correctBorders table => exact Action.keeps_correctBorders table
  | insertRows reference count side => exact (Action.keeps_insertRows reference count side).map
  | deleteRowInterval group first last =>
    exact (Action.keeps_deleteRowInterval group first last).map
  | deleteRows selection => exact (Action.keeps_deleteRows selection).map
  | insertColumn table after => exact Action.keeps_insertColumn table after
  | deleteColumn table column => exact (Action.keeps_deleteColumn table column).map
  | insertColumns selection count side =>
    exact (Action.keeps_insertColumns selection count side).map
  | deleteColumns selection count => exact (Action.keeps_deleteColumns selection count).map
  | mergeRect group rect => exact (Action.keeps_mergeRect group rect).map
  | mergeCells selection => exact (Action.keeps_mergeCells selection).map
  | splitCell selection horizontal vertical =>
    exact (Action.keeps_splitCell selection horizontal vertical).map
  | commitDrag drag x =>
    refine keeps_modify fun d wf => ?_
    unfold ColumnDrag.commit
    split_ifs
    · exact wf
    · exact wf
    · exact wf.modifyTable _ _

/-- Calls of any kind, in any order and with any outcome, keep a document well-formed. -/
theorem wellFormed_runAll (calls : List (Call L)) : (runAll calls .empty).WellFormed := by
  have run : ∀ d : Document L, d.WellFormed → (runAll calls d).WellFormed := by
    induction calls with
    | nil => exact fun _ => id
    | cons call calls ih => exact fun d wf => ih _ (call.keeps_perform.state wf)
  exact run _ .empty

/-- After calls of any kind, in any order, with any nodes and any outcome: a node is among the children
of its parent exactly once and nowhere else, the way up from every node ends without repetition, the
root has no parent, all children fit their parents, every cached length is right, and an attachment
that is refused changes nothing. -/
theorem runAll_forest (calls : List (Call L)) :
    let d := runAll calls .empty
    (∀ p c, (d.children p).count c = if d.parent? c = some p then 1 else 0) ∧
      (∀ id, ∃ way, d.LeadsUp id way ∧ way.Nodup) ∧
      d.parent? Document.root = none ∧
      (∀ c p, d.parent? c = some p →
        ∃ kp kc, d.kind? p = some kp ∧ d.kind? c = some kc ∧ kp.accepts kc = true) ∧
      (∀ id, d.contentLength id = match d.text? id with
        | some text => text.length
        | none => ((d.children id).map fun c => d.contentLength c + 2).sum) ∧
      ∀ p i c e d', (Action.insertChild p i c).run.run d = (.error e, d') → d' = d := by
  have wf := wellFormed_runAll calls
  exact ⟨wf.count_children, wf.exists_leadsUp, wf.root_parent, fun _ _ => wf.accepts,
    wf.contentLength_eq, fun _ _ _ _ _ => Action.insertChild_error⟩

end Call

end RichTable
