import Mathlib
import RichTable.Proofs.Grid.Rect
import RichTable.Proofs.Tree.Anchor

/-!
# Edits leave alone what stands above cells

Whatever the table and however an edit ends, it moves no more than it has to. Rows are only taken out
by deleting rows and by merging, row groups and tables only by deleting rows. The statements take the
nodes to watch as in `Anchors`; where an edit detaches rows or row groups, it must not be told to keep
these.
-/

namespace RichTable.Document

open RichTable.Action

variable {L : Type} {S T : NodeId → Prop} {d : Document L} {α : Type}

/-- The candidates of a merge are the cells at the places of its rectangle. -/
theorem exists_of_mergeCandidates? {t : NodeId} {rect : CellRect} {rows cells : List NodeId}
    (h : d.mergeCandidates? t rect rows = some cells) :
    ∃ all, d.cellsOfRect? rect rows = some all ∧ cells = all.eraseDups := by
  unfold mergeCandidates? at h
  split at h
  swap
  · cases h
  split_ifs at h
  obtain ⟨all, hall, rfl⟩ := Option.map_eq_some_iff.1 h
  exact ⟨all, hall, rfl⟩

/-- The candidates of a merge are stored in the row group. -/
theorem WellFormed.stored_of_mem_candidates (wf : d.WellFormed) {t g : NodeId}
    (hg : d.kind? g = some .rowGroup) {rect : CellRect} {cells : List NodeId}
    (h : d.mergeCandidates? t rect (d.children g) = some cells) {c : NodeId} (hc : c ∈ cells) :
    ∃ r, Stored (d.rowsOf g) r c := by
  obtain ⟨all, hall, rfl⟩ := exists_of_mergeCandidates? h
  have shown : some c ∈ all.map some := List.mem_map_of_mem (List.mem_eraseDups.1 hc)
  rw [← mapM_eq_some.1 hall] at shown
  obtain ⟨p, hp, hcover⟩ := List.mem_map.1 shown
  obtain ⟨row, hrow, hp⟩ := List.mem_flatMap.1 hp
  obtain ⟨j, -, rfl⟩ := List.mem_map.1 hp
  obtain ⟨i, hi⟩ := List.mem_iff_getElem?.1 (List.mem_of_mem_take (List.mem_of_mem_drop hrow))
  have hoc := List.mem_of_find?_eq_some (Option.filter_eq_some_iff.1 hcover).1
  obtain ⟨r, hs, -⟩ := (wf.mem_occupants hg hi).1 hoc
  exact ⟨r, hs⟩

theorem WellFormed.kind_candidates (wf : d.WellFormed) {t g : NodeId}
    (hg : d.kind? g = some .rowGroup) {rect : CellRect} {cells : List NodeId}
    (h : d.mergeCandidates? t rect (d.children g) = some cells) :
    ∀ c ∈ cells, d.kind? c = some .cell := fun _ hc => by
  obtain ⟨r, hs⟩ := wf.stored_of_mem_candidates hg h hc
  exact wf.kind_stored hg hs

namespace Anchors

/-- The rest of a block that starts by placing a table may use that it is one. -/
theorem place_bind {t : NodeId} {f : Nat → Action L α} {Q : α → Document L → Prop}
    {E : EditError → Document L → Prop} (fails : ∀ e s, Anchored S T d s → E e s)
    (h : ∀ n s, Anchored S T d s → s.kind? t = some .table → Ends (f n) s Q E) {s : Document L}
    (hs : Anchored S T d s) : Ends (place t >>= f) s Q E := by
  refine ends_bind.2 (ends_bind.2 (ends_bind.2 (ends_get.2 ?_)))
  split
  · next props hp =>
    refine ends_bind.2 (ends_get.2 ?_)
    split
    · exact fails _ _ hs
    · have r := Restyled.placed hs.wf t
      exact h _ _ (hs.restyled r) ((r.same.kind t).trans (kind?_of_table? hp))
  · exact fails _ _ hs

/-- The rest of a block that starts by changing properties only. -/
theorem still_bind {β : Type} {a : Action L α} {f : α → Action L β} (ha : Still a)
    {Q : β → Document L → Prop} {E : EditError → Document L → Prop}
    (fails : ∀ e s, Anchored S T d s → E e s) {s : Document L} (hs : Anchored S T d s)
    (h : ∀ x s', Restyled s s' → Ends (f x) s' Q E) : Ends (a >>= f) s Q E :=
  ends_bind.2 ((ha s hs.wf).mono (fun x s' r => h x s' r) fun _ _ r => fails _ _ (hs.restyled r))

variable (A : Anchors S T d)

include A

theorem absorbContent {survivor : NodeId} {cells : List NodeId} (hs : ¬ T survivor)
    (own : ∀ x, S x → d.parent? x ≠ some survivor)
    (others : ∀ c ∈ cells, ∀ x, S x → d.parent? x ≠ some c) :
    Keeps (Anchored S T d) (Action.absorbContent survivor cells) := by
  refine keeps_get_bind fun s h => ?_
  dsimp only
  split
  · exact h
  have moves : Keeps (Anchored S T d) ((cells.filter fun c => c != survivor && s.hasContent c).forM
      fun donor => do ((← get).children donor).forM (Action.moveContent survivor)) := by
    refine Keeps.forM_of_mem fun donor hd => keeps_get_bind fun s' h' => ?_
    refine Keeps.forM_of_mem (fun child hc => ?_) s' h'
    exact A.moveContent hs (h'.not_stays_of_mem (others donor (List.mem_filter.1 hd).1) hc)
  split
  · exact (Keeps.forM_of_mem fun c hc => detach (h.not_stays_of_mem own hc)).bind (fun _ => moves) s h
  · exact moves s h

omit A in
theorem clearRow {row : NodeId} (hrow : ¬ S row) (below : ∀ x, S x → d.parent? x ≠ some row)
    (survivor : NodeId) (merged : List NodeId) :
    Keeps (Anchored S T d) (Action.clearRow survivor merged row) := by
  refine keeps_get_bind fun s h => ?_
  dsimp only
  split
  · exact ((still (.forM (fun _ => still_updateCell _ _) _)).bind fun _ => (detach hrow).bind fun _ =>
      keeps_pure _) s h
  · exact ((Keeps.forM_of_mem fun c hc => detach (h.not_stays_of_mem below
      (List.mem_filter.1 hc).1)).bind fun _ => keeps_pure _) s h

variable [Length L]

theorem insertRows (reference : NodeId) (count : Nat) (side : Side) :
    Keeps (Anchored S T d) (Action.insertRows reference count side) := by
  unfold Action.insertRows
  split
  · exact keeps_pure _
  refine requireParent fun s h g _ hg => ?_
  have hT : ¬ T g := h.not_closed A hg (.inr rfl)
  refine (still (still_requireParent g .table)).bind (fun t => (still (still_place t)).bind fun _ =>
    (still (still_clampRowSpans g)).bind fun _ => keeps_get.bind fun d => ?_) s h
  split
  · exact keeps_throw _
  · exact (still (.forM (fun _ => still_updateCell _ _) _)).bind fun _ =>
      (Keeps.mapM (fun _ => A.insertRowOf hT _ _) _).bind fun _ =>
        (still (still_settle t)).bind fun _ => keeps_get.bind fun _ => keeps_pure _

/-- Inserting a column comes down to correcting borders. -/
theorem ends_insertColumn {t : NodeId} {after : Option Nat} {Q : Unit → Document L → Prop}
    {E : EditError → Document L → Prop} (fails : ∀ e s, Anchored S T d s → E e s)
    (finish : ∀ s, Anchored S T d s → s.kind? t = some .table → Ends (Action.correctBorders t) s Q E)
    {s : Document L} (hs : Anchored S T d s) : Ends (Action.insertColumn t after) s Q E := by
  refine place_bind fails (fun n s h ht => ends_bind.2 (ends_get.2 ?_)) hs
  have rows : Keeps (Anchored S T d) ((s.tableRows t).forM
      (Action.widenRow ((after.map (min · (n - 1))).getD 0) after.isSome)) :=
    Keeps.forM_of_mem fun row hrow => A.widenRow (h.not_closed A (k := .row)
      (h.wf.kind_tableRows ht hrow) (.inl rfl)) _ _
  refine rows.ends_then (fun _ s => ?_) fails h
  refine (still (still_setColumns t (insertWidth after))).ends_then (fun _ s => ?_) fails
  refine place_bind fails fun _ s h ht => ?_
  refine still_bind (still_checkGrid t) fails h fun _ s r => ?_
  exact finish s (h.restyled r) ((r.same.kind t).trans ht)

theorem insertColumn (t : NodeId) (after : Option Nat) :
    Keeps (Anchored S T d) (Action.insertColumn t after) := fun _ =>
  A.ends_insertColumn (fun _ _ => id) fun s h _ => still (still_correctBorders t) s h

/-- Deleting a column comes down to correcting borders, if it is done. -/
theorem ends_deleteColumn {t : NodeId} {column : Nat} {Q : Bool → Document L → Prop}
    {E : EditError → Document L → Prop} (fails : ∀ e s, Anchored S T d s → E e s)
    (refused : ∀ s, Anchored S T d s → Q false s)
    (finish : ∀ s, Anchored S T d s → s.kind? t = some .table →
      Ends (Action.correctBorders t) s (fun _ => Q true) E)
    {s : Document L} (hs : Anchored S T d s) : Ends (Action.deleteColumn t column) s Q E := by
  refine place_bind fails (fun n s h ht => ?_) hs
  split
  · exact refused s h
  refine ends_bind.2 (ends_get.2 ?_)
  have rows : Keeps (Anchored S T d) ((s.tableRows t).forM (Action.narrowRow column)) :=
    Keeps.forM_of_mem fun row hrow => narrowRow (h.not_parent A (h.wf.kind_tableRows ht hrow) rfl) _
  refine rows.ends_then (fun _ s => ?_) fails h
  refine (still (still_setColumns t (·.eraseIdx column))).ends_then (fun _ s => ?_) fails
  refine place_bind fails fun _ s h ht => ?_
  refine still_bind (still_checkGrid t) fails h fun _ s r => ?_
  exact ends_bind.2 (finish s (h.restyled r) ((r.same.kind t).trans ht))

theorem deleteColumn (t : NodeId) (column : Nat) :
    Keeps (Anchored S T d) (Action.deleteColumn t column) := fun _ =>
  A.ends_deleteColumn (fun _ _ => id) (fun _ => id) fun s h _ => still (still_correctBorders t) s h

theorem insertColumns (selection : Segment) (count : Nat) (side : Side) :
    Keeps (Anchored S T d) (Action.insertColumns selection count side) := by
  have times : ∀ t after count, Keeps (Anchored S T d) (insertColumnTimes t after count) :=
    fun t after count => by
      induction count with
      | zero => exact keeps_pure _
      | succ count ih => exact (A.insertColumn t after).bind fun _ => ih
  unfold Action.insertColumns
  split
  · exact keeps_pure _
  · refine (still (still_selectedColumns selection)).bind fun found => ?_
    split
    · exact keeps_pure _
    · exact (times _ _ _).bind fun _ => keeps_pure _

theorem deleteColumns (selection : Segment) (count : Nat) :
    Keeps (Anchored S T d) (Action.deleteColumns selection count) := by
  have times : ∀ t column count, Keeps (Anchored S T d) (deleteColumnTimes t column count) :=
    fun t column count => by
      induction count with
      | zero => exact keeps_pure _
      | succ count ih =>
        refine (A.deleteColumn t column).bind fun done => ?_
        split
        · exact ih
        · exact keeps_pure _
  refine (still (still_selectedColumns selection)).bind fun found => ?_
  split
  · exact keeps_pure _
  · refine keeps_get.bind fun d => ?_
    dsimp only
    split
    · exact keeps_pure _
    · exact times _ _ _

theorem splitCell (selection : Segment) (horizontal vertical : Nat) :
    Keeps (Anchored S T d) (Action.splitCell selection horizontal vertical) := by
  refine keeps_get.bind fun d => ?_
  split
  · exact keeps_pure _
  split
  · exact keeps_pure _
  refine (still (still_requireCell _)).bind fun props => ?_
  split
  · exact keeps_pure _
  dsimp only
  split
  · exact keeps_pure _
  refine requireParent fun s h row _ hrow => ?_
  refine (still (still_requireParent _ _)).bind (fun g => (still (still_requireParent _ _)).bind
    fun t => (A.carve (h.not_closed A hrow (.inl rfl)) _ _).bind fun _ =>
      (still (still_place _)).bind fun _ => (still (still_checkGrid _)).bind fun _ =>
        (still (still_correctGroupBorders _ _)).bind fun _ => keeps_get.bind fun _ => keeps_pure _) s h

/-- A merge may delete the rows of its rectangle below the first. -/
theorem mergeRect (wf : d.WellFormed) {g : NodeId} {rect : CellRect}
    (free : ∀ row ∈ (rect.rowsOf (d.children g)).drop 1, ¬ S row) :
    Ends (Action.mergeRect g rect) d (fun _ => Anchored S T d) fun _ => Anchored S T d := by
  refine ends_requireParent_bind (fun t ht hk => ?_) fun _ => .refl wf
  refine ends_bind.2 ((still_place t d wf).mono (fun _ s r => ?_) fun _ s r =>
    (Anchored.refl wf).restyled r)
  have h : Anchored S T d s := (Anchored.refl wf).restyled r
  have same := r.same
  have hg : s.kind? g = some .rowGroup :=
    (same.kind g).trans (wf.kind_group hk (wf.mem_children.2 ht))
  refine ends_bind.2 (ends_get.2 ?_)
  dsimp only
  split
  · exact h
  next cells hcells =>
  split
  · exact h
  next survivor hv =>
  have rows : ∀ row ∈ s.children g, s.kind? row = some .row := fun row => h.wf.kind_row hg
  have hvk : s.kind? survivor = some .cell := by
    have hmem := List.mem_of_find?_eq_some hv
    cases hrow : (s.children g)[rect.top]? with
    | none => simp [hrow] at hmem
    | some row =>
      rw [hrow] at hmem
      exact h.wf.kind_cell (rows row (List.mem_of_getElem? hrow)) hmem
  have hcellk := h.wf.kind_candidates hg hcells
  have absorb : Keeps (Anchored S T d) (Action.absorbContent survivor cells) :=
    A.absorbContent (h.not_closed A hvk (.inl rfl)) (h.not_parent A hvk rfl)
      fun c hc => h.not_parent A (hcellk c hc) rfl
  have clear : Keeps (Anchored S T d) (((rect.rowsOf (s.children g)).drop 1).reverse.mapM
      (Action.clearRow survivor cells)) := by
    refine Keeps.mapM_of_mem fun row hrow => ?_
    rw [List.mem_reverse] at hrow
    have hmem : row ∈ s.children g :=
      List.mem_of_mem_take (List.mem_of_mem_drop (List.mem_of_mem_drop hrow))
    rw [same.children] at hrow
    exact clearRow (free row hrow) (h.not_parent A (rows row hmem) rfl) _ _
  have rest : Keeps (Anchored S T d) ((cells.filter (· != survivor)).forM Action.detach) :=
    Keeps.forM_of_mem fun c hc => detach <| A.not_cell wf <|
      (same.kind c).symm.trans (hcellk c (List.mem_filter.1 hc).1)
  refine (absorb.bind fun _ => (still (still_updateCell _ _)).bind fun _ => clear.bind fun cleared =>
    rest.bind fun _ => ?_) s h
  have last : Keeps (Anchored S T d) (do
      let _ ← Action.place t
      Action.checkGrid t
      Action.correctGroupBorders t g
      return ((← get).firstCaret? survivor).map Segment.collapsed) :=
    (still (still_place t)).bind fun _ => (still (still_checkGrid t)).bind fun _ =>
      (still (still_correctGroupBorders t g)).bind fun _ => keeps_get.bind fun _ => keeps_pure _
  split
  · exact (still (still_updateCell _ _)).bind fun _ => last
  · exact last

/-- Deleting rows takes out these rows, or their row group if there are no others in it, or the table if
this is its only row group. -/
theorem deleteRowInterval (wf : d.WellFormed) {g t : NodeId} {first last : Nat}
    (ht : d.parent? g = some t)
    (table : first = 0 → last + 1 = (d.children g).length → (d.children t).length = 1 → ¬ S t)
    (group : first = 0 → last + 1 = (d.children g).length → ¬ S g)
    (rows : ¬ (first = 0 ∧ last + 1 = (d.children g).length) →
      ∀ row ∈ ((d.children g).take (last + 1)).drop first, ¬ S row) :
    Ends (Action.deleteRowInterval g first last) d (fun _ => Anchored S T d)
      fun _ => Anchored S T d := by
  have h : Anchored S T d d := .refl wf
  refine ends_requireParent_bind (fun t' ht' hk => ?_) fun _ => h
  obtain rfl := Option.some.inj (ht.symm.trans ht')
  have hg : d.kind? g = some .rowGroup := wf.kind_group hk (wf.mem_children.2 ht)
  refine ends_bind.2 (ends_get.2 ?_)
  dsimp only
  split
  · exact h
  split
  · next whole =>
    refine ends_bind.2 (ends_get.2 ?_)
    split
    · next single => exact ((detach (table whole.1 whole.2 single)).bind fun _ => keeps_pure _) d h
    · exact ((detach (group whole.1 whole.2)).bind fun _ => (still (still_settle t)).bind fun _ =>
        keeps_pure _) d h
  · next part =>
    have taken : Keeps (Anchored S T d) ((((d.children g).take (last + 1)).drop first).forM
        Action.detach) := Keeps.forM_of_mem fun row hrow => detach (rows part row hrow)
    refine ((still (still_place t)).bind fun _ => (still (still_clampRowSpans g)).bind fun _ =>
      keeps_get.bind fun s => (still (.forM (fun _ => still_updateCell _ _) _)).bind fun _ => ?_) d h
    split
    · next next hnext =>
      have hrow := wf.kind_row hg (List.mem_of_getElem? hnext)
      exact (Keeps.forM (fun _ => A.recreateIn (h.not_closed A hrow (.inl rfl)) _ _) _).bind fun _ =>
        taken.bind fun _ => (still (still_settle t)).bind fun _ => keeps_pure _
    · exact (keeps_pure ()).bind fun _ => taken.bind fun _ =>
        (still (still_settle t)).bind fun _ => keeps_pure _

end Anchors

end RichTable.Document
