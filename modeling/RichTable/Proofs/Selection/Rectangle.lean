import Mathlib
import RichTable.Proofs.Selection.Cells
import RichTable.Proofs.Twin.Related

/-!
# The rectangle between two cells

A range of cells has one segment in each of its rows, from the first to the last of the cells of the
row that lie inside its columns. The cells of a settled table are stored from left to right, so these
cells follow each other (`WellFormed.admittedRun_eq_filter`) and the segment takes in no other cell.
Rows are in the order of the document, and so are their segments.
-/

namespace RichTable

/-! ## Runs of a list -/

theorem takeWhile_eq_filter {α : Type} {p : α → Bool} {l : List α}
    (h : l.Pairwise fun x y => p y = true → p x = true) : l.takeWhile p = l.filter p := by
  induction l with
  | nil => rfl
  | cons x l ih =>
    obtain ⟨first, rest⟩ := List.pairwise_cons.1 h
    cases hx : p x with
    | true => rw [List.takeWhile_cons_of_pos hx, List.filter_cons_of_pos hx, ih rest]
    | false =>
      have none : l.filter p = [] := List.filter_eq_nil_iff.2 fun y hy hp => by
        rw [first y hy hp] at hx
        cases hx
      rw [List.takeWhile_cons_of_neg (by simp [hx]), List.filter_cons_of_neg (by simp [hx]), none]

/-- If the entries above a lower bound come last and those below an upper bound come first, the entries
between the bounds follow each other. -/
theorem takeWhile_dropWhile_eq_filter {α : Type} {low high : α → Bool} {l : List α}
    (h : l.Pairwise fun x y => (low x = true → low y = true) ∧ (high y = true → high x = true)) :
    (l.dropWhile fun x => !(low x && high x)).takeWhile (fun x => low x && high x) =
      l.filter fun x => low x && high x := by
  induction l with
  | nil => rfl
  | cons x l ih =>
    obtain ⟨first, rest⟩ := List.pairwise_cons.1 h
    cases hx : low x && high x with
    | false =>
      rw [List.dropWhile_cons_of_pos (by simp [hx]), List.filter_cons_of_neg (by simp [hx]), ih rest]
    | true =>
      rw [List.dropWhile_cons_of_neg (by simp [hx]), takeWhile_eq_filter]
      rw [Bool.and_eq_true] at hx
      refine List.pairwise_cons.2 ⟨fun y hy _ => by simp [hx], ?_⟩
      refine rest.imp_of_mem fun {y z} hy _ order hz => ?_
      rw [Bool.and_eq_true] at hz ⊢
      exact ⟨(first y hy).1 hx.1, order.2 hz.2⟩

namespace Document

open Placement

variable {L : Type} {d : Document L} {t : NodeId}

/-- The columns of a cell lie inside `columns`. -/
def InColumns (d : Document L) (columns : ColumnRange) (c : NodeId) : Prop :=
  ∃ r, d.columnRange? c = some r ∧ columns.first ≤ r.first ∧ r.last ≤ columns.last

/-- The segment and the interval that a node takes up have more in common than an end. -/
def Overlaps (d : Document L) (s : Segment) (c : NodeId) : Prop :=
  ∃ i j, d.elementStart? c = some i ∧ d.elementEnd? c = some j ∧
    max i s.start.offset < min j s.stop.offset

/-- The segment starts in `first` and ends where `last` does. -/
structure Joins (d : Document L) (first last : NodeId) (s : Segment) : Prop where
  start : d.Holds first s.start.offset
  stop : d.elementEnd? last = some s.stop.offset

/-- The segment from the first to the last of the cells of a row that lie inside some columns. -/
structure RunSegment (d : Document L) (columns : ColumnRange) (row first last : NodeId)
    (s : Segment) : Prop where
  mem_first : first ∈ d.children row
  mem_last : last ∈ d.children row
  inside_first : d.InColumns columns first
  inside_last : d.InColumns columns last
  order : first = last ∨ d.EndsBefore first last
  extreme : ∀ c ∈ d.children row, d.InColumns columns c →
    ¬ d.EndsBefore c first ∧ ¬ d.EndsBefore last c
  joins : d.Joins first last s

theorem admits_iff {columns : ColumnRange} {c : NodeId} :
    d.admits (.range columns) c = true ↔ d.InColumns columns c := by
  simp [admits, InColumns, Option.any_eq_true, ColumnRange.within]

namespace WellFormed

/-! ## One segment -/

section Segment

variable {first last c : NodeId} {s : Segment}

theorem exists_joins (wf : d.WellFormed) (ht : d.kind? t = some .table)
    (attached : root ∈ d.ancestors t) (hf : first ∈ d.tableCells t) (hl : last ∈ d.tableCells t)
    (order : first = last ∨ d.EndsBefore first last) :
    ∃ s, d.cellSegment? first last = some s ∧ d.Joins first last s := by
  obtain ⟨i, hi, -⟩ := wf.exists_start ht attached hf
  obtain ⟨j, hj, stop⟩ := wf.exists_start ht attached hl
  have start : ∃ p, (d.firstCaret? first).or (d.edgePosition? first .afterStart) = some p ∧
      d.Holds first p.offset := by
    cases hp : d.firstCaret? first with
    | some p =>
      exact ⟨p, rfl, (wf.firstCaret_of_eq_some (wf.attached_of_elementStart? hi) hp).holds⟩
    | none =>
      refine ⟨⟨i + 1, .forward⟩, by simp [edgePosition?, wf.contentStart?_eq_map hi], ?_⟩
      exact ⟨i + 1, wf.contentStart?_eq_map hi, le_rfl, Nat.le_add_right _ _⟩
  obtain ⟨p, hp, holds⟩ := start
  refine ⟨⟨p, ⟨j + d.symbolLength last, .backward⟩⟩, ?_, holds, stop⟩
  have hlt := wf.lt_end_of_holds order holds stop
  rw [cellSegment?, hp]
  simp [edgePosition?, stop, Segment.between, hlt.le]

/-- A segment from one cell to another takes in the cells that are neither before nor behind. -/
theorem overlaps_iff (wf : d.WellFormed) (ht : d.kind? t = some .table)
    (attached : root ∈ d.ancestors t) (hf : first ∈ d.tableCells t) (hl : last ∈ d.tableCells t)
    (order : first = last ∨ d.EndsBefore first last) (joins : d.Joins first last s)
    (hc : c ∈ d.tableCells t) :
    d.Overlaps s c ↔ ¬ d.EndsBefore c first ∧ ¬ d.EndsBefore last c := by
  obtain ⟨i, hi, hi'⟩ := wf.exists_start ht attached hc
  have cells := wf.pairwise_tableCells attached
  constructor
  · rintro ⟨i', j', ho, hj, hlt⟩
    rw [hi, Option.some.injEq] at ho
    constructor
    · rintro ⟨u, v, hu, hv, hle⟩
      have := (wf.holds_iff_between hv).1 joins.start
      rw [hj, Option.some.injEq] at hu
      omega
    · rintro ⟨u, v, hu, hv, hle⟩
      rw [joins.stop, Option.some.injEq] at hu
      rw [hi, Option.some.injEq] at hv
      omega
  · rintro ⟨notBefore, notBehind⟩
    have after : first = c ∨ d.EndsBefore first c := by
      rcases eq_or_ne first c with rfl | hne
      · exact .inl rfl
      · exact .inr ((or_of_pairwise cells hf hc hne).resolve_right notBefore)
    have before : c = last ∨ d.EndsBefore c last := by
      rcases eq_or_ne c last with rfl | hne
      · exact .inl rfl
      · exact .inr ((or_of_pairwise cells hc hl hne).resolve_right notBehind)
    have inside : d.Holds c (i + 1) :=
      ⟨i + 1, wf.contentStart?_eq_map hi, le_rfl, Nat.le_add_right _ _⟩
    have h₁ := wf.lt_end_of_holds after joins.start hi'
    have h₂ := wf.lt_end_of_holds before inside joins.stop
    have h₃ := wf.lt_end_of_holds order joins.start joins.stop
    have := symbolLength_pos (d := d) c
    exact ⟨i, _, hi, hi', by omega⟩

end Segment

/-! ## One row -/

section Row

variable (wf : d.WellFormed) (ht : d.kind? t = some .table) (settled : d.Settled t)

include wf ht settled

theorem columnRange?_of_settled {c : NodeId} (hc : c ∈ d.tableCells t) :
    d.columnRange? c = some ⟨d.shape.start c, d.shape.start c + d.shape.width c - 1⟩ ∧
      0 < d.shape.width c := by
  obtain ⟨j, hj⟩ := Option.isSome_iff_exists.1 (((wf.settled_iff ht).1 settled).1 c hc)
  obtain ⟨g, hg, r, hs⟩ := mem_tableCells.1 hc
  exact ⟨by rw [columnRange?_eq hj, start_eq hj], wf.width_pos (wf.kind_group ht hg) hs⟩

/-- The cells of a row are stored from left to right. -/
theorem pairwise_row {row : NodeId} (hr : row ∈ d.tableRows t) :
    (d.children row).Pairwise fun b c => d.shape.start b + d.shape.width b ≤ d.shape.start c := by
  obtain ⟨g, hg, hr⟩ := List.mem_flatMap.1 hr
  exact pairwise_of_groupStarts_eq (((wf.settled_iff ht).1 settled).2.1 g hg) (d.children row)
    (List.mem_map_of_mem hr)

/-- The cells of a row that lie inside some columns follow each other. -/
theorem admittedRun_eq_filter {row : NodeId} (hr : row ∈ d.tableRows t) (columns : ColumnRange) :
    d.admittedRun (.range columns) row = (d.children row).filter (d.admits (.range columns)) := by
  have split : d.admits (.range columns) = fun c =>
      (d.columnRange? c).any (columns.first ≤ ·.first) &&
        (d.columnRange? c).any (·.last ≤ columns.last) := by
    funext c
    cases h : d.columnRange? c <;> simp [admits, h, ColumnRange.within]
  rw [admittedRun, split]
  refine takeWhile_dropWhile_eq_filter ((wf.pairwise_row ht settled hr).imp_of_mem ?_)
  intro b c hb hc order
  obtain ⟨rangeB, -⟩ := wf.columnRange?_of_settled ht settled (List.mem_flatMap.2 ⟨row, hr, hb⟩)
  obtain ⟨rangeC, -⟩ := wf.columnRange?_of_settled ht settled (List.mem_flatMap.2 ⟨row, hr, hc⟩)
  simp only [rangeB, rangeC, Option.any_some, decide_eq_true_eq]
  omega

variable (attached : root ∈ d.ancestors t)

include attached

/-- The segment of a row that has cells inside some columns, and the one of a row that has none. -/
theorem cellsSegment?_admittedRun {row : NodeId} (hr : row ∈ d.tableRows t) (columns : ColumnRange) :
    (d.cellsSegment? (d.admittedRun (.range columns) row) = none ∧
      ∀ c ∈ d.children row, ¬ d.InColumns columns c) ∨
    ∃ s first last, d.cellsSegment? (d.admittedRun (.range columns) row) = some s ∧
      d.RunSegment columns row first last s := by
  have attachedRow := wf.attached_children (wf.attached_groups attached) row hr
  have mem : ∀ {c}, c ∈ (d.children row).filter (d.admits (.range columns)) ↔
      c ∈ d.children row ∧ d.InColumns columns c := by
    simp [List.mem_filter, admits_iff]
  have sorted := (wf.pairwise_children attachedRow).sublist
    (List.filter_sublist (p := d.admits (.range columns)))
  rw [wf.admittedRun_eq_filter ht settled hr]
  generalize (d.children row).filter (d.admits (.range columns)) = cells at mem sorted
  cases hcells : cells with
  | nil =>
    subst hcells
    exact .inl ⟨rfl, fun c hc inside => by simpa using mem.2 ⟨hc, inside⟩⟩
  | cons first rest =>
    rw [← hcells]
    have head : cells.head? = some first := by rw [hcells, List.head?_cons]
    obtain ⟨last, final⟩ := Option.isSome_iff_exists.1
      (List.getLast?_isSome.2 (List.ne_nil_of_mem (List.mem_of_head? head)))
    have hf := mem.1 (List.mem_of_head? head)
    have hl := mem.1 (List.mem_of_getLast? final)
    have order := eq_or_of_head? sorted head (List.mem_of_getLast? final)
    obtain ⟨s, segment, joins⟩ := wf.exists_joins ht attached (List.mem_flatMap.2 ⟨row, hr, hf.1⟩)
      (List.mem_flatMap.2 ⟨row, hr, hl.1⟩) order
    refine .inr ⟨s, first, last, by simp [cellsSegment?, head, final, segment], hf.1, hl.1, hf.2, hl.2,
      order, fun c hc inside => ⟨fun h => ?_, fun h => ?_⟩, joins⟩
    · rcases eq_or_of_head? sorted head (mem.2 ⟨hc, inside⟩) with rfl | h'
      · exact h.irrefl
      · exact h.asymm h'
    · rcases eq_or_of_getLast? sorted final (mem.2 ⟨hc, inside⟩) with rfl | h'
      · exact h.irrefl
      · exact h.asymm h'

/-- The segment of a row takes in the cells of the row that lie inside the columns, and no others. -/
theorem overlaps_runSegment {row first last c : NodeId} (hr : row ∈ d.tableRows t)
    {columns : ColumnRange} {s : Segment} (segment : d.RunSegment columns row first last s)
    (hc : c ∈ d.tableCells t) : d.Overlaps s c ↔ c ∈ d.children row ∧ d.InColumns columns c := by
  have hf := List.mem_flatMap.2 ⟨row, hr, segment.mem_first⟩
  have hl := List.mem_flatMap.2 ⟨row, hr, segment.mem_last⟩
  rw [wf.overlaps_iff ht attached hf hl segment.order segment.joins hc]
  refine ⟨fun h => ?_, fun h => segment.extreme c h.1 h.2⟩
  obtain ⟨notBefore, notBehind⟩ := h
  obtain ⟨row', hr', hcr⟩ := List.mem_flatMap.1 hc
  -- a cell of another row is before `first` or behind `last`
  obtain rfl : row' = row := by
    by_contra hne
    rcases or_of_pairwise (wf.pairwise_tableRows attached) hr' hr hne with h | h
    · exact notBefore (wf.endsBefore_below h (wf.mem_ancestors_of_mem_children hcr)
        (wf.mem_ancestors_of_mem_children segment.mem_first))
    · exact notBehind (wf.endsBefore_below h (wf.mem_ancestors_of_mem_children segment.mem_last)
        (wf.mem_ancestors_of_mem_children hcr))
  have stored := (wf.pairwise_children
    (wf.attached_children (wf.attached_groups attached) row' hr)).and (wf.pairwise_row ht settled hr)
  obtain ⟨range, width⟩ := wf.columnRange?_of_settled ht settled hc
  obtain ⟨rangeF, widthF⟩ := wf.columnRange?_of_settled ht settled hf
  obtain ⟨rangeL, widthL⟩ := wf.columnRange?_of_settled ht settled hl
  obtain ⟨_, eq, low, -⟩ := segment.inside_first
  obtain rfl := Option.some.inj (rangeF.symm.trans eq)
  obtain ⟨_, eq, -, high⟩ := segment.inside_last
  obtain rfl := Option.some.inj (rangeL.symm.trans eq)
  refine ⟨hcr, _, range, ?_, ?_⟩
  · rcases eq_or_ne first c with rfl | hne
    · exact low
    rcases or_of_pairwise stored segment.mem_first hcr hne with ⟨-, h⟩ | ⟨h, -⟩
    · simp only at low ⊢
      omega
    · exact absurd h notBefore
  · rcases eq_or_ne c last with rfl | hne
    · exact high
    rcases or_of_pairwise stored hcr segment.mem_last hne with ⟨-, h⟩ | ⟨h, -⟩
    · simp only at high ⊢
      omega
    · exact absurd h notBehind

theorem exists_runSegment {row : NodeId} (hr : row ∈ d.tableRows t) {columns : ColumnRange}
    {s : Segment} (h : d.cellsSegment? (d.admittedRun (.range columns) row) = some s) :
    ∃ first last, d.RunSegment columns row first last s := by
  rcases wf.cellsSegment?_admittedRun ht settled attached hr columns with
    ⟨none, -⟩ | ⟨s', first, last, eq, segment⟩
  · cases none.symm.trans h
  · obtain rfl := Option.some.inj (eq.symm.trans h)
    exact ⟨first, last, segment⟩

end Row

end WellFormed

/-! ## All rows -/

/-- The segments select the cells of some rows of a table that lie inside some columns. -/
structure RectangleSegments (d : Document L) (t : NodeId) (rows : List NodeId) (columns : ColumnRange)
    (segments : List Segment) : Prop where
  /-- There is one segment for each row that stores such a cell. -/
  rowwise : ∃ stored : List NodeId, stored.Sublist rows ∧
    (∀ row ∈ rows, row ∈ stored ↔ ∃ c ∈ d.children row, d.InColumns columns c) ∧
    List.Forall₂ (fun row s => ∃ first last, d.RunSegment columns row first last s) stored segments
  overlaps : ∀ c ∈ d.tableCells t, (∃ s ∈ segments, d.Overlaps s c) ↔
    (∃ row ∈ rows, c ∈ d.children row) ∧ d.InColumns columns c
  proper : ∀ s ∈ segments, s.start.offset < s.stop.offset
  increasing : segments.Pairwise fun s s' => s.stop.offset < s'.start.offset

namespace WellFormed

theorem rectangleSegments (wf : d.WellFormed) (ht : d.kind? t = some .table)
    (settled : d.Settled t) (attached : root ∈ d.ancestors t) {rows : List NodeId}
    (sub : rows.Sublist (d.tableRows t)) (columns : ColumnRange) :
    d.RectangleSegments t rows columns
      (rows.filterMap fun row => d.cellsSegment? (d.admittedRun (.range columns) row)) where
  rowwise := by
    refine ⟨rows.filter fun row => (d.cellsSegment? (d.admittedRun (.range columns) row)).isSome,
      List.filter_sublist, fun row hr => ?_, ?_⟩
    · rw [List.mem_filter, and_iff_right hr]
      rcases wf.cellsSegment?_admittedRun ht settled attached (sub.subset hr) columns with
        ⟨none, empty⟩ | ⟨s, first, last, eq, segment⟩
      · simpa [none] using empty
      · simpa [eq] using ⟨first, segment.mem_first, segment.inside_first⟩
    · refine List.Forall₂.imp (fun row s h => ?_) ((List.forall₂_and_left _ _).2
        ⟨fun row hr => sub.subset (List.mem_filter.1 hr).1, related_filterMap _ rows⟩)
      exact wf.exists_runSegment ht settled attached h.1 h.2
  overlaps c hc := by
    simp only [List.mem_filterMap]
    constructor
    · rintro ⟨s, ⟨row, hr, hs⟩, overlap⟩
      obtain ⟨first, last, segment⟩ := wf.exists_runSegment ht settled attached (sub.subset hr) hs
      obtain ⟨hcr, inside⟩ :=
        (wf.overlaps_runSegment ht settled attached (sub.subset hr) segment hc).1 overlap
      exact ⟨⟨row, hr, hcr⟩, inside⟩
    · rintro ⟨⟨row, hr, hcr⟩, inside⟩
      rcases wf.cellsSegment?_admittedRun ht settled attached (sub.subset hr) columns with
        ⟨-, empty⟩ | ⟨s, first, last, eq, segment⟩
      · exact absurd inside (empty c hcr)
      · exact ⟨s, ⟨row, hr, eq⟩,
          (wf.overlaps_runSegment ht settled attached (sub.subset hr) segment hc).2 ⟨hcr, inside⟩⟩
  proper s hs := by
    obtain ⟨row, hr, hs⟩ := List.mem_filterMap.1 hs
    obtain ⟨first, last, segment⟩ := wf.exists_runSegment ht settled attached (sub.subset hr) hs
    exact wf.lt_end_of_holds segment.order segment.joins.start segment.joins.stop
  increasing := by
    refine List.pairwise_filterMap.2 (((wf.pairwise_tableRows attached).sublist sub).imp_of_mem ?_)
    intro row row' hr hr' apart s hs s' hs'
    obtain ⟨first, last, segment⟩ := wf.exists_runSegment ht settled attached (sub.subset hr) hs
    obtain ⟨first', last', segment'⟩ := wf.exists_runSegment ht settled attached (sub.subset hr') hs'
    -- the segment of the upper row ends with a cell, and that of the lower row starts in one
    obtain ⟨i, j, hi, hj, hle⟩ := wf.endsBefore_below apart
      (wf.mem_ancestors_of_mem_children segment.mem_last)
      (wf.mem_ancestors_of_mem_children segment'.mem_first)
    rw [segment.joins.stop, Option.some.injEq] at hi
    have := (wf.holds_iff_between hj).1 segment'.joins.start
    omega

section Range

variable {a b row rowA rowB : NodeId} {i j : Nat}

theorem tableRowIndex?_eq (wf : d.WellFormed) (ht : d.kind? t = some .table)
    (hi : (d.tableRows t)[i]? = some row) (ha : a ∈ d.children row) :
    d.tableRowIndex? t a = some i := by
  rw [tableRowIndex?, wf.rowOf?_eq (wf.kind_tableRows ht (List.mem_of_getElem? hi)) ha,
    Option.bind_some, List.idxOf?_eq_some_iff]
  obtain ⟨hlt, rfl⟩ := List.getElem?_eq_some_iff.1 hi
  refine ⟨hlt, rfl, fun k hk same => ?_⟩
  have := (wf.nodup_tableRows t).getElem_inj_iff.1 same
  omega

theorem effectiveRowSpan_pos (wf : d.WellFormed) (ht : d.kind? t = some .table)
    (ha : a ∈ d.tableCells t) : 0 < d.effectiveRowSpan a := by
  obtain ⟨g, hg, r, hs⟩ := mem_tableCells.1 ha
  have hgk := wf.kind_group ht hg
  obtain ⟨row, hr, -⟩ := stored_rowsOf.1 hs
  have hlt := (List.getElem?_eq_some_iff.1 hr).1
  have := wf.height_pos hgk hs
  rw [wf.effectiveRowSpan_eq hgk hs]
  omega

theorem cellRange?_eq (wf : d.WellFormed) (ht : d.kind? t = some .table)
    (hi : (d.tableRows t)[i]? = some rowA) (ha : a ∈ d.children rowA)
    (hj : (d.tableRows t)[j]? = some rowB) (hb : b ∈ d.children rowB) {r s : ColumnRange}
    (hr : d.columnRange? a = some r) (hs : d.columnRange? b = some s) :
    d.cellRange? a b = some ⟨t, .range (r.join s), (((d.tableRows t).take
      (max (i + d.effectiveRowSpan a) (j + d.effectiveRowSpan b))).drop (min i j)).filterMap
        fun row => d.cellsSegment? (d.admittedRun (.range (r.join s)) row)⟩ := by
  have hat := List.mem_flatMap.2 ⟨rowA, List.mem_of_getElem? hi, ha⟩
  have hbt := List.mem_flatMap.2 ⟨rowB, List.mem_of_getElem? hj, hb⟩
  have spanA := wf.effectiveRowSpan_pos ht hat
  have spanB := wf.effectiveRowSpan_pos ht hbt
  have stop : max (i + max (d.effectiveRowSpan a) 1 - 1) (j + max (d.effectiveRowSpan b) 1 - 1) + 1 =
      max (i + d.effectiveRowSpan a) (j + d.effectiveRowSpan b) := by omega
  have columns : d.columnBounds? a b = some (r.join s) := by rw [columnBounds?, hr, hs]
  simp only [cellRange?, wf.tableOfCell?_eq ht hat, wf.tableOfCell?_eq ht hbt, Option.bind_eq_bind,
    Option.bind_some, ne_eq, not_true_eq_false, if_false, wf.tableRowIndex?_eq ht hi ha,
    wf.tableRowIndex?_eq ht hj hb, columns, stop, Option.map_some, Option.getD_some]
  rfl

end Range

end WellFormed

/-- Two cells of a settled table select the rectangle between them: the rows from the higher one down
to the lowest row that either of them occupies, and the columns of both. -/
theorem cellRange?_rectangle (wf : d.WellFormed) (ht : d.kind? t = some .table)
    (attached : root ∈ d.ancestors t) (settled : d.Settled t) {a b rowA rowB : NodeId} {i j : Nat}
    (hi : (d.tableRows t)[i]? = some rowA) (ha : a ∈ d.children rowA)
    (hj : (d.tableRows t)[j]? = some rowB) (hb : b ∈ d.children rowB) :
    ∃ r s range, d.columnRange? a = some r ∧ d.columnRange? b = some s ∧
      d.cellRange? a b = some range ∧ d.cellRange? b a = some range ∧ range.table = t ∧
      d.RectangleSegments t (((d.tableRows t).take
          (max (i + d.effectiveRowSpan a) (j + d.effectiveRowSpan b))).drop (min i j))
        ⟨min r.first s.first, max r.last s.last⟩ range.segments := by
  have hat := List.mem_flatMap.2 ⟨rowA, List.mem_of_getElem? hi, ha⟩
  have hbt := List.mem_flatMap.2 ⟨rowB, List.mem_of_getElem? hj, hb⟩
  obtain ⟨rangeA, -⟩ := wf.columnRange?_of_settled ht settled hat
  obtain ⟨rangeB, -⟩ := wf.columnRange?_of_settled ht settled hbt
  have eq := wf.cellRange?_eq ht hi ha hj hb rangeA rangeB
  exact ⟨_, _, _, rangeA, rangeB, eq, (cellRange?_comm b a).trans eq, rfl,
    wf.rectangleSegments ht settled attached
      ((List.drop_sublist _ _).trans (List.take_sublist _ _)) _⟩

/-- A table with a wide cell, a tall cell and a second row group. -/
def tallBelowWide : Document Int :=
  Call.runAll [.buildTable .standard root { groups :=
    [[[{ text := "a", columnSpan := 2 }, { text := "b" }],
      [{ text := "c" }, { text := "d", rowSpan := 2 }, { text := "e" }],
      [{ text := "f" }, { text := "g" }]],
     [[{ text := "h" }, { text := "i" }, { text := "j" }]]] }, .place 1] .empty

/-- The cells `b` and `d` of this table, of which `d` is the tall one. -/
theorem cellRange?_rectangle_tallBelowWide :
    tallBelowWide.WellFormed ∧ tallBelowWide.kind? 1 = some .table ∧
      root ∈ tallBelowWide.ancestors 1 ∧ tallBelowWide.Settled 1 ∧
      (tallBelowWide.tableRows 1)[0]? = some 3 ∧ 7 ∈ tallBelowWide.children 3 ∧
      (tallBelowWide.tableRows 1)[1]? = some 10 ∧ 14 ∈ tallBelowWide.children 10 ∧
      tallBelowWide.effectiveRowSpan 7 = 1 ∧ tallBelowWide.effectiveRowSpan 14 = 2 ∧
      ∃ r s range, tallBelowWide.columnRange? 7 = some r ∧ tallBelowWide.columnRange? 14 = some s ∧
        tallBelowWide.cellRange? 7 14 = some range ∧ tallBelowWide.cellRange? 14 7 = some range ∧
        range.table = 1 ∧ tallBelowWide.RectangleSegments 1 (((tallBelowWide.tableRows 1).take
            (max (0 + tallBelowWide.effectiveRowSpan 7) (1 + tallBelowWide.effectiveRowSpan 14))).drop
              (min 0 1))
          ⟨min r.first s.first, max r.last s.last⟩ range.segments := by
  have wf : tallBelowWide.WellFormed := Call.wellFormed_runAll _
  have settled : tallBelowWide.Settled 1 := by
    unfold Settled
    decide +kernel
  have cells : tallBelowWide.kind? 1 = some .table ∧ root ∈ tallBelowWide.ancestors 1 ∧
      (tallBelowWide.tableRows 1)[0]? = some 3 ∧ 7 ∈ tallBelowWide.children 3 ∧
      (tallBelowWide.tableRows 1)[1]? = some 10 ∧ 14 ∈ tallBelowWide.children 10 ∧
      tallBelowWide.effectiveRowSpan 7 = 1 ∧ tallBelowWide.effectiveRowSpan 14 = 2 := by
    decide +kernel
  obtain ⟨ht, attached, hi, ha, hj, hb, spanA, spanB⟩ := cells
  exact ⟨wf, ht, attached, settled, hi, ha, hj, hb, spanA, spanB,
    cellRange?_rectangle wf ht attached settled hi ha hj hb⟩

end Document

end RichTable
