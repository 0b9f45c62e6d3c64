import Mathlib
import RichTable.Column.Drag
import RichTable.Proofs.Column.Layout
import RichTable.Proofs.Tree.Calls

/-!
# What a drag shows and what it writes

A drag that started from a layout keeps the widths of that layout, however often the pointer moves
(`StartedFrom.run`). The bounds of the border are such that no column becomes negative, so the widths
that a drop writes are those that the drag has shown (`Previews`), and a layout that is computed from
them later finds fixed columns only and gives them back (`Commits`). `commit_keeps_preview` has both.
-/

namespace RichTable

namespace Length

theorem sum_eq (as : List ℚ) : Length.sum as = as.sum := List.sum_eq_foldl.symm

/-- Between bounds that are ordered, `clamp` gives the nearest point. -/
theorem clamp_eq {a lo hi : ℚ} (h : lo ≤ hi) : Length.clamp a lo hi = lo ⊔ (a ⊓ hi) := by
  simp only [Length.clamp]
  split_ifs with below above above
  · exact absurd h (not_le.2 above)
  · rw [min_eq_left (below.le.trans h), max_eq_left below.le]
  · rw [min_eq_right above.le, max_eq_right h]
  · rw [min_eq_left (not_lt.1 above), max_eq_right (not_lt.1 below)]

end Length

theorem sum_modify {l : List ℚ} {i : Nat} {w : ℚ} (h : l[i]? = some w) (f : ℚ → ℚ) :
    (l.modify i f).sum = l.sum + (f w - w) := by
  induction l generalizing i with
  | nil => cases h
  | cons v l ih =>
    cases i with
    | zero =>
      rw [List.getElem?_cons_zero, Option.some.injEq] at h
      rw [List.modify_zero_cons, List.sum_cons, List.sum_cons, h]
      ring
    | succ i =>
      rw [List.modify_succ_cons, List.sum_cons, List.sum_cons, ih h]
      ring

/-- If all columns have a width of their own, none is missing and none is automatic. -/
theorem TableProps.effectiveColumns_eq {L : Type} {props : TableProps L} {count : Nat}
    (h : props.columns.length = count) : props.effectiveColumns count = props.columns := by
  refine List.ext_getElem (by simp [effectiveColumns, h]) fun i hi hi' => ?_
  simp [effectiveColumns, List.getElem?_eq_getElem hi']

namespace ColumnLayout

variable {d : Document ℚ} {t : NodeId} {autofitWidth : ℚ} {l : ColumnLayout ℚ}

theorem length_widths_of_compute? (h : compute? d t autofitWidth = some l) :
    l.widths.length = d.columnCount t := by
  obtain ⟨props, hprops, -, -, -, -, hwidths⟩ := exists_of_compute? h
  have count : d.columnCount t = props.columnCount := by
    rw [Document.columnCount, hprops, Option.map_some, Option.getD_some]
  rw [hwidths, count, List.length_map, TableProps.effectiveColumns, List.length_map, List.length_range]

theorem Ordered.width_nonneg (h : l.Ordered) {w : ℚ} (hw : w ∈ l.widths) : 0 ≤ w := by
  obtain ⟨c, hc⟩ := List.getElem?_of_mem hw
  obtain ⟨r, hr⟩ := h.exists_rect (h.length ▸ (List.getElem?_eq_some_iff.1 hc).1)
  rw [(rect?_eq_some.1 hr).2, Option.some.injEq] at hc
  exact hc ▸ h.width hr

/-- A table that grows by no more than its slack stays within the width it may take up, unless it was
too wide before. -/
theorem totalWidth_add_le {δ : ℚ} (h : δ ≤ l.slack) :
    l.totalWidth + δ ≤ l.autofitWidth ⊔ l.totalWidth := by
  rw [slack, Length.max_eq] at h
  rcases le_max_iff.1 h with h | h
  · exact le_max_of_le_left (by linarith)
  · exact le_max_of_le_right (by linarith)

/-- The widths of fixed columns do not depend on the width that the table may take up. -/
theorem compute?_fixed {props : TableProps ℚ} {widths : List ℚ} (ht : d.table? t = some props)
    (columns : props.columns = widths.map .fixed) (count : props.columnCount = widths.length)
    (pos : widths ≠ []) (nonneg : ∀ w ∈ widths, 0 ≤ w) (autofitWidth : ℚ) :
    ∃ l, compute? d t autofitWidth = some l ∧ l.widths = widths := by
  have effective : props.effectiveColumns props.columnCount = widths.map .fixed := by
    rw [TableProps.effectiveColumns_eq (by rw [columns, count, List.length_map]), columns]
  have resolve : ∀ share : ℚ, (widths.map .fixed).map (ColumnWidth.resolve share) = widths := by
    intro share
    rw [List.map_map]
    refine (List.map_congr_left fun w hw => ?_).trans (List.map_id widths)
    rw [Function.comp_apply, ColumnWidth.resolve, Length.max_eq, max_eq_left (nonneg w hw), id]
  have some : props.columnCount ≠ 0 := by
    rw [count]
    exact (List.length_pos_of_ne_nil pos).ne'
  refine ⟨_, by rw [compute?, ht]; exact if_neg some, ?_⟩
  dsimp only
  rw [effective, resolve]

end ColumnLayout

namespace ColumnDrag

open ColumnLayout

variable {d : Document ℚ} {l : ColumnLayout ℚ} {t : NodeId} {c : Nat} {originX x : ℚ}
  {s : ColumnDrag ℚ}

/-! ## Drags of one layout -/

/-- A drag of the right border of column `c` that has started from a layout. -/
structure StartedFrom (l : ColumnLayout ℚ) (t : NodeId) (c : Nat) (originX : ℚ) (s : ColumnDrag ℚ) :
    Prop where
  table : s.table = t
  column : s.column = c
  width : l.widths[c]? = some s.initial.width
  widths : s.widths = l.widths
  slack : s.slack = l.slack
  origin : s.originX = originX

theorem exists_startedFrom (h : l.Ordered) (hc : c < l.widths.length) (t : NodeId) (originX : ℚ) :
    ∃ s, ofLayout? t c l originX = some s ∧ s.StartedFrom l t c originX := by
  obtain ⟨r, hr⟩ := h.exists_rect (h.length ▸ hc)
  refine ⟨_, by rw [ofLayout?, hr, Option.map_some], ?_⟩
  exact ⟨rfl, rfl, (rect?_eq_some.1 hr).2, rfl, rfl, rfl⟩

namespace StartedFrom

/-- Moving the pointer changes only what is shown. -/
theorem step (h : s.StartedFrom l t c originX) (x : ℚ) : (s.preview x).StartedFrom l t c originX :=
  ⟨h.table, h.column, h.width, h.widths, h.slack, h.origin⟩

theorem run (h : s.StartedFrom l t c originX) (moves : List ℚ) :
    (moves.foldl preview s).StartedFrom l t c originX := by
  induction moves generalizing s with
  | nil => exact h
  | cons x moves ih => exact ih (h.step x)

section

variable (h : s.StartedFrom l t c originX)

include h

/-! ## How far the border moves -/

theorem rightMax_eq : s.rightMax = (l.widths[c + 1]?).getD l.slack := by
  rw [rightMax, h.widths, h.column]
  split
  · next w hw => rw [hw, Option.getD_some]
  · next hw => rw [hw, Option.getD_none, h.slack, ColumnLayout.slack, Length.max_eq, Length.max_eq,
      max_eq_left (le_max_right _ _)]

theorem leftMax_nonneg (ordered : l.Ordered) : 0 ≤ s.leftMax :=
  ordered.width_nonneg (List.mem_of_getElem? h.width)

theorem rightMax_nonneg (ordered : l.Ordered) : 0 ≤ s.rightMax := by
  rw [h.rightMax_eq]
  cases hw : l.widths[c + 1]? with
  | some w => exact ordered.width_nonneg (List.mem_of_getElem? hw)
  | none =>
    rw [Option.getD_none, ColumnLayout.slack, Length.max_eq]
    exact le_max_right _ _

theorem bounds_le (ordered : l.Ordered) : -s.leftMax ≤ s.rightMax :=
  (neg_nonpos.2 (h.leftMax_nonneg ordered)).trans (h.rightMax_nonneg ordered)

theorem delta_eq (ordered : l.Ordered) :
    s.delta x = -s.leftMax ⊔ ((x - originX) ⊓ s.rightMax) := by
  rw [delta, Length.clamp_eq (h.bounds_le ordered), h.origin]

theorem le_delta (ordered : l.Ordered) : -s.leftMax ≤ s.delta x := by
  rw [h.delta_eq ordered]
  exact le_max_left _ _

theorem delta_le (ordered : l.Ordered) : s.delta x ≤ s.rightMax := by
  rw [h.delta_eq ordered]
  exact max_le (h.bounds_le ordered) (min_le_right _ _)

/-! ## The widths that are shown -/

theorem getElem?_widthsAt (i : Nat) :
    (s.widthsAt x)[i]? = (l.widths[i]?).map fun w =>
      if i = c then w + s.delta x else if i = c + 1 then w - s.delta x else w := by
  rw [widthsAt, h.widths, h.column, List.getElem?_modify, List.getElem?_modify, Option.map_eq_map,
    Option.map_eq_map, Option.map_map]
  refine congrArg (Option.map · _) (funext fun w => ?_)
  by_cases dragged : c = i
  · simp [dragged]
  · by_cases next : c + 1 = i
    · simp [← next]
    · simp [dragged, next, Ne.symm dragged, Ne.symm next]

theorem length_widthsAt : (s.widthsAt x).length = l.widths.length := by
  rw [widthsAt, List.length_modify, List.length_modify, h.widths]

/-- The border stops where the column or its neighbour has no width left. -/
theorem widthsAt_nonneg (ordered : l.Ordered) {w : ℚ} (hw : w ∈ s.widthsAt x) : 0 ≤ w := by
  obtain ⟨i, hi⟩ := List.getElem?_of_mem hw
  rw [h.getElem?_widthsAt] at hi
  obtain ⟨v, hv, rfl⟩ := Option.map_eq_some_iff.1 hi
  have old := ordered.width_nonneg (List.mem_of_getElem? hv)
  split_ifs with column next
  · subst column
    have := h.le_delta ordered (x := x)
    rw [leftMax, ← Option.some.inj (hv.symm.trans h.width)] at this
    linarith
  · subst next
    have := h.delta_le ordered (x := x)
    rw [h.rightMax_eq, hv, Option.getD_some] at this
    linarith
  · exact old

theorem sum_widthsAt : (s.widthsAt x).sum =
    l.widths.sum + if c + 1 < l.widths.length then 0 else s.delta x := by
  have dragged : (l.widths.modify c (· + s.delta x)).sum = l.widths.sum + s.delta x := by
    rw [sum_modify h.width]
    ring
  rw [widthsAt, h.widths, h.column]
  split_ifs with inner
  · have next : (l.widths.modify c (· + s.delta x))[c + 1]? = some l.widths[c + 1] := by
      rw [List.getElem?_modify, List.getElem?_eq_getElem inner]
      simp
    rw [sum_modify next, dragged]
    ring
  · rw [List.modify_eq_self (by rw [List.length_modify]; omega), dragged]

end

end StartedFrom

/-- What a drag shows at `x`: the border can move left by the width of its column and right by that of
the next one, these bounds are ordered, no width is negative, and what the dragged column gains is lost
by its right neighbour, or by the slack of the table if there is none. -/
structure Previews (l : ColumnLayout ℚ) (c : Nat) (originX : ℚ) (s : ColumnDrag ℚ) (x : ℚ) :
    Prop where
  ordered : -s.leftMax ≤ s.rightMax
  left : l.widths[c]? = some s.leftMax
  right : s.rightMax = (l.widths[c + 1]?).getD l.slack
  delta : s.delta x = -s.leftMax ⊔ ((x - originX) ⊓ s.rightMax)
  nonneg : ∀ w ∈ s.widthsAt x, 0 ≤ w
  widths : ∀ i, (s.widthsAt x)[i]? = (l.widths[i]?).map fun w =>
    if i = c then w + s.delta x else if i = c + 1 then w - s.delta x else w
  shown : (s.widthsAt x)[c]? = some (s.preview x).rect.width
  inner : c + 1 < l.widths.length → (s.widthsAt x).sum = l.widths.sum
  last : c + 1 = l.widths.length →
    { l with widths := s.widthsAt x }.totalWidth ≤ l.autofitWidth ⊔ l.totalWidth

/-- `d'` is `d` with other column widths in a table, and nothing else is different. -/
structure Recolumned (d d' : Document ℚ) (t : NodeId) (columns : List (ColumnWidth ℚ)) : Prop where
  same : Document.SameTree d d'
  cell : ∀ n, d'.cell? n = d.cell? n
  table : ∀ n, d'.table? n = (d.table? n).map fun props =>
    if n = t then { props with columns } else props

/-- What dropping the border at `x` does to a document: if the table has `count` columns, these become
fixed, and every layout gives them the widths that the drag shows at `x`. Otherwise nothing happens. -/
structure Commits (count : Nat) (t : NodeId) (s : ColumnDrag ℚ) (x : ℚ) : Prop where
  done : ∀ d : Document ℚ, d.columnCount t = count → ∃ d', s.commit d x = (true, d') ∧
    Recolumned d d' t ((s.widthsAt x).map .fixed) ∧
    ∀ autofitWidth, ∃ l, compute? d' t autofitWidth = some l ∧ l.widths = s.widthsAt x
  refused : ∀ d : Document ℚ, d.columnCount t ≠ count → s.commit d x = (false, d)

namespace StartedFrom

theorem previews (h : s.StartedFrom l t c originX) (ordered : l.Ordered) (x : ℚ) :
    s.Previews l c originX x where
  ordered := h.bounds_le ordered
  left := h.width
  right := h.rightMax_eq
  delta := h.delta_eq ordered
  nonneg _ hw := h.widthsAt_nonneg ordered hw
  widths := h.getElem?_widthsAt
  shown := by
    rw [h.getElem?_widthsAt, h.width, Option.map_some, if_pos rfl]
    rfl
  inner inner := by rw [h.sum_widthsAt, if_pos inner, add_zero]
  last last := by
    have right : s.delta x ≤ l.slack := by
      have := h.delta_le ordered (x := x)
      rwa [h.rightMax_eq, List.getElem?_eq_none (by omega), Option.getD_none] at this
    have total : { l with widths := s.widthsAt x }.totalWidth = l.totalWidth + s.delta x := by
      rw [totalWidth, totalWidth, totalSpacing, totalSpacing, Length.sum_eq, Length.sum_eq,
        h.sum_widthsAt, if_neg (by omega), h.length_widthsAt]
      ring
    rw [total]
    exact totalWidth_add_le right

theorem commits (h : s.StartedFrom l t c originX) (ordered : l.Ordered) (x : ℚ) :
    s.Commits l.widths.length t x where
  done d count := by
    have pos : l.widths ≠ [] := List.ne_nil_of_mem (List.mem_of_getElem? h.width)
    have nonneg : ∀ w ∈ s.widthsAt x, 0 ≤ w := fun w hw => h.widthsAt_nonneg ordered hw
    obtain ⟨props, hprops⟩ : ∃ props, d.table? t = some props := by
      refine Option.ne_none_iff_exists'.1 fun none => pos (List.length_eq_zero_iff.1 ?_)
      rw [← count, Document.columnCount, none]
      rfl
    have columns : (s.widthsAt x).map (fun w => ColumnWidth.fixed (Length.max w 0)) =
        (s.widthsAt x).map .fixed := List.map_congr_left fun w hw => by
      rw [Length.max_eq, max_eq_left (nonneg w hw)]
    have written : Recolumned d (d.modifyTable t fun props =>
        { props with columns := (s.widthsAt x).map .fixed }) t ((s.widthsAt x).map .fixed) :=
      ⟨.modifyTable d t _, fun n => Document.cell?_modifyTable _ n _,
        fun n => Document.table?_modifyTable _ n _⟩
    refine ⟨_, ?_, written, ?_⟩
    · rw [commit, h.table, h.widths, if_neg (not_not.2 count), if_neg (by simp [hprops]), columns]
    · have table := written.table t
      rw [hprops, Option.map_some, if_pos rfl] at table
      refine compute?_fixed table rfl ?_ ?_ nonneg
      · rw [h.length_widthsAt, ← count, Document.columnCount, hprops]
        rfl
      · rw [← List.length_pos_iff_ne_nil, h.length_widthsAt]
        exact List.length_pos_of_ne_nil pos
  refused d count := by rw [commit, h.table, h.widths, if_pos count]

end StartedFrom

/-- The right border of every column can be dragged, and wherever the pointer has been before, dropping
the border at `x` writes the widths that the drag shows at `x`. -/
theorem commit_keeps_preview {autofitWidth : ℚ} (layout : compute? d t autofitWidth = some l)
    (hc : c < d.columnCount t) (originX : ℚ) : ∃ s, ofLayout? t c l originX = some s ∧
      ∀ (moves : List ℚ) (x : ℚ), (moves.foldl preview s).Previews l c originX x ∧
        (moves.foldl preview s).Commits (d.columnCount t) t x := by
  have ordered := Ordered.of_compute? layout
  have length := length_widths_of_compute? layout
  obtain ⟨s, hs, started⟩ := exists_startedFrom ordered (length ▸ hc) t originX
  refine ⟨s, hs, fun moves x => ⟨(started.run moves).previews ordered x, ?_⟩⟩
  exact length ▸ (started.run moves).commits ordered x

/-- A table with fixed and automatic columns; the third one has a negative width, and for the fourth
none is given. -/
def mixedColumns : Document ℚ :=
  Call.runAll [.buildTable .standard Document.root
    { cellSpacing := some 2
      columns := [.fixed 40, .auto, .fixed (-5)]
      groups := [[[{ text := "a" }, { text := "b" }, { text := "c" }, { text := "d" }]]] }, .place 1]
    .empty

/-- The layout of its columns. -/
def mixedLayout : ColumnLayout ℚ := ⟨[2, 44, 71, 73], [40, 25, 0, 25], 2, 100⟩

/-- The border of the first column is dragged to 500 and dropped at 90: it takes all of its neighbour,
and in a narrower table it keeps what it has taken. -/
theorem commit_keeps_preview_mixedColumns :
    compute? mixedColumns 1 100 = some mixedLayout ∧ 0 < mixedColumns.columnCount 1 ∧
      ∃ s, ofLayout? 1 0 mixedLayout 42 = some s ∧ (s.preview 500).widthsAt 90 = [65, 0, 0, 25] ∧
        (s.preview 500).Previews mixedLayout 0 42 90 ∧
        ∃ d', (s.preview 500).commit mixedColumns 90 = (true, d') ∧
          ∃ l, compute? d' 1 7 = some l ∧ l.widths = [65, 0, 0, 25] := by
  have layout : compute? mixedColumns 1 100 = some mixedLayout := by decide +kernel
  have first : 0 < mixedColumns.columnCount 1 := by decide +kernel
  have widths : (ofLayout? 1 0 mixedLayout 42).map (fun s => (s.preview 500).widthsAt 90) =
      some [65, 0, 0, 25] := by decide +kernel
  obtain ⟨s, hs, all⟩ := commit_keeps_preview layout first 42
  obtain ⟨previews, commits⟩ := all [500] 90
  rw [hs, Option.map_some, Option.some.injEq] at widths
  obtain ⟨d', run, -, again⟩ := commits.done mixedColumns rfl
  obtain ⟨l, hl, eq⟩ := again 7
  exact ⟨layout, first, s, hs, widths, previews, d', run, l, hl, eq.trans widths⟩

end ColumnDrag

end RichTable
