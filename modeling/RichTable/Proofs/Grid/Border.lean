import Mathlib
import RichTable.Proofs.Grid.Settle

/-!
# Borders of a table without cell spacing

In a table without cell spacing, a cell has equal right and bottom borders, a top border as wide if it
stands in the first row and none otherwise, and a left border as wide if it stands in the first column
and none otherwise (`Bordered`). Borders depend on the columns that cells carry when they are corrected.
An edit that corrects borders first and places cells then leaves cells that carried no column, `loose`
ones, without a left border, even in the first column.
-/

namespace RichTable

variable {L : Type} [Length L]

/-- The borders of a cell at its place in a table without cell spacing, where `top` tells whether this
is in the first row. Loose cells may lack a left border. -/
structure CellProps.Edged (c : CellProps L) (top : Bool) (loose : Prop) : Prop where
  bottom : c.borders.right = c.borders.bottom
  top : c.borders.top = if top then c.borders.right else 0
  inner : c.columnIndex ≠ some 0 → c.borders.left = 0
  outer : c.columnIndex = some 0 → c.borders.left = c.borders.right ∨ loose ∧ c.borders.left = 0

theorem CellProps.Edged.mono {c : CellProps L} {top : Bool} {loose loose' : Prop}
    (h : c.Edged top loose) (imp : loose → loose') : c.Edged top loose' :=
  { h with outer := fun hc => (h.outer hc).imp_right (And.imp_left imp) }

theorem CellProps.edged_withCorrectBorders {spacing : L} (unspaced : ¬ 0 < spacing) (top : Bool)
    (c : CellProps L) : (c.withCorrectBorders spacing top).Edged top False := by
  simp only [withCorrectBorders, if_neg unspaced]
  exact ⟨rfl, rfl, fun h => if_neg h, fun h => .inl (if_pos h)⟩

/-- Borders are corrected for the column that a cell carries, and not for the one it gets then. -/
theorem CellProps.edged_placed {spacing : L} (unspaced : ¬ 0 < spacing) (top : Bool) {c : CellProps L}
    {j : Nat} {loose : Prop} (h : c.columnIndex = some j ∨ c.columnIndex = none ∧ loose) :
    ({ c.withCorrectBorders spacing top with columnIndex := some j } : CellProps L).Edged top loose := by
  have edged := edged_withCorrectBorders unspaced top c
  rcases h with h | ⟨h, hl⟩
  · have same : ({ c.withCorrectBorders spacing top with columnIndex := some j } : CellProps L) =
        c.withCorrectBorders spacing top := by
      rw [← h]
      rfl
    rw [same]
    exact edged.mono False.elim
  · have left : (c.withCorrectBorders spacing top).borders.left = 0 :=
      edged.inner (by simp [withCorrectBorders, h])
    exact ⟨edged.bottom, edged.top, fun _ => left, fun _ => .inr ⟨hl, left⟩⟩

namespace Document

variable {d e d' : Document L} {t g : NodeId} {loose : NodeId → Prop}

/-- The table has no cell spacing. -/
def Unspaced (d : Document L) (t : NodeId) : Prop :=
  ∀ props, d.table? t = some props → ¬ 0 < props.cellSpacing

/-- All cells of the table have the borders that belong to their places. -/
def Bordered (d : Document L) (t : NodeId) (loose : NodeId → Prop) : Prop :=
  ∀ c ∈ d.tableCells t, ∀ props, d.cell? c = some props →
    props.Edged (d.parent? c == (d.tableRows t).head?) (loose c)

theorem Bordered.mono {loose' : NodeId → Prop} (h : d.Bordered t loose)
    (imp : ∀ c, loose c → loose' c) : d.Bordered t loose' := fun c hc props hp =>
  (h c hc props hp).mono (imp c)

/-- Correcting all borders of a table. -/
theorem bordered_reborder (wf : d.WellFormed) {props : TableProps L} (hp : d.table? t = some props)
    (unspaced : d.Unspaced t) :
    (d.reborder props.cellSpacing (d.tableRows t).head? (d.tableCells t)).Bordered t
      fun _ => False := by
  have same := (rebordered_reborder d props.cellSpacing (d.tableRows t).head? (d.tableCells t)).same
  intro c hc p hcell
  rw [same.tableCells] at hc
  rw [cell?_reborder (wf.nodup_tableCells t)] at hcell
  obtain ⟨q, -, rfl⟩ := Option.map_eq_some_iff.1 hcell
  rw [if_pos hc, same.parent, same.tableRows]
  exact CellProps.edged_withCorrectBorders (unspaced props hp) _ q

/-- Tidying a table leaves only new cells loose. -/
theorem Poised.bordered (h : d.Poised t loose) (unspaced : (d.tidied t).Unspaced t) :
    (d.tidied t).Bordered t loose := by
  obtain ⟨n, s, tile, carried⟩ := h
  obtain ⟨props, hp⟩ := exists_table? tile.kind
  have laid := tile.laid_tidied
  have unspaced : ¬ 0 < props.cellSpacing := by
    refine unspaced { props with columnCount := Placement.tableWidth (d.extents t) } ?_
    rw [laid.table, hp, Option.map_some, if_pos rfl]
  intro c hc p hcell
  rw [laid.same.tableCells] at hc
  rw [laid.same.parent, laid.same.tableRows]
  have bordered := rebordered_reborder d props.cellSpacing (d.tableRows t).head? (d.tableCells t)
  have tile' := bordered.tileable tile
  rw [tidied_eq hp, tile'.wf.cell?_placed (columns_of_tiling tile'.tiling),
    cell?_reborder (tile.wf.nodup_tableCells t), Option.map_map, bordered.same.tableCells] at hcell
  obtain ⟨q, hq, rfl⟩ := Option.map_eq_some_iff.1 hcell
  simp only [Function.comp_apply, if_pos hc]
  have hcolumn := carried c hc
  rw [columnIndex?, hq] at hcolumn
  exact CellProps.edged_placed unspaced _ hcolumn

/-! ## Edits of one row group -/

/-- An edit of the row group `g` that leaves a table which can be tiled, with all other row groups and
the first row as they were. It ends with placing the table and correcting the borders of `g`. -/
structure GroupEdit (d e d' : Document L) (t g : NodeId) (s : NodeId → Nat) : Prop where
  regular : d.Regular t
  tile : ∃ n, e.Tileable t n s
  groups : e.children t = d.children t
  first : (e.children g).head? = (d.children g).head?
  other : ∀ q ∈ d.children t, q ≠ g → e.children q = d.children q ∧ e.rowsOf q = d.rowsOf q ∧
    ∀ {r c}, Stored (d.rowsOf q) r c → e.cell? c = d.cell? c ∧ s c = d.shape.start c
  borders : ∃ props, (e.placed t).table? t = some props ∧ d' = (e.placed t).reborder props.cellSpacing
    ((e.placed t).tableRows t).head? ((e.placed t).rowsOf g).flatten

namespace GroupEdit

variable {s : NodeId → Nat}

theorem laid (h : GroupEdit d e d' t g s) : Laid e d' t s := by
  obtain ⟨n, tile⟩ := h.tile
  obtain ⟨props, -, rfl⟩ := h.borders
  exact tile.laid.trans_rebordered (rebordered_reborder ..)

theorem regular' (h : GroupEdit d e d' t g s) : d'.Regular t := by
  obtain ⟨n, tile⟩ := h.tile
  exact h.laid.regular tile

theorem head?_tableRows (h : GroupEdit d e d' t g s) :
    (e.tableRows t).head? = (d.tableRows t).head? := by
  rw [tableRows, tableRows, h.groups, List.head?_flatMap, List.head?_flatMap]
  have heads : ∀ gs : List NodeId, (∀ q ∈ gs, q ∈ d.children t) →
      gs.findSome? (fun q => (e.children q).head?) = gs.findSome? fun q => (d.children q).head? := by
    intro gs hgs
    induction gs with
    | nil => rfl
    | cons q gs ih =>
      have hq : (e.children q).head? = (d.children q).head? := by
        by_cases hqg : q = g
        · rw [hqg, h.first]
        · rw [(h.other q (hgs q (by simp)) hqg).1]
      rw [List.findSome?_cons, List.findSome?_cons, hq, ih fun x hx => hgs x (by simp [hx])]
  exact heads _ fun _ => id

/-- The cells of the other row groups are as they were. -/
theorem cell_other (h : GroupEdit d e d' t g s) {q : NodeId} (hq : q ∈ d.children t) (hqg : q ≠ g)
    {r : Nat} {c : NodeId} (hs : Stored (d.rowsOf q) r c) :
    d'.cell? c = d.cell? c ∧ d'.parent? c = d.parent? c := by
  obtain ⟨n, tile⟩ := h.tile
  obtain ⟨hchildren, hrows, hcells⟩ := h.other q hq hqg
  obtain ⟨hcell, hstart⟩ := hcells hs
  have same := tile.laid.same
  have hmem : c ∈ d.tableCells t := mem_tableCells.2 ⟨q, hq, r, hs⟩
  constructor
  · have hmem' : c ∈ e.tableCells t := mem_tableCells.2 ⟨q, h.groups ▸ hq, r, hrows ▸ hs⟩
    have hout : c ∉ (e.rowsOf g).flatten := fun hin => by
      obtain ⟨i, hi⟩ := exists_stored hin
      exact tile.wf.not_stored_of_ne hqg (hrows ▸ hs) i hi
    obtain ⟨props, -, rfl⟩ := h.borders
    rw [same.rowsOf, cell?_reborder (tile.wf.nodup_rowsOf g),
      tile.wf.cell?_placed (columns_of_tiling tile.tiling), hcell, Option.map_map]
    obtain ⟨p, hp⟩ := exists_cell? (h.regular.wf.kind_tableCells h.regular.kind hmem)
    have hcolumn := h.regular.columnIndex?_eq hmem
    rw [columnIndex?, hp, Option.bind_some, ← hstart] at hcolumn
    simp only [hp, Option.map_some, Function.comp_apply, if_pos hmem', if_neg hout, ← hcolumn]
  · obtain ⟨row, hr, hc⟩ := stored_rowsOf.1 hs
    obtain ⟨row', hr', hc'⟩ := stored_rowsOf.1 (hrows ▸ hs)
    rw [hchildren, hr, Option.some.injEq] at hr'
    subst hr'
    rw [h.laid.same.parent, tile.wf.mem_children.1 hc', h.regular.wf.mem_children.1 hc]

theorem bordered (h : GroupEdit d e d' t g s) (bordered : d.Bordered t loose)
    (unspaced : d'.Unspaced t) : d'.Bordered t loose := by
  have laid := h.laid
  obtain ⟨n, tile⟩ := h.tile
  intro c hc p hp
  obtain ⟨q, hq, r, hs⟩ := mem_tableCells.1 hc
  rw [laid.same.children, h.groups] at hq
  rw [laid.same.rowsOf] at hs
  rw [laid.same.tableRows, h.head?_tableRows]
  by_cases hqg : q = g
  · subst hqg
    have same := tile.laid.same
    obtain ⟨props, hprops, rfl⟩ := h.borders
    have hin : c ∈ (e.rowsOf q).flatten := hs.mem_flatten
    rw [same.rowsOf, same.tableRows, cell?_reborder (tile.wf.nodup_rowsOf q)] at hp
    obtain ⟨p, -, rfl⟩ := Option.map_eq_some_iff.1 hp
    rw [if_pos hin, same.parent, laid.same.parent, h.head?_tableRows]
    have unspaced := unspaced props (((rebordered_reborder ..).table t).trans hprops)
    exact (CellProps.edged_withCorrectBorders unspaced _ p).mono False.elim
  · rw [(h.other q hq hqg).2.1] at hs
    obtain ⟨hcell, hparent⟩ := h.cell_other hq hqg hs
    rw [hparent]
    exact bordered c (mem_tableCells.2 ⟨q, hq, r, hs⟩) p (hcell ▸ hp)

end GroupEdit

end Document

namespace Action

open Document

variable {d : Document L} {t : NodeId}

theorem ensures_correctBorders_bordered (wf : d.WellFormed) (ht : d.kind? t = some .table)
    (unspaced : d.Unspaced t) :
    Ensures (correctBorders t) d fun _ d' => d'.Bordered t fun _ => False := by
  obtain ⟨props, hp⟩ := exists_table? ht
  rw [ensures_correctBorders_iff wf hp]
  exact bordered_reborder wf hp unspaced

end Action

end RichTable
