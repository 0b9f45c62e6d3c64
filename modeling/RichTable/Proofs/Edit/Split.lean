import Mathlib
import RichTable.Edit.Split
import RichTable.Proofs.Edit.Column
import RichTable.Proofs.Grid.Border

/-!
# Splitting a cell

A split carves one column after the other off a cell. Each step leaves a table that can be tiled, with
the new cell where the last column of the old one was (`Carved.tileable`), so the whole split does
(`CarvedOff`).
-/

namespace RichTable.Document

variable {L : Type} {d d' : Document L} {t row cell f : NodeId} {props : CellProps L} {n : Nat}
  {s : NodeId → Nat}

/-- Going from `d` to `d'`, a cell of the row has given its last column to a new cell `f`. -/
structure Carved (d d' : Document L) (row cell f : NodeId) (props : CellProps L) : Prop where
  wf : d'.WellFormed
  frame : Frame (· = row) (· = cell) d d'
  fresh : d.size ≤ f
  split : ∃ l u, d.children row = l ++ cell :: u ∧ d'.children row = l ++ cell :: f :: u
  cell : d'.cell? cell = some { props with columnSpan := props.columnSpan - 1 }
  new : d'.cell? f = some { props with columnSpan := 1, columnIndex := none }
  blank : d'.Blank f

namespace Carved

theorem mem_iff (h : Carved d d' row cell f props) {x : NodeId} :
    x ∈ d'.children row ↔ x = f ∨ x ∈ d.children row := by
  obtain ⟨l, u, hd, hd'⟩ := h.split
  simp only [hd, hd', List.mem_append, List.mem_cons]
  tauto

/-- Outside the row and the cell nothing has changed. -/
theorem cell?_eq (h : Carved d d' row cell f props) {x : NodeId} (hx : x < d.size)
    (hne : x ≠ cell) : d'.cell? x = d.cell? x :=
  h.frame.cell x hx hne

theorem rows (h : Carved d d' row cell f props) (wf : d.WellFormed)
    (ht : d.kind? t = some .table) (hr : d.kind? row = some .row) :
    d'.children t = d.children t ∧ (∀ g ∈ d.children t, d'.children g = d.children g) ∧
      d'.tableRows t = d.tableRows t :=
  h.frame.tableRows wf ht fun _ hx => hx ▸ hr

theorem inherits (h : Carved d d' row cell f props) (wf : d.WellFormed)
    (ht : d.kind? t = some .table) (hr : d.kind? row = some .row) :
    Inherits (fun _ => true) d d' t := by
  refine .of_rows _ _ h.frame (fun x hx => hx ▸ hr) (h.rows wf ht hr).2.2
    (fun r hrt => ?_) wf ht
  have old : (d.children r).filter (· < d.size) = d.children r :=
    List.filter_eq_self.2 fun c hc => by simpa using wf.lt_size_child hc
  rw [List.filter_true]
  by_cases hrr : r = row
  · subst hrr
    obtain ⟨l, u, hd, hd'⟩ := h.split
    refine ⟨?_, fun c hc => (h.mem_iff.1 hc).symm.imp_right ?_⟩
    swap
    · rintro rfl
      exact ⟨h.fresh, h.blank⟩
    have hf : ¬ f < d.size := Nat.not_lt.2 h.fresh
    rw [hd] at old
    rw [hd, hd']
    simpa only [List.filter_append, List.filter_cons, hf, decide_false, Bool.false_eq_true,
      if_false] using old
  · have hrs : r < d.size := by
      obtain ⟨g, hg, hrg⟩ := List.mem_flatMap.1 hrt
      exact wf.lt_size_child hrg
    rw [h.frame.children r hrs hrr]
    exact ⟨old, fun c hc => .inl (h.frame.children r hrs hrr ▸ hc)⟩

/-- Where cells start once the last column of `cell` is a cell of its own. -/
def start (s : NodeId → Nat) (cell f : NodeId) (width : Nat) (x : NodeId) : Nat :=
  if x = f then s cell + width - 1 else s x

theorem shape_old (h : Carved d d' row cell f props) (hcell : d.cell? cell = some props)
    (wide : 1 < props.columnSpan) {x : NodeId} (hx : x < d.size) :
    d'.shape.width x = (if x = cell then d.shape.width x - 1 else d.shape.width x) ∧
      d'.shape.height x = d.shape.height x := by
  by_cases hxc : x = cell
  · subst hxc
    simp only [shape, extent_eq hcell, extent_eq h.cell, CellProps.extent, CellProps.width,
      CellProps.height, if_true, and_true]
    omega
  · simp [shape, extent, h.cell?_eq hx hxc, hxc]

theorem carving (h : Carved d d' row cell f props) (wf : d.WellFormed) {g : NodeId} {r : Nat}
    (hg : d'.children g = d.children g) (hgk : d.kind? g = some .rowGroup)
    (hr : (d.children g)[r]? = some row) (hcell : d.cell? cell = some props)
    (wide : 1 < props.columnSpan) :
    Tiling.Carving ⟨s, d.shape.width, d.shape.height⟩
      ⟨start s cell f props.columnSpan, d'.shape.width, d'.shape.height⟩ r cell f
      (d.rowsOf g) (d'.rowsOf g) := by
  have known : ∀ {i x}, Stored (d.rowsOf g) i x → x < d.size := fun hs =>
    lt_size_of_kind? (wf.kind_stored hgk hs)
  have width : d.shape.width cell = props.columnSpan := by
    simp only [shape, extent_eq hcell, CellProps.extent, CellProps.width]
    omega
  refine ⟨h.wf.nodup_rowsOf g, fun hs => Nat.not_lt.2 h.fresh (known hs), width ▸ wide, ?_,
    fun hs => if_neg ((known hs).trans_le h.fresh).ne, fun hs => (h.shape_old hcell wide (known hs)).1,
    fun hs => (h.shape_old hcell wide (known hs)).2, ?_⟩
  · obtain ⟨l, u, hd, hd'⟩ := h.split
    refine ⟨l, u, by simp [rowsOf, hr, hd], List.ext_getElem? fun i => ?_⟩
    have hlt : r < (d.children g).length := (List.getElem?_eq_some_iff.1 hr).1
    rcases eq_or_ne r i with rfl | hne
    · rw [List.getElem?_set_self (by simpa using hlt)]
      simp [rowsOf, hg, hr, hd']
    · rw [List.getElem?_set_ne hne]
      simp only [rowsOf, hg, List.getElem?_map]
      -- another row of the group is another node
      cases hi : (d.children g)[i]? with
      | none => rfl
      | some q =>
        have hqr : q ≠ row := fun e => hne (wf.index_unique hr (e ▸ hi))
        simp [h.frame.children q (wf.lt_size_child (List.mem_of_getElem? hi)) hqr]
  · refine ⟨by simp [start, width], ?_, ?_⟩
    · simp [shape, extent_eq h.new, CellProps.extent, CellProps.width]
    · simp [shape, extent_eq h.new, extent_eq hcell, CellProps.extent, CellProps.height]

/-- One step of a split leaves a table that can be tiled. -/
theorem tileable (h : Carved d d' row cell f props) (tile : d.Tileable t n s) {g : NodeId} {r : Nat}
    (hg : g ∈ d.children t) (hr : (d.children g)[r]? = some row)
    (hcell : d.cell? cell = some props) (wide : 1 < props.columnSpan) :
    d'.Tileable t n (start s cell f props.columnSpan) := by
  have wf := tile.wf
  have hgk := wf.kind_group tile.kind hg
  have hrow := List.mem_of_getElem? hr
  obtain ⟨ht', hg', hrows⟩ := h.rows wf tile.kind (wf.kind_row hgk hrow)
  refine ⟨h.wf, (h.frame.kind t (lt_size_of_kind? tile.kind)).trans tile.kind, fun q hq => ?_,
    fun c hc p hp => ?_⟩
  · rw [ht'] at hq
    by_cases hqg : q = g
    · subst hqg
      exact (h.carving wf (hg' q hq) hgk hr hcell wide).tiling (tile.tiling q hq)
    · -- the other row groups hold neither the cell nor its row
      have same : d'.rowsOf q = d.rowsOf q := by
        rw [rowsOf, rowsOf, hg' q hq]
        refine List.map_congr_left fun p hp => h.frame.children p (wf.lt_size_child hp) ?_
        rintro rfl
        exact hqg (wf.parent_unique hp hrow)
      rw [same]
      have hqk := wf.kind_group tile.kind hq
      have known : ∀ {i x}, Stored (d.rowsOf q) i x → x < d.size ∧ x ≠ cell := fun {i x} hs => by
        refine ⟨lt_size_of_kind? (wf.kind_stored hqk hs), ?_⟩
        rintro rfl
        obtain ⟨l, u, hd, -⟩ := h.split
        obtain ⟨p, hp, hxp⟩ := stored_rowsOf.1 hs
        obtain rfl := wf.parent_unique hxp (show x ∈ d.children row by simp [hd])
        exact hqg (wf.parent_unique (List.mem_of_getElem? hp) hrow)
      refine (tile.tiling q hq).congr (fun hs => if_neg ((known hs).1.trans_le h.fresh).ne)
        (fun hs => ?_) fun hs => (h.shape_old hcell wide (known hs).1).2
      exact (h.shape_old hcell wide (known hs).1).1.trans (if_neg (known hs).2)
  · rw [tableCells, hrows] at hc
    obtain ⟨q, hq, hcq⟩ := List.mem_flatMap.1 hc
    have member : c = f ∨ c ∈ d.tableCells t := by
      by_cases hqr : q = row
      · subst hqr
        exact (h.mem_iff.1 hcq).imp_right fun hc => List.mem_flatMap.2 ⟨q, hq, hc⟩
      · obtain ⟨_, _, hqg⟩ := List.mem_flatMap.1 hq
        rw [h.frame.children q (wf.lt_size_child hqg) hqr] at hcq
        exact .inr (List.mem_flatMap.2 ⟨q, hq, hcq⟩)
    have hcellt : cell ∈ d.tableCells t := by
      obtain ⟨l, u, hd, -⟩ := h.split
      exact List.mem_flatMap.2 ⟨row, List.mem_flatMap.2 ⟨g, hg, hrow⟩, by simp [hd]⟩
    have tall := (tile.spans cell hcellt props hcell).2
    rcases member with rfl | hct
    · rw [h.new] at hp
      cases hp
      exact ⟨le_rfl, tall⟩
    · by_cases hcc : c = cell
      · subst hcc
        rw [h.cell] at hp
        cases hp
        exact ⟨Nat.le_sub_of_add_le wide, tall⟩
      · have hcs : c < d.size := by
          obtain ⟨q, hq, hi, hs⟩ := mem_tableCells.1 hct
          exact lt_size_of_kind? (wf.kind_stored (wf.kind_group tile.kind hq) hs)
        exact tile.spans c hct p (h.cell?_eq hcs hcc ▸ hp)

end Carved

/-- Going from `d` to `e`, a cell of the row has given its last `count` columns to the blank cells
`new 0`, `new 1`, ..., which stand in these columns from left to right. -/
structure CarvedOff (d e : Document L) (t row cell : NodeId) (props : CellProps L) (n : Nat)
    (s s' : NodeId → Nat) (count : Nat) (new : Nat → NodeId) : Prop where
  tile : e.Tileable t n s'
  frame : Frame (· = row) (· = cell) d e
  inherits : Inherits (fun _ => true) d e t
  start : ∀ x < d.size, s' x = s x
  left : e.cell? cell = some { props with columnSpan := props.columnSpan - count }
  mem_iff : ∀ x, x ∈ e.children row ↔ x ∈ d.children row ∨ ∃ i < count, x = new i
  fresh : ∀ i < count, d.size ≤ new i
  place : ∀ i < count, s' (new i) = s cell + (props.columnSpan - count) + i
  copy : ∀ i < count, e.cell? (new i) = some { props with columnSpan := 1, columnIndex := none }
  blank : ∀ i < count, e.Blank (new i)

namespace CarvedOff

variable {e : Document L} {s' : NodeId → Nat} {count : Nat} {new : Nat → NodeId}

theorem refl (tile : d.Tileable t n s) (hcell : d.cell? cell = some props) :
    CarvedOff d d t row cell props n s s 0 new where
  tile := tile
  frame := .refl d
  inherits := .of_sameTree tile.wf tile.kind (.refl d)
  start _ _ := rfl
  left := hcell
  mem_iff x := by simp
  fresh i hi := absurd hi i.not_lt_zero
  place i hi := absurd hi i.not_lt_zero
  copy i hi := absurd hi i.not_lt_zero
  blank i hi := absurd hi i.not_lt_zero

/-- The first column to go is the last one. -/
theorem cons {d₁ : Document L} (first : Carved d d₁ row cell f props) (tile : d.Tileable t n s)
    (hr : d.kind? row = some .row) (wide : count + 1 < props.columnSpan)
    (h : CarvedOff d₁ e t row cell { props with columnSpan := props.columnSpan - 1 } n
      (Carved.start s cell f props.columnSpan) s' count new) :
    CarvedOff d e t row cell props n s s' (count + 1) (fun i => if i = count then f else new i) := by
  have wf := tile.wf
  have hf : f ≠ row := ((lt_size_of_kind? hr).trans_le first.fresh).ne'
  have hfc : f ≠ cell := by
    obtain ⟨l, u, hd, -⟩ := first.split
    exact ((wf.lt_size_child (p := row) (by simp [hd])).trans_le first.fresh).ne'
  have known : f < d₁.size := first.wf.lt_size_child (first.mem_iff.2 (.inl rfl))
  have below : ∀ {i}, i < count + 1 → i ≠ count → i < count := fun hi hne => by omega
  refine ⟨h.tile, first.frame.trans h.frame, ?_, fun x hx => ?_, ?_, fun x => ?_, fun i hi => ?_,
    fun i hi => ?_, fun i hi => ?_, fun i hi => ?_⟩
  · exact (first.inherits wf tile.kind hr).trans h.inherits first.wf
      ((first.frame.kind t (lt_size_of_kind? tile.kind)).trans tile.kind)
  · have hne : x ≠ f := (hx.trans_le first.fresh).ne
    rw [h.start x (hx.trans_le first.frame.size), Carved.start, if_neg hne]
  · rw [h.left]
    simp only [Nat.sub_sub, Nat.add_comm]
  · rw [h.mem_iff, first.mem_iff]
    constructor
    · rintro ((rfl | hx) | ⟨i, hi, rfl⟩)
      · exact .inr ⟨count, count.lt_succ_self, (if_pos rfl).symm⟩
      · exact .inl hx
      · exact .inr ⟨i, by omega, (if_neg (by omega)).symm⟩
    · rintro (hx | ⟨i, hi, rfl⟩)
      · exact .inl (.inr hx)
      · split_ifs with hic
        · exact .inl (.inl rfl)
        · exact .inr ⟨i, below hi hic, rfl⟩
  · split_ifs with hic
    · exact first.fresh
    · exact first.frame.size.trans (h.fresh i (below hi hic))
  · split_ifs with hic
    · rw [h.start f known, Carved.start, if_pos rfl]
      omega
    · rw [h.place i (below hi hic), Carved.start, if_neg hfc.symm]
      dsimp only
      omega
  · split_ifs with hic
    · rw [h.frame.cell f known hfc, first.new]
    · exact h.copy i (below hi hic)
  · split_ifs with hic
    · refine first.blank.of_frame h.frame hf fun b hb => ?_
      rintro rfl
      rw [first.frame.kind b (lt_size_of_kind? hr), hr] at hb
      cases hb
    · exact h.blank i (below hi hic)

end CarvedOff

end RichTable.Document

namespace RichTable.Action

open Document

variable {L : Type} {d : Document L} {t row cell g : NodeId} {props : CellProps L} {n r : Nat}
  {s : NodeId → Nat}

/-- One round of `carve`. -/
theorem ensures_carve_succ {count : Nat} {Q : Unit → Document L → Prop} (wf : d.WellFormed)
    (hr : d.kind? row = some .row) (hc : cell ∈ d.children row) (hcell : d.cell? cell = some props)
    (wide : 1 < props.columnSpan)
    (rest : ∀ f d', Carved d d' row cell f props → Ensures (carve row cell count) d' Q) :
    Ensures (carve row cell (count + 1)) d Q := by
  obtain ⟨l, u, split⟩ := List.mem_iff_append.1 hc
  have hrow := lt_size_of_kind? hr
  have hcs := wf.lt_size_child hc
  simp only [carve, ensures_bind]
  refine (ensures_copyCell wf hcell).mono fun f d₁ ⟨_, new⟩ => ?_
  rw [ensures_updateCell (kind?_of_cell? new.cell)]
  have new := new.modifyCell ({ · with columnSpan := 1 })
  generalize d₁.modifyCell f ({ · with columnSpan := 1 }) = d₂ at new ⊢
  have same : d₂.children row = l ++ cell :: u := (new.frame.children row hrow id).trans split
  have index : d₂.childIndex? cell = some l.length :=
    new.wf.childIndex?_eq (p := row) (by rw [same]; simp)
  simp only [ensures_get, index, Option.map_some, Option.getD_some,
    ensures_insertChild (new.attachable wf hr)]
  have ins := new.attach wf hr (l.length + 1)
  generalize d₂.attach row (l.length + 1) f = d₃ at ins ⊢
  have hcell₃ : d₃.cell? cell = some props := (ins.frame.cell cell hcs id).trans hcell
  have hne : f ≠ cell := (hcs.trans_le ins.fresh).ne'
  rw [ensures_updateCell (kind?_of_cell? hcell₃)]
  refine rest f _ ⟨ins.wf.modifyCell _ _, ?_, ins.fresh, ⟨l, u, split, ?_⟩, ?_, ?_, ?_⟩
  · exact (ins.frame.mono (fun _ _ => id) (fun _ _ => False.elim) wf).trans (.of_modifyCell rfl)
  · rw [children_modifyCell, ins.row, split]
    simpa using insertIdx_length_append (l ++ [cell]) u f
  · rw [cell?_modifyCell, hcell₃, Option.map_some, if_pos rfl, max_eq_left (by omega)]
  · simp [cell?_modifyCell, hne, ins.cell]
  · obtain ⟨b, hb⟩ := ins.blank
    exact ⟨b, by simpa using hb⟩

/-- Columns are carved off a cell that is wide enough. -/
theorem ensures_carve (count : Nat) (tile : d.Tileable t n s) (hg : g ∈ d.children t)
    (hr : (d.children g)[r]? = some row) (hc : cell ∈ d.children row)
    (hcell : d.cell? cell = some props) (wide : count < props.columnSpan) :
    Ensures (carve row cell count) d fun _ e =>
      ∃ s' new, CarvedOff d e t row cell props n s s' count new := by
  induction count generalizing d s props with
  | zero =>
    simp only [carve, ensures_pure]
    exact ⟨s, fun _ => cell, .refl tile hcell⟩
  | succ count ih =>
    have hrk := tile.wf.kind_row (tile.wf.kind_group tile.kind hg) (List.mem_of_getElem? hr)
    refine ensures_carve_succ tile.wf hrk hc hcell (by omega) fun f d₁ first => ?_
    obtain ⟨ht', hg', -⟩ := first.rows tile.wf tile.kind hrk
    have tile₁ := first.tileable tile hg hr hcell (by omega)
    have wide₁ : count < props.columnSpan - 1 := by omega
    refine (ih tile₁ (ht' ▸ hg) (hg' g hg ▸ hr) (first.mem_iff.2 (.inr hc)) first.cell wide₁).mono ?_
    rintro _ e ⟨s', new, h⟩
    exact ⟨s', _, h.cons first tile hrk wide⟩

/-- Splitting a cell of a regular table is an edit of its row group: columns are carved off, and the
caret goes into the cell. -/
theorem ensures_splitCell_stages [Length L] (reg : d.Regular t) {selection : Segment}
    (hg : g ∈ d.children t) (hr : (d.children g)[r]? = some row) (hc : cell ∈ d.children row)
    (hcell : d.cell? cell = some props)
    (resolved : d.boundaryCells? selection.start selection.stop = some (cell, cell))
    (horizontal vertical : Nat) :
    Ensures (splitCell selection horizontal vertical) d fun result d' =>
      if min horizontal (props.columnSpan - 1) = 0 then result = none ∧ d' = d
      else result = (d'.firstCaret? cell).map .collapsed ∧ ∃ e s' new, GroupEdit d e d' t g s' ∧
        CarvedOff d e t row cell props (d.columnCount t) d.shape.start s'
          (min horizontal (props.columnSpan - 1)) new := by
  have hgk := reg.kind_group hg
  have hrow := List.mem_of_getElem? hr
  have hrk := reg.wf.kind_row hgk hrow
  have hs : Stored (d.rowsOf g) r cell := stored_rowsOf.2 ⟨row, hr, hc⟩
  simp only [splitCell, ensures_bind, ensures_get, resolved]
  rw [if_neg (not_not.2 rfl)]
  refine ensures_bind.2 ((ensures_requireCell hcell).2 ?_)
  split_ifs with single hcount hcount
  · exact ensures_pure.2 ⟨rfl, rfl⟩
  · omega
  · exact ensures_pure.2 ⟨rfl, rfl⟩
  simp only [ensures_bind, ensures_requireParent (reg.wf.rowOf?_eq hrk hc),
    ensures_requireParent (reg.wf.groupOf?_eq hgk hrow),
    ensures_requireParent (reg.wf.tableOf?_eq reg.kind hg)]
  refine (ensures_carve _ reg.tileable hg hr hc hcell (by omega)).mono ?_
  rintro _ e ⟨s', new, carved⟩
  have tile := carved.tile
  obtain ⟨tprops, htprops⟩ := exists_table? ((tile.laid.same.kind t).trans tile.kind)
  -- the row is the only node that has got children
  have children : ∀ {x k}, d.kind? x = some k → x ≠ row → e.children x = d.children x :=
    fun hx hne => carved.frame.children _ (lt_size_of_kind? hx) hne
  have hne : ∀ {x k}, d.kind? x = some k → k ≠ .row → x ≠ row := fun hx hk heq => by
    rw [heq, hrk, Option.some.injEq] at hx
    exact hk hx.symm
  have groups : e.children t = d.children t := children reg.kind (hne reg.kind (by decide))
  rw [ensures_place_checkGrid_iff tile, ensures_correctGroupBorders_iff
    (tile.laid.same.wellFormed tile.wf) (tile.laid.same.children t ▸ groups ▸ hg) htprops]
  simp only [ensures_get, ensures_pure]
  refine ⟨trivial, e, s', new, ⟨reg, ⟨_, tile⟩, groups, ?_, fun q hq hqg => ?_,
    ⟨tprops, htprops, rfl⟩⟩, carved⟩
  · rw [children hgk (hne hgk (by decide))]
  · have hqk := reg.kind_group hq
    have hrows : e.rowsOf q = d.rowsOf q := by
      rw [rowsOf, rowsOf, children hqk (hne hqk (by decide))]
      refine List.map_congr_left fun row' hrow' => ?_
      refine children (reg.wf.kind_row hqk hrow') fun heq => hqg ?_
      exact reg.wf.parent_unique (heq ▸ hrow') hrow
    refine ⟨children hqk (hne hqk (by decide)), hrows, fun {i c} hi => ?_⟩
    have hlt := lt_size_of_kind? (reg.wf.kind_stored hqk hi)
    refine ⟨carved.frame.cell c hlt ?_, carved.start c hlt⟩
    rintro rfl
    exact reg.wf.not_stored_of_ne hqg hi _ hs

/-- Splitting a cell of a regular table is an edit of its row group. -/
theorem ensures_splitCell_edit [Length L] (reg : d.Regular t) {selection : Segment}
    (inside : ∀ cell other, d.boundaryCells? selection.start selection.stop = some (cell, other) →
      cell ∈ d.tableCells t) (horizontal vertical : Nat) :
    Ensures (splitCell selection horizontal vertical) d fun _ d' =>
      d' = d ∨ ∃ g e s, GroupEdit d e d' t g s ∧ Inherits (fun _ => true) d e t := by
  cases found : d.boundaryCells? selection.start selection.stop with
  | none =>
    simp only [splitCell, ensures_bind, ensures_get, found]
    exact ensures_pure.2 (.inl rfl)
  | some pair =>
    obtain ⟨cell, other⟩ := pair
    by_cases single : cell = other
    · subst single
      obtain ⟨g, hg, r, hs⟩ := mem_tableCells.1 (inside cell cell found)
      obtain ⟨row, hr, hc⟩ := stored_rowsOf.1 hs
      obtain ⟨props, hcell⟩ := exists_cell? (reg.wf.kind_stored (reg.kind_group hg) hs)
      refine (ensures_splitCell_stages reg hg hr hc hcell found horizontal vertical).mono ?_
      intro _ d' h
      split_ifs at h
      · exact .inl h.2
      · obtain ⟨-, e, s', new, edit, carved⟩ := h
        exact .inr ⟨g, e, s', edit, carved.inherits⟩
    · simp only [splitCell, ensures_bind, ensures_get, found]
      rw [if_pos single]
      exact ensures_pure.2 (.inl rfl)

/-- Splitting a cell of a regular table leaves a regular table. -/
theorem ensures_splitCell [Length L] (reg : d.Regular t) {selection : Segment}
    (inside : ∀ cell other, d.boundaryCells? selection.start selection.stop = some (cell, other) →
      cell ∈ d.tableCells t) (horizontal vertical : Nat) :
    Ensures (splitCell selection horizontal vertical) d fun _ d' =>
      d'.Regular t ∧ Inherits (fun _ => true) d d' t := by
  refine (ensures_splitCell_edit reg inside horizontal vertical).mono ?_
  rintro _ d' (rfl | ⟨g, e, s, edit, inherits⟩)
  · exact ⟨reg, .of_sameTree reg.wf reg.kind (.refl _)⟩
  · exact ⟨edit.regular', inherits.trans_sameTree edit.laid.same⟩

end RichTable.Action
