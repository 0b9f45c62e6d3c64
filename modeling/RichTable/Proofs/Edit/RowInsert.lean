import Mathlib
import RichTable.Proofs.Edit.Clamp
import RichTable.Proofs.Grid.Rows

/-!
# Inserting rows

Inserting rows makes the cells that reach over the gap taller and puts rows of blank copies of the
others into it (`RowsAdded`). The outcome is a `RowInsertion` of the tiling of the row group, so the
table can be placed again.
-/

namespace RichTable.Document

variable {L : Type} {d d' e e' : Document L} {t g row : NodeId} {templates : List NodeId}
  {C : NodeId → Prop}

/-- In `d'`, `f` is a new blank cell with the properties of `c` in `d`, one row high. -/
structure IsCopy (d d' : Document L) (c f : NodeId) : Prop where
  fresh : d.size ≤ f
  blank : d'.Blank f
  cell : d'.cell? f = (d.cell? c).map fun props => { props with rowSpan := 1, columnIndex := none }

theorem IsCopy.lt_size {c f : NodeId} (h : IsCopy d d' c f) : f < d'.size := by
  obtain ⟨b, hb, -⟩ := h.blank
  exact lt_size_of_children_ne_nil (by simp [hb])

theorem IsCopy.of_frame {c f : NodeId} (h : IsCopy d e c f)
    (frame : Frame C (fun _ => False) e e') (hf : ¬ C f)
    (block : ∀ b, e.kind? b = some .block → ¬ C b) : IsCopy d e' c f where
  fresh := h.fresh
  blank := h.blank.of_frame frame hf block
  cell := (frame.cell f h.lt_size id).trans h.cell

/-- In `d'`, `row` is a new row with a copy of each template. -/
structure CopyRow (d d' : Document L) (templates : List NodeId) (row : NodeId) : Prop where
  fresh : d.size ≤ row
  kind : d'.kind? row = some .row
  copies : ∃ copy : NodeId → NodeId, d'.children row = templates.map copy ∧
    ∀ c ∈ templates, IsCopy d d' c (copy c)

theorem CopyRow.of_frame (h : CopyRow d e templates row) (wfe : e.WellFormed)
    (frame : Frame C (fun _ => False) e e') (outer : ∀ x, C x → e.kind? x = some .rowGroup) :
    CopyRow d e' templates row := by
  have inner : ∀ {x k}, e.kind? x = some k → k ≠ .rowGroup → ¬ C x := fun {x k} hx hne hC => by
    rw [outer x hC] at hx
    exact hne (Option.some.inj hx).symm
  have hrow := lt_size_of_kind? h.kind
  obtain ⟨copy, hchildren, hcopy⟩ := h.copies
  refine ⟨h.fresh, (frame.kind row hrow).trans h.kind, copy, ?_, fun c hc => ?_⟩
  · rw [frame.children row hrow (inner h.kind (by decide)), hchildren]
  · have hf : copy c ∈ e.children row := hchildren ▸ List.mem_map_of_mem hc
    exact (hcopy c hc).of_frame frame (inner (wfe.kind_cell h.kind hf) (by decide)) fun b hb =>
      inner hb (by decide)

/-- Going from `d` to `d'` has put rows of copies into a group, before row `first`. -/
structure RowsAdded (d d' : Document L) (g : NodeId) (first : Nat) (templates new : List NodeId) :
    Prop where
  wf : d'.WellFormed
  frame : Frame (· = g) (fun _ => False) d d'
  group : d'.children g = (d.children g).take first ++ new ++ (d.children g).drop first
  rows : ∀ row ∈ new, CopyRow d d' templates row

/-- Some values of a function can be chosen where the choice is not ambiguous. -/
theorem exists_start {ι : Type} {S : ι → Prop} {f : ι → NodeId} {v : ι → Nat} (s : NodeId → Nat)
    (inj : ∀ i j, S i → S j → f i = f j → v i = v j) :
    ∃ s' : NodeId → Nat, (∀ x, (∀ i, S i → x ≠ f i) → s' x = s x) ∧ ∀ i, S i → s' (f i) = v i := by
  classical
  refine ⟨fun x => if h : ∃ i, S i ∧ x = f i then v h.choose else s x, fun x hx => ?_, fun i hi => ?_⟩
  · exact dif_neg fun ⟨i, hi, e⟩ => hx i hi e
  · have h : ∃ j, S j ∧ f i = f j := ⟨i, hi, rfl⟩
    exact (dif_pos h).trans (inj _ _ h.choose_spec.1 hi h.choose_spec.2.symm)

/-- The heights of the cells of a group once rows are inserted before row `first`. -/
def stretched (d : Document L) (first count r : Nat) (c : NodeId) : Nat :=
  if r < first ∧ first < r + d.shape.height c then d.shape.height c + count else d.shape.height c

/-- Rows inserted before row `first` of a group, next to row `ρ`, in two steps: the cells that reach
over the gap get taller, then rows of copies come in. -/
structure Inserting (d d₁ e : Document L) (t g : NodeId) (first ρ count : Nat)
    (templates new : List NodeId) : Prop where
  regular : d.Regular t
  group : g ∈ d.children t
  fits : ∀ {r c}, Stored (d.rowsOf g) r c → r + d.shape.height c ≤ (d.rowsOf g).length
  next : ρ < (d.rowsOf g).length ∧ (ρ + 1 = first ∨ ρ = first)
  templates_iff : ∀ {c}, c ∈ templates ↔ ∃ r, Stored (d.rowsOf g) r c ∧ r ≤ ρ ∧
    ρ < r + d.shape.height c ∧ ¬ (r < first ∧ first < r + d.shape.height c)
  ordered : templates.Pairwise fun b c => d.shape.start b + d.shape.width b ≤ d.shape.start c
  stretch : Respanned d d₁ g (d.stretched first count)
  length : new.length = count
  added : RowsAdded d₁ e g first templates new

namespace Inserting

variable {d₁ : Document L} {first ρ count : Nat} {new : List NodeId}

theorem kind_group (h : Inserting d d₁ e t g first ρ count templates new) :
    d.kind? g = some .rowGroup :=
  h.regular.kind_group h.group

theorem stretched_pos (h : Inserting d d₁ e t g first ρ count templates new) {r : Nat} {c : NodeId}
    (hs : Stored (d.rowsOf g) r c) : 1 ≤ d.stretched first count r c := by
  have := h.regular.wf.height_pos h.kind_group hs
  unfold stretched
  split_ifs <;> omega

theorem stored_template (h : Inserting d d₁ e t g first ρ count templates new) {c : NodeId}
    (hc : c ∈ templates) : ∃ r, Stored (d.rowsOf g) r c := by
  obtain ⟨r, hs, -⟩ := h.templates_iff.1 hc
  exact ⟨r, hs⟩

/-- Old nodes that are not the group have their children. -/
theorem children_eq (h : Inserting d d₁ e t g first ρ count templates new) {x : NodeId}
    (hx : x < d.size) (hne : x ≠ g) : e.children x = d.children x :=
  (h.added.frame.children x (h.stretch.same.size.symm ▸ hx) hne).trans (h.stretch.same.children x)

theorem cell?_eq (h : Inserting d d₁ e t g first ρ count templates new) {x : NodeId}
    (hx : x < d.size) : e.cell? x = d₁.cell? x :=
  h.added.frame.cell x (h.stretch.same.size.symm ▸ hx) id

theorem shape_eq (h : Inserting d d₁ e t g first ρ count templates new) {x : NodeId}
    (hx : x < d.size) :
    e.shape.width x = d₁.shape.width x ∧ e.shape.height x = d₁.shape.height x := by
  simp [shape, extent, h.cell?_eq hx]

theorem children_group (h : Inserting d d₁ e t g first ρ count templates new) :
    e.children g = (d.children g).take first ++ new ++ (d.children g).drop first := by
  rw [h.added.group, h.stretch.same.children]

theorem children_table (h : Inserting d d₁ e t g first ρ count templates new) :
    e.children t = d.children t := by
  refine h.children_eq (lt_size_of_kind? h.regular.kind) ?_
  rintro rfl
  have := h.regular.kind
  rw [h.kind_group] at this
  cases this

theorem row_ne (h : Inserting d d₁ e t g first ρ count templates new) {q row : NodeId}
    (hq : q ∈ d.children t) (hr : row ∈ d.children q) : row ≠ g := by
  rintro rfl
  have := h.regular.wf.kind_row (h.regular.kind_group hq) hr
  rw [h.kind_group] at this
  cases this

/-- The other groups are what they were. -/
theorem rowsOf_eq (h : Inserting d d₁ e t g first ρ count templates new) {q : NodeId}
    (hq : q ∈ d.children t) (hne : q ≠ g) : e.rowsOf q = d.rowsOf q := by
  rw [rowsOf, rowsOf, h.children_eq (h.regular.wf.lt_size_child hq) hne]
  exact List.map_congr_left fun row hr =>
    h.children_eq (h.regular.wf.lt_size_child hr) (h.row_ne hq hr)

theorem rowsOf_group (h : Inserting d d₁ e t g first ρ count templates new) :
    e.rowsOf g = (d.rowsOf g).take first ++ new.map e.children ++ (d.rowsOf g).drop first := by
  have old : ∀ row ∈ d.children g, e.children row = d.children row := fun row hr =>
    h.children_eq (h.regular.wf.lt_size_child hr) (h.row_ne h.group hr)
  rw [rowsOf, rowsOf, h.children_group, List.map_append, List.map_append, ← List.map_take,
    ← List.map_drop, List.map_congr_left fun row hr => old row (List.mem_of_mem_take hr),
    List.map_congr_left fun row hr => old row (List.mem_of_mem_drop hr)]

/-- The new rows as rows of copies. -/
theorem exists_copy (h : Inserting d d₁ e t g first ρ count templates new) :
    ∃ copy : Nat → NodeId → NodeId,
      new.map e.children = (List.range count).map (fun k => templates.map (copy k)) ∧
      ∀ k < count, ∀ c ∈ templates, IsCopy d₁ e c (copy k c) := by
  have row : ∀ k : Nat, ∃ copy : NodeId → NodeId, ∀ row, new[k]? = some row →
      e.children row = templates.map copy ∧ ∀ c ∈ templates, IsCopy d₁ e c (copy c) := fun k => by
    cases hk : new[k]? with
    | none => exact ⟨id, by simp⟩
    | some row =>
      obtain ⟨copy, hcopy⟩ := (h.added.rows row (List.mem_of_getElem? hk)).copies
      refine ⟨copy, fun row' e => ?_⟩
      cases e
      exact hcopy
  choose copy hcopy using row
  refine ⟨copy, List.ext_getElem? fun k => ?_, fun k hk => ?_⟩
  · rw [List.getElem?_map, List.getElem?_map]
    by_cases hk : k < count
    · rw [List.getElem?_range hk, List.getElem?_eq_getElem (h.length.symm ▸ hk)]
      simp [(hcopy k _ (List.getElem?_eq_getElem (h.length.symm ▸ hk))).1]
    · have hlen := h.length
      rw [List.getElem?_eq_none (show new.length ≤ k by omega),
        List.getElem?_eq_none (show (List.range count).length ≤ k by simpa using hk)]
      rfl
  · exact (hcopy k _ (List.getElem?_eq_getElem (h.length.symm ▸ hk))).2

theorem lt_size_of_stored (h : Inserting d d₁ e t g first ρ count templates new) {q : NodeId}
    (hq : q ∈ d.children t) {r : Nat} {c : NodeId} (hs : Stored (d.rowsOf q) r c) : c < d.size :=
  lt_size_of_kind? (h.regular.wf.kind_stored (h.regular.kind_group hq) hs)

theorem shape_copy (h : Inserting d d₁ e t g first ρ count templates new) {c f : NodeId}
    (hc : c ∈ templates) (copy : IsCopy d₁ e c f) :
    e.shape.width f = d.shape.width c ∧ e.shape.height f = 1 := by
  obtain ⟨r, hs⟩ := h.stored_template hc
  obtain ⟨props, hp⟩ := exists_cell? (h.regular.wf.kind_stored h.kind_group hs)
  have hf := copy.cell
  rw [h.stretch.inside hs, hp, Option.map_some, Option.map_some] at hf
  simp [shape, extent_eq hf, extent_eq hp, CellProps.extent, CellProps.width, CellProps.height]

theorem rowInsertion (h : Inserting d d₁ e t g first ρ count templates new)
    {copy : Nat → NodeId → NodeId}
    (rows : new.map e.children = (List.range count).map (fun k => templates.map (copy k)))
    (copies : ∀ k < count, ∀ c ∈ templates, IsCopy d₁ e c (copy k c)) {s : NodeId → Nat}
    (old : ∀ x < d.size, s x = d.shape.start x)
    (start : ∀ k < count, ∀ c ∈ templates, s (copy k c) = d.shape.start c) :
    Tiling.RowInsertion d.shape ⟨s, e.shape.width, e.shape.height⟩ first ρ count templates copy
      (d.rowsOf g) (e.rowsOf g) where
  nodup := h.added.wf.nodup_rowsOf g
  clamped := h.fits
  next := h.next
  rows_eq := by rw [h.rowsOf_group, rows]
  templates_iff := h.templates_iff
  ordered := h.ordered
  start hs := old _ (h.lt_size_of_stored h.group hs)
  width hs := (h.shape_eq (h.lt_size_of_stored h.group hs)).1.trans
    (h.stretch.shape_inside h.regular.wf h.kind_group hs).2.1
  height hs := by
    have pos := h.stretched_pos hs
    rw [(h.shape_eq (h.lt_size_of_stored h.group hs)).2,
      (h.stretch.shape_inside h.regular.wf h.kind_group hs).2.2, max_eq_left pos]
    rfl
  new hk hc := ⟨start _ hk _ hc, h.shape_copy hc (copies _ hk _ hc)⟩

/-- A new row does not hold two copies of a kind, and no two new rows share one. -/
theorem copy_inj (h : Inserting d d₁ e t g first ρ count templates new)
    {copy : Nat → NodeId → NodeId}
    (rows : new.map e.children = (List.range count).map (fun k => templates.map (copy k)))
    {k k' : Nat} {c c' : NodeId} (hk : k < count) (hk' : k' < count) (hc : c ∈ templates)
    (hc' : c' ∈ templates) (eq : copy k c = copy k' c') : c = c' := by
  have nodup : (new.map e.children).flatten.Nodup := by
    have := h.added.wf.nodup_rowsOf g
    rw [h.rowsOf_group, List.flatten_append, List.flatten_append] at this
    exact (List.nodup_append.1 (List.nodup_append.1 this).1).2.1
  rw [rows] at nodup
  have stored : ∀ {k c}, k < count → c ∈ templates →
      Stored ((List.range count).map fun k => templates.map (copy k)) k (copy k c) :=
    fun {k c} hk hc => ⟨templates.map (copy k), by simp [hk], List.mem_map_of_mem hc⟩
  obtain rfl := (stored hk hc).row_unique nodup (eq ▸ stored hk' hc')
  have row : (templates.map (copy k)).Nodup :=
    (List.nodup_flatten.1 nodup).1 _ (List.mem_map.2 ⟨k, List.mem_range.2 hk, rfl⟩)
  exact List.inj_on_of_nodup_map row hc hc' eq

/-- The cells of the table are the old ones and the copies. -/
theorem cell_origin (h : Inserting d d₁ e t g first ρ count templates new) {c : NodeId}
    (hc : c ∈ e.tableCells t) : c ∈ d.tableCells t ∨ ∃ c' ∈ templates, IsCopy d₁ e c' c := by
  obtain ⟨q, hq, r, hs⟩ := mem_tableCells.1 hc
  rw [h.children_table] at hq
  by_cases hqg : q = g
  · subst hqg
    have hmem := hs.mem_flatten
    rw [h.rowsOf_group, List.flatten_append, List.flatten_append, List.mem_append, List.mem_append,
      or_right_comm] at hmem
    rcases hmem with hold | hnew
    · refine .inl ?_
      have hold : c ∈ (d.rowsOf q).flatten := by
        rw [← List.take_append_drop first (d.rowsOf q), List.flatten_append, List.mem_append]
        exact hold
      obtain ⟨r', hs'⟩ := exists_stored hold
      exact mem_tableCells.2 ⟨q, hq, r', hs'⟩
    · obtain ⟨cells, hcells, hc⟩ := List.mem_flatten.1 hnew
      obtain ⟨row, hrow, rfl⟩ := List.mem_map.1 hcells
      obtain ⟨copy, children, copies⟩ := (h.added.rows row hrow).copies
      rw [children] at hc
      obtain ⟨c', hc', rfl⟩ := List.mem_map.1 hc
      exact .inr ⟨c', hc', copies c' hc'⟩
  · rw [h.rowsOf_eq hq hqg] at hs
    exact .inl (mem_tableCells.2 ⟨q, hq, r, hs⟩)

/-- The group is tiled again with the copies at the columns of their templates. -/
theorem exists_rowInsertion (h : Inserting d d₁ e t g first ρ count templates new) :
    ∃ copy s, (∀ k < count, ∀ c ∈ templates, IsCopy d₁ e c (copy k c)) ∧
      (∀ x < d.size, s x = d.shape.start x) ∧
      Tiling.RowInsertion d.shape ⟨s, e.shape.width, e.shape.height⟩ first ρ count templates copy
        (d.rowsOf g) (e.rowsOf g) := by
  obtain ⟨copy, rows, copies⟩ := h.exists_copy
  have size := h.stretch.same.size
  obtain ⟨s, old, start⟩ := exists_start d.shape.start
    (S := fun i : Nat × NodeId => i.1 < count ∧ i.2 ∈ templates) (f := fun i => copy i.1 i.2)
    (v := fun i => d.shape.start i.2)
    (fun i j hi hj eq => by rw [h.copy_inj rows hi.1 hj.1 hi.2 hj.2 eq])
  have old : ∀ x < d.size, s x = d.shape.start x := fun x hx => old x fun i hi eq =>
    Nat.not_lt.2 (copies _ hi.1 _ hi.2).fresh (eq ▸ size.symm ▸ hx)
  exact ⟨copy, s, copies, old,
    h.rowInsertion rows copies old fun k hk c hc => start (k, c) ⟨hk, hc⟩⟩

theorem tileable_of_rowInsertion (h : Inserting d d₁ e t g first ρ count templates new)
    {copy : Nat → NodeId → NodeId} {s : NodeId → Nat} (old : ∀ x < d.size, s x = d.shape.start x)
    (insertion : Tiling.RowInsertion d.shape ⟨s, e.shape.width, e.shape.height⟩ first ρ count templates
      copy (d.rowsOf g) (e.rowsOf g)) : e.Tileable t (d.columnCount t) s := by
  have size := h.stretch.same.size
  have known : ∀ {c}, c ∈ d.tableCells t → c < d.size := fun hc =>
    lt_size_of_kind? (h.regular.wf.kind_tableCells h.regular.kind hc)
  refine ⟨h.added.wf, ?_, fun q hq => ?_, fun c hc props hp => ?_⟩
  · have ht := lt_size_of_kind? h.regular.kind
    rw [h.added.frame.kind t (size.symm ▸ ht), h.stretch.same.kind, h.regular.kind]
  · rw [h.children_table] at hq
    by_cases hqg : q = g
    · subst hqg
      exact insertion.tiling (h.regular.tiled q hq)
    · rw [h.rowsOf_eq hq hqg]
      have other := fun {r c} (hs : Stored (d.rowsOf q) r c) =>
        h.stretch.shape_outside (h.regular.wf.not_stored_of_ne hqg hs)
      have lt := fun {r c} (hs : Stored (d.rowsOf q) r c) => h.lt_size_of_stored hq hs
      exact (h.regular.tiled q hq).congr (fun hs => old _ (lt hs))
        (fun hs => (h.shape_eq (lt hs)).1.trans (other hs).2.1)
        fun hs => (h.shape_eq (lt hs)).2.trans (other hs).2.2
  · rcases h.cell_origin hc with hold | ⟨c', hc', copied⟩
    · exact h.stretch.spans h.regular.wf h.kind_group h.stretched_pos (h.regular.spans c hold) props
        (h.cell?_eq (known hold) ▸ hp)
    · obtain ⟨r', hs'⟩ := h.stored_template hc'
      obtain ⟨p, hp'⟩ := exists_cell? (h.regular.wf.kind_stored h.kind_group hs')
      rw [copied.cell, h.stretch.inside hs', hp'] at hp
      cases hp
      have hmem := mem_tableCells.2 ⟨g, h.group, r', hs'⟩
      exact ⟨(h.regular.spans c' hmem p hp').1, le_rfl⟩

/-- The table can be tiled again, with the old cells where they were. -/
theorem tileable (h : Inserting d d₁ e t g first ρ count templates new) :
    ∃ s, e.Tileable t (d.columnCount t) s ∧ ∀ x < d.size, s x = d.shape.start x := by
  obtain ⟨copy, s, -, old, insertion⟩ := h.exists_rowInsertion
  exact ⟨s, h.tileable_of_rowInsertion old insertion, old⟩

/-- Old cells carry their columns, and new ones carry none. -/
theorem poised (h : Inserting d d₁ e t g first ρ count templates new) :
    e.Poised t (d.size ≤ ·) := by
  obtain ⟨s, tile, old⟩ := h.tileable
  refine ⟨_, s, tile, fun c hc => ?_⟩
  rcases h.cell_origin hc with hold | ⟨c', hc', copied⟩
  · have hlt := lt_size_of_kind? (h.regular.wf.kind_tableCells h.regular.kind hold)
    refine .inl ?_
    rw [columnIndex?, h.cell?_eq hlt, ← columnIndex?, h.stretch.columnIndex?_eq, old c hlt]
    exact h.regular.columnIndex?_eq hold
  · refine .inr ⟨?_, h.stretch.same.size ▸ copied.fresh⟩
    rw [columnIndex?, copied.cell]
    cases d₁.cell? c' <;> rfl

/-- The old cells stay in their order, among blank ones. -/
theorem inherits (h : Inserting d d₁ e t g first ρ count templates new) :
    Inherits (fun _ => true) d e t := by
  have size := h.stretch.same.size
  have wf₁ := h.stretch.same.wellFormed h.regular.wf
  have ht₁ := (h.stretch.same.kind t).trans h.regular.kind
  have kind₁ := (h.stretch.same.kind g).trans h.kind_group
  have fresh : ∀ c ∈ (new.map e.children).flatten, d.size ≤ c ∧ e.Blank c := by
    obtain ⟨copy, rows, copies⟩ := h.exists_copy
    rw [rows]
    intro c hc
    obtain ⟨row, hrow, hcr⟩ := List.mem_flatten.1 hc
    obtain ⟨k, hk, rfl⟩ := List.mem_map.1 hrow
    obtain ⟨c', hc', rfl⟩ := List.mem_map.1 hcr
    have copy := copies k (List.mem_range.1 hk) c' hc'
    exact ⟨size ▸ copy.fresh, copy.blank⟩
  have none : (new.map e.children).flatten.filter (· < d.size) = [] :=
    List.filter_eq_nil_iff.2 fun c hc => by simpa using (fresh c hc).1
  have old : ∀ q ∈ d.children t, (d.rowsOf q).flatten.filter (· < d.size) = (d.rowsOf q).flatten :=
    fun q hq => List.filter_eq_self.2 fun c hc => by
      obtain ⟨r, hs⟩ := exists_stored hc
      simpa using h.lt_size_of_stored hq hs
  have cells : (e.tableCells t).filter (· < d.size) = d.tableCells t := by
    rw [tableCells_eq_flatMap, tableCells_eq_flatMap, h.children_table, List.filter_flatMap]
    refine List.flatMap_congr fun q hq => ?_
    by_cases hqg : q = g
    · subst hqg
      rw [← old q hq, h.rowsOf_group]
      simp only [List.flatten_append, List.filter_append, none, List.append_nil]
      rw [← List.filter_append, ← List.flatten_append, List.take_append_drop]
    · rw [h.rowsOf_eq hq hqg, old q hq]
  have step : Inherits (fun _ => true) d₁ e t := by
    refine .of_frame h.added.frame wf₁ ht₁ (fun x hx => .inr (.inl (hx ▸ kind₁))) ?_ fun c hc hge => ?_
    · rw [size, cells, List.filter_true, h.stretch.same.tableCells]
    · obtain ⟨q, hq, r, hs⟩ := mem_tableCells.1 hc
      rw [h.children_table] at hq
      rw [size] at hge
      have hlt : ∀ q ∈ d.children t, ∀ {r}, ¬ Stored (d.rowsOf q) r c := fun q hq r hs =>
        Nat.not_lt.2 hge (h.lt_size_of_stored hq hs)
      by_cases hqg : q = g
      · subst hqg
        have hmem := hs.mem_flatten
        rw [h.rowsOf_group, List.flatten_append, List.flatten_append, List.mem_append,
          List.mem_append] at hmem
        have part : ∀ l : List (List NodeId), l ⊆ d.rowsOf q → c ∉ l.flatten := fun l hl hc => by
          obtain ⟨row, hrow, hcr⟩ := List.mem_flatten.1 hc
          obtain ⟨i, hi⟩ := exists_stored (List.mem_flatten.2 ⟨row, hl hrow, hcr⟩)
          exact hlt q hq hi
        rcases hmem with (hmem | hmem) | hmem
        · exact absurd hmem (part _ (List.take_subset _ _))
        · exact (fresh c hmem).2
        · exact absurd hmem (part _ (List.drop_subset _ _))
      · rw [h.rowsOf_eq hq hqg] at hs
        exact absurd hs (hlt q hq)
  exact (Inherits.of_sameTree h.regular.wf h.regular.kind h.stretch.same).trans step wf₁ ht₁

end Inserting

end RichTable.Document

namespace RichTable.Action

open Document

variable {L : Type} {d e : Document L} {t g row : NodeId} {templates : List NodeId}

/-- One round of the loop that fills a new row. -/
theorem ensures_appendCopy (wf : d.WellFormed) (wfe : e.WellFormed)
    (frame : Frame (fun _ => False) (fun _ => False) d e) {c : NodeId} (hc : d.kind? c = some .cell)
    (hrow : e.kind? row = some .row) (hfresh : d.size ≤ row) :
    Ensures (do
      let copy ← copyCell c
      updateCell copy ({ · with rowSpan := 1 })
      appendChild row copy) e fun _ e' => e'.WellFormed ∧
        Frame (fun _ => False) (fun _ => False) d e' ∧ Frame (· = row) (fun _ => False) e e' ∧
        ∃ f, e'.children row = e.children row ++ [f] ∧ IsCopy d e' c f := by
  obtain ⟨props, hp⟩ := exists_cell? hc
  have hpe : e.cell? c = some props := (frame.cell c (lt_size_of_kind? hc) id).trans hp
  simp only [ensures_bind]
  refine (ensures_copyCell wfe hpe).mono fun f e₁ ⟨_, new⟩ => ?_
  rw [ensures_updateCell (kind?_of_cell? new.cell)]
  have new := new.modifyCell ({ · with rowSpan := 1 })
  generalize e₁.modifyCell f ({ · with rowSpan := 1 }) = e₂ at new ⊢
  rw [ensures_appendChild (new.attachable wfe hrow),
    new.frame.children row (lt_size_of_kind? hrow) id]
  have ins := new.attach wfe hrow (e.children row).length
  refine ⟨ins.wf, ?_, ins.frame, f, ?_, frame.size.trans ins.fresh, ins.blank, ?_⟩
  · have outer : Frame (· = row) (fun _ => False) d e :=
      frame.mono (fun _ _ => False.elim) (fun _ _ => id) wf
    exact (outer.trans ins.frame).mono
      (fun x hx hxr => Nat.not_lt.2 hfresh (hxr ▸ hx)) (fun _ _ => id) wf
  · rw [ins.row, min_self]
    simp
  · rw [ins.cell, hp, Option.map_some]

theorem ensures_insertRowOf (wf : d.WellFormed) (hg : d.kind? g = some .rowGroup)
    (nodup : templates.Nodup) (kind : ∀ c ∈ templates, d.kind? c = some .cell) {l u : List NodeId}
    (split : d.children g = l ++ u) :
    Ensures (insertRowOf templates g l.length) d fun row d' => d'.WellFormed ∧
      Frame (· = g) (fun _ => False) d d' ∧ d'.children g = l ++ row :: u ∧
      CopyRow d d' templates row := by
  simp only [insertRowOf, ensures_bind, ensures_create]
  have hgs := lt_size_of_kind? hg
  -- the row so far holds the copies of the templates that are done
  refine (Ensures.forM
    (I := fun rest e => e.WellFormed ∧ Frame (fun _ => False) (fun _ => False) d e ∧
      e.parent? d.size = none ∧ ∃ done, templates = done ++ rest ∧ CopyRow d e done d.size)
    (fun c rest e ⟨wfe, frame, free, done, htemplates, hrow⟩ => ?_) templates _
    ⟨wf.push _, .of_push, by simp [parent?_size], [], rfl, le_rfl, by simp [kind?_push, Payload.kind],
      id, by simp [children_size], by simp⟩).mono ?_
  · have hc : c ∈ templates := by simp [htemplates]
    have hcd : c ∉ done := fun hcd => by
      rw [htemplates] at nodup
      exact (List.nodup_append.1 nodup).2.2 c hcd c (by simp) rfl
    refine (ensures_appendCopy wf wfe frame (kind c hc) hrow.kind hrow.fresh).mono ?_
    rintro _ e' ⟨wfe', frame', inner, f, hf, hcopy⟩
    obtain ⟨copy, hchildren, hcopies⟩ := hrow.copies
    have hlt := lt_size_of_kind? hrow.kind
    refine ⟨wfe', frame', ?_, done ++ [c], by simp [htemplates], hrow.fresh,
      (inner.kind _ hlt).trans hrow.kind, Function.update copy c f, ?_, fun x hx => ?_⟩
    · rw [inner.parent _ hlt (by simp [free]), free]
    · rw [hf, hchildren, List.map_append, List.map_singleton, Function.update_self]
      congr 1
      refine List.map_congr_left fun x hx => ?_
      have hxc : x ≠ c := fun h => hcd (h ▸ hx)
      rw [Function.update_of_ne hxc]
    · by_cases hxc : x = c
      · rw [hxc, Function.update_self]
        exact hcopy
      · rw [Function.update_of_ne hxc]
        have hx : x ∈ done := by simpa [hxc] using hx
        have hxf : copy x ∈ e.children d.size := hchildren ▸ List.mem_map_of_mem hx
        refine (hcopies x hx).of_frame inner (fun h => ?_) fun b hb h => ?_
        · have := wfe.kind_cell hrow.kind hxf
          rw [h, hrow.kind] at this
          cases this
        · rw [h, hrow.kind] at hb
          cases hb
  · rintro _ e ⟨wfe, frame, free, done, htemplates, hrow⟩
    rw [List.append_nil] at htemplates
    subst htemplates
    have same : e.children g = l ++ u := (frame.children g hgs id).trans split
    have ha : e.Attachable g d.size := by
      refine ⟨⟨.rowGroup, .row, (frame.kind g hgs).trans hg, hrow.kind, rfl⟩, free,
        wf.root_lt_size.ne', ?_⟩
      rw [frame.ancestors wf wfe hgs fun _ _ _ => id]
      exact fun h => Nat.lt_irrefl _ (lt_size_of_mem_ancestors h)
    have inner : ∀ {x k}, e.kind? x = some k → k ≠ .rowGroup →
        (e.attach g l.length d.size).children x = e.children x := fun {x k} hx hne => by
      rw [children_attach ha.parent_lt_size, if_neg]
      rintro rfl
      rw [(frame.kind x hgs).trans hg] at hx
      exact hne (Option.some.inj hx).symm
    simp only [ensures_insertChild ha, ensures_pure]
    refine ⟨wfe.attach ha _, ?_, ?_, hrow.fresh, by simpa using hrow.kind, ?_⟩
    · exact (frame.mono (fun _ _ => False.elim) (fun _ _ => id) wf).of_attach ha (.inl rfl) le_rfl
    · rw [children_attach ha.parent_lt_size, if_pos rfl, same, min_eq_left (by simp),
        insertIdx_length_append]
    · obtain ⟨copy, hchildren, hcopies⟩ := hrow.copies
      refine ⟨copy, (inner hrow.kind (by decide)).trans hchildren, fun c hc => ?_⟩
      obtain ⟨fresh, ⟨b, hb, hk, he⟩, cell⟩ := hcopies c hc
      have hf := wfe.kind_cell hrow.kind (hchildren ▸ List.mem_map_of_mem hc : copy c ∈ _)
      exact ⟨fresh, ⟨b, (inner hf (by decide)).trans hb, by simpa using hk,
        (inner hk (by decide)).trans he⟩, by simpa using cell⟩

/-- The loop that inserts the rows. -/
theorem ensures_insertRowsOf (wf : d.WellFormed) (hg : d.kind? g = some .rowGroup)
    (nodup : templates.Nodup) (kind : ∀ c ∈ templates, d.kind? c = some .cell) {first : Nat}
    (hfirst : first ≤ (d.children g).length) (count : Nat) :
    Ensures ((List.range count).mapM fun i => insertRowOf templates g (first + i)) d fun new d' =>
      new.length = count ∧ RowsAdded d d' g first templates new := by
  rw [List.range_eq_range']
  refine (Ensures.mapM
    (I := fun rest new e => new.length ≤ count ∧
      rest = List.range' new.length (count - new.length) ∧ RowsAdded d e g first templates new)
    (fun i rest new e ⟨hle, hrest, h⟩ => ?_) _ d
    ⟨Nat.zero_le _, rfl, wf, .refl d, by simp, by simp⟩).mono ?_
  · have hlt : new.length < count := by
      by_contra hge
      rw [Nat.sub_eq_zero_of_le (Nat.le_of_not_lt hge)] at hrest
      simp at hrest
    rw [show count - new.length = count - (new.length + 1) + 1 by omega, List.range'_succ,
      List.cons.injEq] at hrest
    obtain ⟨rfl, hrest⟩ := hrest
    have hgs := lt_size_of_kind? hg
    have hge : e.kind? g = some .rowGroup := (h.frame.kind g hgs).trans hg
    have length : ((d.children g).take first ++ new).length = first + new.length := by
      simp [min_eq_left hfirst]
    rw [← length]
    refine (ensures_insertRowOf h.wf hge nodup (fun c hc => ?_) h.group).mono
      fun row e' ⟨wfe', frame, group, hrow⟩ => ?_
    · rw [h.frame.kind c (lt_size_of_kind? (kind c hc)), kind c hc]
    · refine ⟨by simpa using hlt, by simpa using hrest, wfe', h.frame.trans frame,
        by simp [group], fun r hr => ?_⟩
      rcases List.mem_append.1 hr with hr | hr
      · exact (h.rows r hr).of_frame h.wf frame fun x hx => hx ▸ hge
      · obtain rfl := List.mem_singleton.1 hr
        obtain ⟨fresh, hk, copy, hchildren, hcopy⟩ := hrow
        refine ⟨h.frame.size.trans fresh, hk, copy, hchildren, fun c hc => ?_⟩
        obtain ⟨hf, hblank, hcell⟩ := hcopy c hc
        refine ⟨h.frame.size.trans hf, hblank, ?_⟩
        rw [hcell, h.frame.cell c (lt_size_of_kind? (kind c hc)) id]
  · rintro new e ⟨hle, hrest, h⟩
    have : count - new.length = 0 := by simpa using congrArg List.length hrest.symm
    exact ⟨by omega, h⟩

/-- A cell that occupies the row next to the gap reaches over it if it occupies the row behind. -/
theorem bridges_iff (wf : d.WellFormed) (hg : d.kind? g = some .rowGroup)
    (fits : ∀ {r c}, Stored (d.rowsOf g) r c → r + d.shape.height c ≤ (d.rowsOf g).length)
    {ρ r : Nat} {c : NodeId} (hs : Stored (d.rowsOf g) r c) (hle : r ≤ ρ)
    (hlt : ρ < r + d.shape.height c) (side : Side) :
    (d.neighbourRow? g ρ side).any (d.coversRow c) = true ↔
      r < (match side with | .before => ρ | .after => ρ + 1) ∧
        (match side with | .before => ρ | .after => ρ + 1) < r + d.shape.height c := by
  have hfit := fits hs
  rw [length_rowsOf] at hfit
  have covers : ∀ {i}, ((d.children g)[i]?).any (d.coversRow c) = true ↔
      r ≤ i ∧ i < r + d.shape.height c := fun {i} => by
    cases hi : (d.children g)[i]? with
    | none =>
      have := List.getElem?_eq_none_iff.1 hi
      simp only [Option.any_none, Bool.false_eq_true, false_iff]
      omega
    | some row => exact wf.coversRow_iff hg hs hi
  cases side with
  | before =>
    simp only [neighbourRow?]
    split_ifs with h0
    · simp [h0]
    · rw [covers]
      omega
  | after =>
    simp only [neighbourRow?, covers]
    omega

/-- Inserting rows into a regular table, step by step. -/
theorem ensures_insertRows_stages [Length L] (reg : d.Regular t) (hg : g ∈ d.children t)
    {reference : NodeId} {ρ : Nat} (hρ : (d.children g)[ρ]? = some reference) {count : Nat}
    (hcount : count ≠ 0) (side : Side) :
    Ensures (insertRows reference count side) d fun result d' => ∃ d₁ d₂ e templates new,
      Clamped d d₁ g ∧ Inserting d₁ d₂ e t g (match side with | .before => ρ | .after => ρ + 1) ρ count
        templates new ∧ d' = e.tidied t ∧ result = some (d'.wholeRows t new) := by
  simp only [insertRows, if_neg hcount]
  have hgk := reg.kind_group hg
  have hr := List.mem_of_getElem? hρ
  have rows : d.tableRows t ≠ [] := List.ne_nil_of_mem (List.mem_flatMap.2 ⟨g, hg, hr⟩)
  simp only [ensures_bind, ensures_requireParent (reg.wf.groupOf?_eq hgk hr),
    ensures_requireParent (reg.wf.tableOf?_eq reg.kind hg), ensures_place_steady reg.steady,
    ensures_modify, ensures_get]
  have clamp := reg.wf.clamped hgk
  have reg₁ := Clamped.regular clamp reg hg rows
  have fits := fun {r c} => Clamped.fits clamp reg.wf hgk (r := r) (c := c)
  rw [← clamp.same.children] at hg hρ
  generalize d.clampRowSpans g = d₁ at *
  have hgk₁ := reg₁.kind_group hg
  rw [reg₁.wf.childIndex?_eq hρ]
  set first := (match side with | .before => ρ | .after => ρ + 1) with hfirst
  set bridges := fun cell => (d₁.neighbourRow? g ρ side).any (d₁.coversRow cell) with hbridges
  set occupants := d₁.sortByColumn (d₁.occupants reference) with hoccupants
  have hρlt := lt_length_rowsOf hρ
  have hnext : ρ + 1 = first ∨ ρ = first := by cases side <;> simp [hfirst]
  have mem : ∀ {c}, c ∈ occupants ↔ d₁.shape.Reaches (d₁.rowsOf g) ρ c := fun {c} => by
    rw [hoccupants, sortByColumn, (sortBy_perm _ _).mem_iff]
    exact reg₁.wf.mem_occupants hgk₁ hρ
  have nodup : occupants.Nodup := by
    rw [hoccupants, sortByColumn, (sortBy_perm _ _).nodup_iff]
    exact reg₁.wf.nodup_occupants hgk₁ hρ
  have kind : ∀ c ∈ occupants, d₁.kind? c = some .cell := fun c hc => by
    obtain ⟨r, hs, -⟩ := mem.1 hc
    exact reg₁.wf.kind_stored hgk₁ hs
  -- the cells that grow are those that reach over the gap
  have grows : ∀ {r c}, Stored (d₁.rowsOf g) r c →
      (c ∈ occupants.filter bridges ↔ r < first ∧ first < r + d₁.shape.height c) := by
    intro r c hs
    rw [List.mem_filter, mem, hs.reaches_iff (reg₁.wf.nodup_rowsOf g)]
    constructor
    · rintro ⟨⟨hle, hlt⟩, hb⟩
      exact (bridges_iff reg₁.wf hgk₁ fits hs hle hlt side).1 hb
    · rintro ⟨h₁, h₂⟩
      have hle : r ≤ ρ := by omega
      have hlt : ρ < r + d₁.shape.height c := by omega
      exact ⟨⟨hle, hlt⟩, (bridges_iff reg₁.wf hgk₁ fits hs hle hlt side).2 ⟨h₁, h₂⟩⟩
  have stretch := reg₁.respanned_foldl hg (nodup.filter bridges) (H := d₁.stretched first count)
    (f := fun _ props => { props with rowSpan := props.rowSpan + count })
    (fun c hc => (mem.1 (List.mem_filter.1 hc).1).imp fun _ h => h.1) fun {r c props} hs hp => by
      rw [stretched, (reg₁.steady.shape_eq (mem_tableCells.2 ⟨g, hg, r, hs⟩) hp).2]
      simp only [grows hs, (reg₁.steady.shape_eq (mem_tableCells.2 ⟨g, hg, r, hs⟩) hp).2]
      split_ifs <;> rfl
  dsimp only
  rw [ensures_bind, ensures_forM_updateCell fun c hc => kind c (List.mem_filter.1 hc).1]
  generalize (occupants.filter bridges).foldl _ d₁ = d₂ at stretch ⊢
  have same := stretch.same
  rw [ensures_bind]
  refine (ensures_insertRowsOf (same.wellFormed reg₁.wf) ((same.kind g).trans hgk₁)
    (nodup.filter _) (fun c hc => ?_) ?_ count).mono fun new e ⟨hlen, added⟩ => ?_
  · rw [same.kind, kind c (List.mem_filter.1 hc).1]
  · rw [length_rowsOf] at hρlt
    rw [same.children]
    show first ≤ _
    omega
  have inserting : Inserting d₁ d₂ e t g first ρ count (occupants.filter fun c => !bridges c) new :=
    { regular := reg₁, group := hg, fits, next := ⟨hρlt, hnext⟩, stretch, length := hlen, added,
      templates_iff := fun {c} => by
        simp only [List.mem_filter, mem, Bool.not_eq_true']
        constructor
        · rintro ⟨⟨r, hs, hle, hlt⟩, hb⟩
          refine ⟨r, hs, hle, hlt, fun h => ?_⟩
          exact Bool.eq_false_iff.1 hb ((bridges_iff reg₁.wf hgk₁ fits hs hle hlt side).2 h)
        · rintro ⟨r, hs, hle, hlt, hn⟩
          refine ⟨⟨r, hs, hle, hlt⟩, Bool.eq_false_iff.2 fun hb => hn ?_⟩
          exact (bridges_iff reg₁.wf hgk₁ fits hs hle hlt side).1 hb
      ordered := (reg₁.pairwise_occupants hg hρ).sublist List.filter_sublist }
  obtain ⟨s, tile, -⟩ := inserting.tileable
  rw [ensures_bind, ensures_settle_iff tile]
  simp only [ensures_bind, ensures_get, ensures_pure]
  exact ⟨d₁, d₂, e, _, new, clamp, inserting, rfl, rfl⟩

/-- Inserting rows into a regular table ends with tidying a table that can be tiled. -/
theorem ensures_insertRows_tidied [Length L] (reg : d.Regular t) (hg : g ∈ d.children t)
    {reference : NodeId} (hr : reference ∈ d.children g) (count : Nat) (side : Side) :
    Ensures (insertRows reference count side) d fun result d' =>
      result.isSome = decide (0 < count) ∧ (d' = d ∧ count = 0 ∨ 0 < count ∧
        ∃ e, e.Poised t (d.size ≤ ·) ∧ Inherits (fun _ => true) d e t ∧ d' = e.tidied t) := by
  by_cases hcount : count = 0
  · rw [insertRows, if_pos hcount, ensures_pure]
    exact ⟨by simp [hcount], .inl ⟨rfl, hcount⟩⟩
  obtain ⟨ρ, hρ⟩ := List.getElem?_of_mem hr
  refine (ensures_insertRows_stages reg hg hρ hcount side).mono ?_
  rintro _ _ ⟨d₁, d₂, e, templates, new, clamp, inserting, rfl, rfl⟩
  refine ⟨by simp; omega, .inr ⟨by omega, e, clamp.same.size ▸ inserting.poised, ?_, rfl⟩⟩
  exact (Inherits.of_sameTree reg.wf reg.kind clamp.same).trans inserting.inherits inserting.regular.wf
    inserting.regular.kind

/-- Inserting rows into a regular table leaves a regular table. -/
theorem ensures_insertRows [Length L] (reg : d.Regular t) (hg : g ∈ d.children t) {reference : NodeId}
    (hr : reference ∈ d.children g) (count : Nat) (side : Side) :
    Ensures (insertRows reference count side) d fun result d' =>
      result.isSome = decide (0 < count) ∧ d'.Regular t ∧ Inherits (fun _ => true) d d' t := by
  refine (ensures_insertRows_tidied reg hg hr count side).mono ?_
  rintro result d' ⟨done, ⟨rfl, -⟩ | ⟨-, e, poised, inherits, rfl⟩⟩
  · exact ⟨done, reg, .of_sameTree reg.wf reg.kind (.refl _)⟩
  · exact ⟨done, poised.regular, inherits.trans_sameTree poised.same⟩

end RichTable.Action
