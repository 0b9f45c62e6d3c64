import Mathlib
import RichTable.Proofs.Edit.Clamp
import RichTable.Proofs.Grid.Rows

/-!
# Deleting rows

Cells that reach into the deleted rows from above get shorter. Those that start there and reach below
are recreated in the row that follows; `Recreated` says what becomes of this row, whose cells stay in
the order of their columns. The outcome is a `RowDeletion` of the tiling of the row group.
-/

namespace RichTable

/-- A list without the part from `first` to `last`. -/
theorem split_interval {α : Type} (l : List α) {first last : Nat} (h : first ≤ last) :
    l = l.take first ++ ((l.take (last + 1)).drop first ++ l.drop (last + 1)) := by
  conv_lhs => rw [← List.take_append_drop (last + 1) l,
    ← List.take_append_drop first (l.take (last + 1))]
  rw [List.take_take, min_eq_left (by omega), List.append_assoc]

theorem filter_not_mem_interval {l : List NodeId} (nodup : l.Nodup) {first last : Nat}
    (h : first ≤ last) :
    l.filter (· ∉ (l.take (last + 1)).drop first) = l.take first ++ l.drop (last + 1) := by
  have split := split_interval l h
  have hnodup := nodup
  rw [split] at hnodup
  obtain ⟨-, hnodup, hhead⟩ := List.nodup_append.1 hnodup
  obtain ⟨-, -, htail⟩ := List.nodup_append.1 hnodup
  have kept : ∀ p : List NodeId, (∀ x ∈ p, x ∉ (l.take (last + 1)).drop first) →
      p.filter (· ∉ (l.take (last + 1)).drop first) = p := fun p hp =>
    List.filter_eq_self.2 fun x hx => by simpa using hp x hx
  have gone : ((l.take (last + 1)).drop first).filter (· ∉ (l.take (last + 1)).drop first) = [] :=
    List.filter_eq_nil_iff.2 fun x hx => by simpa using hx
  calc l.filter (· ∉ (l.take (last + 1)).drop first)
      = (l.take first ++ ((l.take (last + 1)).drop first ++ l.drop (last + 1))).filter
          (· ∉ (l.take (last + 1)).drop first) := by rw [← split]
    _ = l.take first ++ l.drop (last + 1) := by
      rw [List.filter_append, List.filter_append, gone, List.nil_append,
        kept _ fun x hx hm => hhead x hx x (List.mem_append_left _ hm) rfl,
        kept _ fun x hx hm => htail x hm x hx rfl]

namespace Document

variable {L : Type} {d d' e e' : Document L} {t g next : NodeId}

/-- Side by side: the first cell ends before the second one starts. -/
def LeftOf (d : Document L) (b c : NodeId) : Prop :=
  d.shape.start b + d.shape.width b ≤ d.shape.start c

/-- The cells have no column in common. -/
def Apart (d : Document L) (b c : NodeId) : Prop := ∀ j, d.shape.Spans j b → ¬ d.shape.Spans j c

theorem Apart.symm {b c : NodeId} (h : d.Apart b c) : d.Apart c b := fun j hc hb => h j hb hc

theorem Apart.congr {b c b' c' : NodeId} (h : d.Apart b c)
    (hb : d'.shape.start b' = d.shape.start b ∧ d'.shape.width b' = d.shape.width b)
    (hc : d'.shape.start c' = d.shape.start c ∧ d'.shape.width c' = d.shape.width c) :
    d'.Apart b' c' := fun j hj hj' => by
  rw [Shape.Spans, hb.1, hb.2] at hj
  rw [Shape.Spans, hc.1, hc.2] at hj'
  exact h j hj hj'

theorem Apart.leftOf {b c : NodeId} (h : d.Apart b c) (hc : 0 < d.shape.width c)
    (hle : d.shape.start b ≤ d.shape.start c) : d.LeftOf b c := by
  by_contra hlt
  exact h _ ⟨hle, Nat.lt_of_not_le hlt⟩ ⟨le_rfl, Nat.lt_add_of_pos_right hc⟩

theorem shape_congr {c c' : NodeId} {props props' : CellProps L} (h : d.cell? c = some props)
    (h' : d'.cell? c' = some props') (span : props'.columnSpan = props.columnSpan)
    (column : props'.columnIndex = props.columnIndex) :
    d'.shape.start c' = d.shape.start c ∧ d'.shape.width c' = d.shape.width c := by
  simp [shape, columnIndex?, extent_eq h, extent_eq h', h, h', CellProps.extent, CellProps.width,
    span, column]

/-- Going from `d` to `d'`, the cells have each got a blank copy in row `next`, at their column and
with the given heights. -/
structure Recreated (d d' : Document L) (next : NodeId) (cells : List NodeId)
    (height : NodeId → Nat) (copy : NodeId → NodeId) : Prop where
  wf : d'.WellFormed
  frame : Frame (· = next) (fun _ => False) d d'
  mem_iff : ∀ {x}, x ∈ d'.children next ↔ x ∈ d.children next ∨ ∃ c ∈ cells, x = copy c
  old : (d'.children next).filter (· < d.size) = d.children next
  ordered : (d'.children next).Pairwise d'.LeftOf
  fresh : ∀ c ∈ cells, d.size ≤ copy c
  blank : ∀ c ∈ cells, d'.Blank (copy c)
  cell : ∀ c ∈ cells, d'.cell? (copy c) =
    (d.cell? c).map fun props => { props with rowSpan := height c }

/-- One more cell. -/
theorem Recreated.snoc {done : List NodeId} {height : NodeId → Nat} {copy : NodeId → NodeId}
    {c f : NodeId} {i : Nat} {l u : List NodeId} {props : CellProps L}
    (h : Recreated d e next done height copy) (hcd : c ∉ done) (hp : d.cell? c = some props)
    (hnext : e.kind? next = some .row)
    (ins : CellInserted e e' next i f { props with rowSpan := height c })
    (split : e.children next = l ++ u) (row : e'.children next = l ++ f :: u)
    (ordered : (e'.children next).Pairwise e'.LeftOf) :
    Recreated d e' next (done ++ [c]) height (Function.update copy c f) := by
  have mem : ∀ {x}, x ∈ e'.children next ↔ x = f ∨ x ∈ e.children next := fun {x} => by
    rw [row, split]
    simp only [List.mem_append, List.mem_cons]
    tauto
  have update : ∀ x ∈ done, Function.update copy c f x = copy x := fun x hx => by
    have hxc : x ≠ c := fun e => hcd (e ▸ hx)
    rw [Function.update_of_ne hxc]
  have copied : ∀ {x}, x ∈ done → copy x ∈ e.children next := fun hx =>
    h.mem_iff.2 (.inr ⟨_, hx, rfl⟩)
  -- what holds of the copies so far and of `f` holds of all copies
  have all : ∀ {P : NodeId → NodeId → Prop}, (∀ x ∈ done, P x (copy x)) → P c f →
      ∀ x ∈ done ++ [c], P x (Function.update copy c f x) := fun hd hf x hx => by
    rcases List.mem_append.1 hx with hx | hx
    · exact (update x hx).symm ▸ hd x hx
    · obtain rfl := List.mem_singleton.1 hx
      rwa [Function.update_self]
  refine ⟨ins.wf, h.frame.trans ins.frame, fun {x} => ?_, ?_, ordered, ?_, ?_, ?_⟩
  · rw [mem, h.mem_iff]
    constructor
    · rintro (rfl | hx | ⟨b, hb, rfl⟩)
      · exact .inr ⟨c, by simp, by simp⟩
      · exact .inl hx
      · exact .inr ⟨b, by simp [hb], (update b hb).symm⟩
    · rintro (hx | hx)
      · exact .inr (.inl hx)
      · obtain ⟨b, hb, rfl⟩ := hx
        exact all (P := fun _ y => y = f ∨ y ∈ d.children next ∨ ∃ c ∈ done, y = copy c)
          (fun x hx => .inr (.inr ⟨x, hx, rfl⟩)) (.inl rfl) b hb
  · have hf : ¬ f < d.size := Nat.not_lt.2 (h.frame.size.trans ins.fresh)
    have old := h.old
    rw [split] at old
    rw [row]
    simpa only [List.filter_append, List.filter_cons, hf, decide_false, Bool.false_eq_true,
      if_false] using old
  · exact all (P := fun _ y => d.size ≤ y) h.fresh (h.frame.size.trans ins.fresh)
  · refine all (P := fun _ y => e'.Blank y) (fun x hx => ?_) ins.blank
    refine (h.blank x hx).of_frame ins.frame (fun e => ?_) fun b hb e => ?_
    · have := h.wf.kind_cell hnext (copied hx)
      rw [e, hnext] at this
      cases this
    · rw [e, hnext] at hb
      cases hb
  · refine all (P := fun x y => e'.cell? y = (d.cell? x).map fun props =>
      { props with rowSpan := height x }) (fun x hx => ?_) (by rw [ins.cell, hp, Option.map_some])
    rw [ins.frame.cell _ (h.wf.lt_size_child (copied hx)) id, h.cell x hx]

/-! ## The tiling -/

/-- The heights of the cells of a group once rows `first` to `last` are gone. -/
def shrunk (d : Document L) (first last r : Nat) (c : NodeId) : Nat :=
  if r < first ∧ first < r + d.shape.height c then
    d.shape.height c - (min (r + d.shape.height c - 1) last - first + 1)
  else d.shape.height c

/-- The last row that a cell occupies, if its row span is cut to the group. -/
def bottomRow (d : Document L) (c : NodeId) : Nat := d.topRow c + d.shape.height c - 1

/-- The cells stored in rows `first` to `last` of a group. -/
def inRows (d : Document L) (g : NodeId) (first last : Nat) (c : NodeId) : Bool :=
  (((d.children g).take (last + 1)).drop first).any fun row => (d.children row).contains c

theorem inRows_iff {first last : Nat} {c : NodeId} : d.inRows g first last c = true ↔
    ∃ r, first ≤ r ∧ r ≤ last ∧ Stored (d.rowsOf g) r c := by
  simp only [inRows, List.any_eq_true, List.contains_iff_mem, stored_rowsOf]
  constructor
  · rintro ⟨row, hrow, hc⟩
    obtain ⟨i, hi⟩ := List.getElem?_of_mem hrow
    rw [List.getElem?_drop, List.getElem?_take] at hi
    split_ifs at hi with hlt
    exact ⟨first + i, by omega, by omega, row, hi, hc⟩
  · rintro ⟨r, h₁, h₂, row, hr, hc⟩
    refine ⟨row, List.mem_of_getElem? (i := r - first) ?_, hc⟩
    rw [List.getElem?_drop, List.getElem?_take, show first + (r - first) = r by omega,
      if_pos (by omega), hr]

/-- Without the cells of the deleted rows. -/
theorem WellFormed.filter_not_inRows (wf : d.WellFormed) (g : NodeId) {first last : Nat}
    (hle : first ≤ last) :
    ((d.children g).flatMap d.children).filter (fun c => !d.inRows g first last c) =
      ((d.children g).take first ++ (d.children g).drop (last + 1)).flatMap d.children := by
  have kept : ∀ {i row}, (d.children g)[i]? = some row → i < first ∨ last < i →
      (d.children row).filter (fun c => !d.inRows g first last c) = d.children row := by
    intro i row hi hout
    refine List.filter_eq_self.2 fun c hc => ?_
    simp only [Bool.not_eq_true', ← Bool.not_eq_true, inRows_iff, not_exists, not_and]
    intro r h₁ h₂ hs
    have := hs.row_unique (wf.nodup_rowsOf g) (stored_rowsOf.2 ⟨row, hi, hc⟩)
    omega
  have gone : ∀ row ∈ ((d.children g).take (last + 1)).drop first,
      (d.children row).filter (fun c => !d.inRows g first last c) = [] := by
    intro row hrow
    refine List.filter_eq_nil_iff.2 fun c hc => ?_
    simp only [Bool.not_eq_true', Bool.not_eq_false]
    exact List.any_eq_true.2 ⟨row, hrow, List.contains_iff_mem.2 hc⟩
  conv_lhs => rw [split_interval (d.children g) hle]
  rw [List.filter_flatMap, List.flatMap_append, List.flatMap_append, List.flatMap_append,
    List.flatMap_eq_nil_iff.2 gone, List.nil_append]
  congr 1
  · refine List.flatMap_congr fun row hr => ?_
    obtain ⟨i, hi⟩ := List.getElem?_of_mem hr
    rw [List.getElem?_take] at hi
    split_ifs at hi with hlt
    exact kept hi (.inl hlt)
  · refine List.flatMap_congr fun row hr => ?_
    obtain ⟨i, hi⟩ := List.getElem?_of_mem hr
    rw [List.getElem?_drop] at hi
    exact kept hi (.inr (by omega))

/-- Rows `first` to `last` of a group deleted in three steps: cells that reach into them get shorter,
cells that reach out of them are recreated, then the rows are detached. -/
structure Deleting (d d₁ d₂ e : Document L) (t g : NodeId) (first last : Nat) (cells : List NodeId)
    (copy : NodeId → NodeId) : Prop where
  regular : d.Regular t
  group : g ∈ d.children t
  fits : ∀ {r c}, Stored (d.rowsOf g) r c → r + d.shape.height c ≤ (d.rowsOf g).length
  range : first ≤ last ∧ last < (d.rowsOf g).length
  shrink : Respanned d d₁ g (d.shrunk first last)
  cells_iff : ∀ {c}, c ∈ cells ↔ ∃ r, Stored (d.rowsOf g) r c ∧ first ≤ r ∧ r ≤ last ∧
    last + 1 < r + d.shape.height c
  recreate : (∃ next, (d.children g)[last + 1]? = some next ∧
      Recreated d₁ d₂ next cells (fun c => d.bottomRow c - last) copy) ∨
    (d.children g).length = last + 1 ∧ d₂ = d₁
  wf : e.WellFormed
  detached : Frame (· = g) (fun _ => False) d₂ e
  rows : e.children g = (d.children g).take first ++ (d.children g).drop (last + 1)

namespace Deleting

variable {d₁ d₂ : Document L} {first last : Nat} {cells : List NodeId} {copy : NodeId → NodeId}

theorem kind_group (h : Deleting d d₁ d₂ e t g first last cells copy) :
    d.kind? g = some .rowGroup :=
  h.regular.kind_group h.group

theorem lt_size_of_stored (h : Deleting d d₁ d₂ e t g first last cells copy) {q : NodeId}
    (hq : q ∈ d.children t) {r : Nat} {c : NodeId} (hs : Stored (d.rowsOf q) r c) : c < d.size :=
  lt_size_of_kind? (h.regular.wf.kind_stored (h.regular.kind_group hq) hs)

theorem shrunk_pos (h : Deleting d d₁ d₂ e t g first last cells copy) {r : Nat} {c : NodeId}
    (hs : Stored (d.rowsOf g) r c) : 1 ≤ d.shrunk first last r c := by
  have := h.regular.wf.height_pos h.kind_group hs
  unfold shrunk
  split_ifs <;> omega

/-- The row behind the deleted ones is all that the second step touches. -/
theorem frame₂ (h : Deleting d d₁ d₂ e t g first last cells copy) :
    Frame (fun x => (d.children g)[last + 1]? = some x) (fun _ => False) d₁ d₂ := by
  rcases h.recreate with ⟨next, hnext, hrec⟩ | ⟨-, rfl⟩
  · exact hrec.frame.mono (fun x _ hx => hx ▸ hnext) (fun _ _ => id)
      (h.shrink.same.wellFormed h.regular.wf)
  · exact .refl _

theorem size_le (h : Deleting d d₁ d₂ e t g first last cells copy) : d.size ≤ d₂.size :=
  h.shrink.same.size ▸ h.frame₂.size

theorem cell?_eq (h : Deleting d d₁ d₂ e t g first last cells copy) {x : NodeId}
    (hx : x < d.size) : e.cell? x = d₁.cell? x :=
  (h.detached.cell x (hx.trans_le h.size_le) id).trans
    (h.frame₂.cell x (h.shrink.same.size.symm ▸ hx) id)

theorem kind_eq (h : Deleting d d₁ d₂ e t g first last cells copy) {x : NodeId}
    (hx : x < d.size) : e.kind? x = d.kind? x := by
  rw [h.detached.kind x (hx.trans_le h.size_le), h.frame₂.kind x (h.shrink.same.size.symm ▸ hx),
    h.shrink.same.kind]

theorem children_eq (h : Deleting d d₁ d₂ e t g first last cells copy) {x : NodeId}
    (hx : x < d.size) (hg : x ≠ g) (hnext : (d.children g)[last + 1]? ≠ some x) :
    e.children x = d.children x := by
  rw [h.detached.children x (hx.trans_le h.size_le) hg,
    h.frame₂.children x (h.shrink.same.size.symm ▸ hx) hnext, h.shrink.same.children]

theorem not_next_of_kind (h : Deleting d d₁ d₂ e t g first last cells copy) {x : NodeId} {k : Kind}
    (hx : d.kind? x = some k) (hk : k ≠ .row) : (d.children g)[last + 1]? ≠ some x := fun e => by
  rw [h.regular.wf.kind_row h.kind_group (List.mem_of_getElem? e)] at hx
  exact hk (Option.some.inj hx).symm

theorem children_table (h : Deleting d d₁ d₂ e t g first last cells copy) :
    e.children t = d.children t := by
  refine h.children_eq (lt_size_of_kind? h.regular.kind) ?_
    (h.not_next_of_kind h.regular.kind (by decide))
  rintro rfl
  have := h.regular.kind
  rw [h.kind_group] at this
  cases this

theorem row_ne (h : Deleting d d₁ d₂ e t g first last cells copy) {q row : NodeId}
    (hq : q ∈ d.children t) (hr : row ∈ d.children q) : row ≠ g := by
  rintro rfl
  have := h.regular.wf.kind_row (h.regular.kind_group hq) hr
  rw [h.kind_group] at this
  cases this

/-- The other groups are what they were. -/
theorem rowsOf_eq (h : Deleting d d₁ d₂ e t g first last cells copy) {q : NodeId}
    (hq : q ∈ d.children t) (hne : q ≠ g) : e.rowsOf q = d.rowsOf q := by
  have wf := h.regular.wf
  rw [rowsOf, rowsOf, h.children_eq (wf.lt_size_child hq) hne
    (h.not_next_of_kind (h.regular.kind_group hq) (by decide))]
  refine List.map_congr_left fun row hr => ?_
  refine h.children_eq (wf.lt_size_child hr) (h.row_ne hq hr) fun hnext => ?_
  exact hne (wf.parent_unique hr (List.mem_of_getElem? hnext))

/-- The cells of the row behind the deleted ones. -/
theorem mem_next (h : Deleting d d₁ d₂ e t g first last cells copy) {next x : NodeId}
    (hnext : (d.children g)[last + 1]? = some next) :
    x ∈ e.children next ↔ x ∈ d.children next ∨ ∃ c ∈ cells, x = copy c := by
  rcases h.recreate with ⟨next', hnext', hrec⟩ | ⟨hlen, -⟩
  · obtain rfl : next = next' := Option.some.inj (hnext.symm.trans hnext')
    have hmem := List.mem_of_getElem? hnext
    have hlt := (h.regular.wf.lt_size_child hmem).trans_le h.size_le
    rw [h.detached.children next hlt (h.row_ne h.group hmem), hrec.mem_iff, h.shrink.same.children]
  · have := (List.getElem?_eq_some_iff.1 hnext).1
    omega

/-- Recreated cells are what they were, less the rows that are gone. -/
theorem cell?_copy (h : Deleting d d₁ d₂ e t g first last cells copy) {c : NodeId} {r : Nat}
    (hs : Stored (d.rowsOf g) r c) (hc : c ∈ cells) : d.size ≤ copy c ∧ e.Blank (copy c) ∧
      e.cell? (copy c) = (d.cell? c).map fun props =>
        { props with rowSpan := r + d.shape.height c - 1 - last } := by
  rcases h.recreate with ⟨next, hnext, hrec⟩ | ⟨hlen, -⟩
  · have hk : d₂.kind? next = some .row := by
      have hmem := List.mem_of_getElem? hnext
      rw [hrec.frame.kind next (h.shrink.same.size.symm ▸ h.regular.wf.lt_size_child hmem),
        h.shrink.same.kind, h.regular.wf.kind_row h.kind_group hmem]
    have hgk : d₂.kind? g = some .rowGroup := by
      rw [hrec.frame.kind g (h.shrink.same.size.symm ▸ lt_size_of_kind? h.kind_group),
        h.shrink.same.kind, h.kind_group]
    have hcopy : copy c ∈ d₂.children next := hrec.mem_iff.2 (.inr ⟨c, hc, rfl⟩)
    refine ⟨h.shrink.same.size ▸ hrec.fresh c hc, (hrec.blank c hc).of_frame h.detached ?_ ?_, ?_⟩
    · intro eq
      have := hrec.wf.kind_cell hk hcopy
      rw [eq, hgk] at this
      cases this
    · intro b hb eq
      rw [eq, hgk] at hb
      cases hb
    · rw [h.detached.cell _ (hrec.wf.lt_size_child hcopy) id, hrec.cell c hc, h.shrink.inside hs,
        Option.map_map, bottomRow, h.regular.wf.topRow_eq h.kind_group hs]
      rfl
  · obtain ⟨r', hs', -, -, hlt⟩ := h.cells_iff.1 hc
    have := h.fits hs'
    rw [length_rowsOf] at this
    omega

theorem getElem?_children (h : Deleting d d₁ d₂ e t g first last cells copy) (i : Nat) :
    (e.children g)[i]? = if i < first then (d.children g)[i]?
      else (d.children g)[i + (last + 1 - first)]? := by
  obtain ⟨hle, hlt⟩ := h.range
  rw [length_rowsOf] at hlt
  rw [h.rows, List.getElem?_append, List.length_take, min_eq_left (by omega)]
  split_ifs with hi
  · rw [List.getElem?_take, if_pos hi]
  · rw [List.getElem?_drop, show last + 1 + (i - first) = i + (last + 1 - first) by omega]

theorem children_row (h : Deleting d d₁ d₂ e t g first last cells copy) {i : Nat} {row : NodeId}
    (hi : (d.children g)[i]? = some row) (hne : i ≠ last + 1) : e.children row = d.children row := by
  have hmem := List.mem_of_getElem? hi
  refine h.children_eq (h.regular.wf.lt_size_child hmem) (h.row_ne h.group hmem) fun hnext => ?_
  exact hne (h.regular.wf.index_unique hi hnext)

theorem stored_iff (h : Deleting d d₁ d₂ e t g first last cells copy) {i : Nat} {x : NodeId} :
    Stored (e.rowsOf g) i x ↔ i < first ∧ Stored (d.rowsOf g) i x ∨
      first ≤ i ∧ Stored (d.rowsOf g) (i + (last + 1 - first)) x ∨
      i = first ∧ ∃ r c, Stored (d.rowsOf g) r c ∧ first ≤ r ∧ r ≤ last ∧
        last + 1 < r + d.shape.height c ∧ x = copy c := by
  obtain ⟨hle, -⟩ := h.range
  have copies : (∃ r c, Stored (d.rowsOf g) r c ∧ first ≤ r ∧ r ≤ last ∧
      last + 1 < r + d.shape.height c ∧ x = copy c) ↔ ∃ c ∈ cells, x = copy c := by
    constructor
    · rintro ⟨r, c, hs, h₁, h₂, h₃, rfl⟩
      exact ⟨c, h.cells_iff.2 ⟨r, hs, h₁, h₂, h₃⟩, rfl⟩
    · rintro ⟨c, hc, rfl⟩
      obtain ⟨r, hs, h₁, h₂, h₃⟩ := h.cells_iff.1 hc
      exact ⟨r, c, hs, h₁, h₂, h₃, rfl⟩
  rw [copies]
  simp only [stored_rowsOf, h.getElem?_children]
  split_ifs with hi
  · constructor
    · rintro ⟨row, hr, hx⟩
      rw [h.children_row hr (by omega)] at hx
      exact .inl ⟨hi, row, hr, hx⟩
    · rintro (⟨-, row, hr, hx⟩ | ⟨hge, -⟩ | ⟨rfl, -⟩)
      · exact ⟨row, hr, (h.children_row hr (by omega)).symm ▸ hx⟩
      · omega
      · omega
  · by_cases hfirst : i = first
    · subst hfirst
      rw [show i + (last + 1 - i) = last + 1 by omega]
      constructor
      · rintro ⟨row, hr, hx⟩
        rcases (h.mem_next hr).1 hx with hx | hx
        · exact .inr (.inl ⟨le_rfl, row, hr, hx⟩)
        · exact .inr (.inr ⟨rfl, hx⟩)
      · rintro (⟨hlt, -⟩ | ⟨-, row, hr, hx⟩ | ⟨-, c, hc, rfl⟩)
        · omega
        · exact ⟨row, hr, (h.mem_next hr).2 (.inl hx)⟩
        · obtain ⟨r, hs, -, -, hlt⟩ := h.cells_iff.1 hc
          have hfit := h.fits hs
          rw [length_rowsOf] at hfit
          have hr := List.getElem?_eq_getElem (show last + 1 < (d.children g).length by omega)
          exact ⟨_, hr, (h.mem_next hr).2 (.inr ⟨c, hc, rfl⟩)⟩
    · constructor
      · rintro ⟨row, hr, hx⟩
        rw [h.children_row hr (by omega)] at hx
        exact .inr (.inl ⟨by omega, row, hr, hx⟩)
      · rintro (⟨hlt, -⟩ | ⟨-, row, hr, hx⟩ | ⟨rfl, -⟩)
        · omega
        · exact ⟨row, hr, (h.children_row hr (by omega)).symm ▸ hx⟩
        · omega

theorem shape_old (h : Deleting d d₁ d₂ e t g first last cells copy) {r : Nat} {c : NodeId}
    (hs : Stored (d.rowsOf g) r c) :
    (e.shape.start c = d.shape.start c ∧ e.shape.width c = d.shape.width c) ∧
      e.shape.height c = d.shrunk first last r c := by
  obtain ⟨⟨h₁, h₂⟩, h₃⟩ := shape_of_cell? (h.cell?_eq (h.lt_size_of_stored h.group hs))
  obtain ⟨s₁, s₂, s₃⟩ := h.shrink.shape_inside h.regular.wf h.kind_group hs
  exact ⟨⟨h₁.trans s₁, h₂.trans s₂⟩, h₃.trans (s₃.trans (max_eq_left (h.shrunk_pos hs)))⟩

theorem ordered (h : Deleting d d₁ d₂ e t g first last cells copy) :
    ∀ row ∈ e.rowsOf g, row.Pairwise e.LeftOf := by
  intro cs hcs
  obtain ⟨row, hrow, rfl⟩ := List.mem_map.1 hcs
  obtain ⟨k, hk⟩ := List.getElem?_of_mem hrow
  have hmem : row ∈ d.children g := by
    rw [h.getElem?_children] at hk
    split_ifs at hk <;> exact List.mem_of_getElem? hk
  obtain ⟨i, hi⟩ := List.getElem?_of_mem hmem
  by_cases hnext : i = last + 1
  · subst hnext
    rcases h.recreate with ⟨next, hnext, hrec⟩ | ⟨hlen, -⟩
    · obtain rfl : row = next := Option.some.inj (hi.symm.trans hnext)
      have hlt := (h.regular.wf.lt_size_child hmem).trans_le h.size_le
      rw [h.detached.children row hlt (h.row_ne h.group hmem)]
      refine hrec.ordered.imp_of_mem fun {x y} hx hy hxy => ?_
      obtain ⟨hx', -⟩ := shape_of_cell? (h.detached.cell x (hrec.wf.lt_size_child hx) id)
      obtain ⟨hy', -⟩ := shape_of_cell? (h.detached.cell y (hrec.wf.lt_size_child hy) id)
      unfold LeftOf at hxy ⊢
      rwa [hx'.1, hx'.2, hy'.1]
    · have := (List.getElem?_eq_some_iff.1 hi).1
      omega
  · rw [h.children_row hi hnext]
    have old := (h.regular.tiled g h.group).ordered _ (List.mem_map_of_mem hmem)
    refine old.imp_of_mem fun {x y} hx hy hxy => ?_
    obtain ⟨hx', -⟩ := h.shape_old (stored_rowsOf.2 ⟨row, hi, hx⟩)
    obtain ⟨hy', -⟩ := h.shape_old (stored_rowsOf.2 ⟨row, hi, hy⟩)
    unfold LeftOf
    rwa [hx'.1, hx'.2, hy'.1]

theorem rowDeletion (h : Deleting d d₁ d₂ e t g first last cells copy) :
    Tiling.RowDeletion d.shape e.shape first last copy (d.rowsOf g) (e.rowsOf g) where
  nodup := h.wf.nodup_rowsOf g
  range := h.range
  length := by
    obtain ⟨hle, hlt⟩ := h.range
    rw [length_rowsOf] at hlt
    rw [length_rowsOf, length_rowsOf, h.rows, List.length_append, List.length_take,
      List.length_drop]
    omega
  stored_iff := h.stored_iff
  ordered := h.ordered
  kept hs _ := (h.shape_old hs).1
  above {r c} hs hr := by
    rw [(h.shape_old hs).2, shrunk]
    simp only [hr, true_and]
  below {r c} hs hr := by
    have := h.range
    rw [(h.shape_old hs).2, shrunk, if_neg (by omega)]
  new {r c} hs h₁ h₂ h₃ := by
    obtain ⟨props, hp⟩ := exists_cell? (h.regular.wf.kind_stored h.kind_group hs)
    have hcopy := (h.cell?_copy hs (h.cells_iff.2 ⟨r, hs, h₁, h₂, h₃⟩)).2.2
    rw [hp, Option.map_some] at hcopy
    obtain ⟨hstart, hwidth⟩ := shape_congr hp hcopy rfl rfl
    refine ⟨hstart, hwidth, ?_⟩
    simp only [shape, extent_eq hcopy, CellProps.extent, CellProps.height] at h₃ ⊢
    omega

/-- The cells of the table are old ones and those recreated. -/
theorem cell_origin (h : Deleting d d₁ d₂ e t g first last cells copy) {c : NodeId}
    (hc : c ∈ e.tableCells t) : c ∈ d.tableCells t ∨ ∃ r c', Stored (d.rowsOf g) r c' ∧
      (first ≤ r ∧ r ≤ last ∧ last + 1 < r + d.shape.height c') ∧ c = copy c' := by
  obtain ⟨q, hq, r, hs⟩ := mem_tableCells.1 hc
  rw [h.children_table] at hq
  by_cases hqg : q = g
  · subst hqg
    rcases h.stored_iff.1 hs with ⟨-, hs⟩ | ⟨-, hs⟩ | ⟨-, r', c', hs', h₁, h₂, h₃, rfl⟩
    · exact .inl (mem_tableCells.2 ⟨q, hq, _, hs⟩)
    · exact .inl (mem_tableCells.2 ⟨q, hq, _, hs⟩)
    · exact .inr ⟨r', c', hs', ⟨h₁, h₂, h₃⟩, rfl⟩
  · rw [h.rowsOf_eq hq hqg] at hs
    exact .inl (mem_tableCells.2 ⟨q, hq, r, hs⟩)

theorem tileable (h : Deleting d d₁ d₂ e t g first last cells copy) :
    e.Tileable t (d.columnCount t) e.shape.start := by
  have wf := h.regular.wf
  refine ⟨h.wf, (h.kind_eq (lt_size_of_kind? h.regular.kind)).trans h.regular.kind, fun q hq => ?_,
    fun c hc props hp => ?_⟩
  · rw [h.children_table] at hq
    by_cases hqg : q = g
    · subst hqg
      exact h.rowDeletion.tiling (h.regular.tiled q hq)
    · rw [h.rowsOf_eq hq hqg]
      have shape := fun {r c} (hs : Stored (d.rowsOf q) r c) =>
        shape_of_cell? (h.cell?_eq (h.lt_size_of_stored hq hs))
      have other := fun {r c} (hs : Stored (d.rowsOf q) r c) =>
        h.shrink.shape_outside (wf.not_stored_of_ne hqg hs)
      exact (h.regular.tiled q hq).congr (fun hs => (shape hs).1.1.trans (other hs).1)
        (fun hs => (shape hs).1.2.trans (other hs).2.1) fun hs => (shape hs).2.trans (other hs).2.2
  · rcases h.cell_origin hc with hold | ⟨r', c', hs', ⟨h₁, h₂, h₃⟩, rfl⟩
    · have hlt := lt_size_of_kind? (wf.kind_tableCells h.regular.kind hold)
      exact h.shrink.spans wf h.kind_group h.shrunk_pos (h.regular.spans c hold) props
        (h.cell?_eq hlt ▸ hp)
    · obtain ⟨p, hp'⟩ := exists_cell? (wf.kind_stored h.kind_group hs')
      rw [(h.cell?_copy hs' (h.cells_iff.2 ⟨r', hs', h₁, h₂, h₃⟩)).2.2, hp'] at hp
      cases hp
      exact ⟨(h.regular.spans c' (mem_tableCells.2 ⟨g, h.group, r', hs'⟩) p hp').1,
        show 1 ≤ r' + d.shape.height c' - 1 - last by omega⟩

/-- All cells carry their columns, those recreated included. -/
theorem poised (h : Deleting d d₁ d₂ e t g first last cells copy) :
    e.Poised t fun _ => False := by
  refine h.tileable.poised fun c hc => ?_
  rcases h.cell_origin hc with hold | ⟨r', c', hs', ⟨h₁, h₂, h₃⟩, rfl⟩
  · have hlt := lt_size_of_kind? (h.regular.wf.kind_tableCells h.regular.kind hold)
    rw [columnIndex?, h.cell?_eq hlt, ← columnIndex?, h.shrink.columnIndex?_eq]
    exact h.regular.placed hold
  · have placed := h.regular.placed (mem_tableCells.2 ⟨g, h.group, r', hs'⟩)
    rw [columnIndex?, (h.cell?_copy hs' (h.cells_iff.2 ⟨r', hs', h₁, h₂, h₃⟩)).2.2]
    rw [columnIndex?] at placed
    cases hp : d.cell? c' with
    | none => simp [hp] at placed
    | some p => simpa [hp] using placed

/-- Only the group and the row behind the deleted ones get other children. -/
theorem frame (h : Deleting d d₁ d₂ e t g first last cells copy) :
    Frame (fun x => x = g ∨ (d.children g)[last + 1]? = some x) (fun _ => True) d e := by
  have wf₁ := h.shrink.same.wellFormed h.regular.wf
  have wf₂ : d₂.WellFormed := by
    rcases h.recreate with ⟨next, -, hrec⟩ | ⟨-, rfl⟩
    · exact hrec.wf
    · exact wf₁
  have step₁ : Frame (fun x => x = g ∨ (d.children g)[last + 1]? = some x) (fun _ => True) d d₁ :=
    h.shrink.same.frame (by simp) (by simp)
  exact (step₁.trans (h.frame₂.mono (fun _ _ => .inr) (fun _ _ => False.elim) wf₁)).trans
    (h.detached.mono (fun _ _ => .inl) (fun _ _ => False.elim) wf₂)

/-- The cells outside the deleted rows stay in their order, among blank ones. -/
theorem inherits (h : Deleting d d₁ d₂ e t g first last cells copy) :
    Inherits (fun c => !d.inRows g first last c) d e t := by
  have wf := h.regular.wf
  have size := h.shrink.same.size
  obtain ⟨hle, hlt⟩ := h.range
  rw [length_rowsOf] at hlt
  have old : ∀ q ∈ d.children t, ∀ c ∈ (d.rowsOf q).flatten, c < d.size := fun q hq c hc => by
    obtain ⟨r, hs⟩ := exists_stored hc
    exact h.lt_size_of_stored hq hs
  have row : ∀ {i : Nat} {r}, (d.children g)[i]? = some r →
      (e.children r).filter (· < d.size) = d.children r := by
    intro i r hi
    have hmem := List.mem_of_getElem? hi
    by_cases hnext : i = last + 1
    · subst hnext
      rcases h.recreate with ⟨next, hnext, hrec⟩ | ⟨hlen, -⟩
      · obtain rfl : r = next := Option.some.inj (hi.symm.trans hnext)
        rw [h.detached.children r ((wf.lt_size_child hmem).trans_le h.size_le)
          (h.row_ne h.group hmem), ← size, hrec.old, h.shrink.same.children]
      · have := (List.getElem?_eq_some_iff.1 hi).1
        omega
    · rw [h.children_row hi hnext]
      exact List.filter_eq_self.2 fun c hc => by simpa using wf.lt_size_child hc
  refine .of_frame h.frame wf h.regular.kind (fun x hx => ?_) ?_ fun c hc hge => ?_
  · rcases hx with rfl | hx
    · exact .inr (.inl h.kind_group)
    · exact .inr (.inr (wf.kind_row h.kind_group (List.mem_of_getElem? hx)))
  · rw [tableCells_eq_flatMap, tableCells_eq_flatMap, h.children_table, List.filter_flatMap,
      List.filter_flatMap]
    refine List.flatMap_congr fun q hq => ?_
    by_cases hqg : q = g
    · subst hqg
      have rows : (e.rowsOf q).flatten.filter (· < d.size) =
          ((d.children q).take first ++ (d.children q).drop (last + 1)).flatMap d.children := by
        rw [flatten_rowsOf, h.rows, List.filter_flatMap]
        refine List.flatMap_congr fun r hr => ?_
        have hmem : r ∈ d.children q := (List.mem_append.1 hr).elim List.mem_of_mem_take
          List.mem_of_mem_drop
        obtain ⟨i, hi⟩ := List.getElem?_of_mem hmem
        exact row hi
      rw [rows, flatten_rowsOf, wf.filter_not_inRows q hle]
    · rw [h.rowsOf_eq hq hqg, List.filter_eq_self.2 fun c hc => by simpa using old q hq c hc,
        List.filter_eq_self.2 fun c hc => ?_]
      obtain ⟨r, hs⟩ := exists_stored hc
      simp only [Bool.not_eq_true', ← Bool.not_eq_true, inRows_iff, not_exists, not_and]
      exact fun i _ _ => wf.not_stored_of_ne hqg hs i
  · obtain ⟨q, hq, r, hs⟩ := mem_tableCells.1 hc
    rw [h.children_table] at hq
    by_cases hqg : q = g
    · subst hqg
      rcases h.stored_iff.1 hs with ⟨-, hs⟩ | ⟨-, hs⟩ | ⟨-, r', c', hs', h₁, h₂, h₃, rfl⟩
      · exact absurd (h.lt_size_of_stored hq hs) (Nat.not_lt.2 hge)
      · exact absurd (h.lt_size_of_stored hq hs) (Nat.not_lt.2 hge)
      · exact (h.cell?_copy hs' (h.cells_iff.2 ⟨r', hs', h₁, h₂, h₃⟩)).2.1
    · rw [h.rowsOf_eq hq hqg] at hs
      exact absurd (h.lt_size_of_stored hq hs) (Nat.not_lt.2 hge)

/-- The row spans may have been cut before. -/
theorem inherits_of_clamped {d₀ : Document L} (h : Deleting d d₁ d₂ e t g first last cells copy)
    (reg : d₀.Regular t) (clamp : Clamped d₀ d g) :
    Inherits (fun c => !d₀.inRows g first last c) d₀ e t := by
  have inRows : ∀ c, d₀.inRows g first last c = d.inRows g first last c := fun c => by
    simp only [Document.inRows, clamp.same.children]
  have inherits := (Inherits.of_sameTree reg.wf reg.kind clamp.same).trans h.inherits h.regular.wf
    h.regular.kind
  simpa [inRows] using inherits

end Deleting

/-! ## The steps -/

/-- With row spans cut to the group, the interval of a cell is what it carries. -/
theorem WellFormed.rowIntervals_eq (wf : d.WellFormed) (hg : d.kind? g = some .rowGroup)
    (fits : ∀ {r c}, Stored (d.rowsOf g) r c → r + d.shape.height c ≤ (d.rowsOf g).length)
    (m : Nat) : d.rowIntervals ((d.children g).take m) =
      (((d.children g).take m).flatMap d.children).map fun c =>
        (c, d.topRow c, d.bottomRow c) := by
  have rows : (d.children g).take m = ((d.children g).take m).zipIdx.map Prod.fst :=
    (List.zipIdx_map_fst 0 _).symm
  rw [rowIntervals, List.map_flatMap]
  conv_rhs => rw [rows, List.flatMap_map]
  refine List.flatMap_congr fun ⟨row, r⟩ hp => ?_
  have hr : (d.children g)[r]? = some row := by
    have := List.mem_zipIdx_iff_getElem?.1 hp
    rw [List.getElem?_take] at this
    split_ifs at this
    exact this
  refine List.map_congr_left fun c hc => ?_
  have hs := stored_rowsOf.2 ⟨row, hr, hc⟩
  have hfit := fits hs
  have hpos := wf.height_pos hg hs
  rw [length_rowsOf] at hfit
  rw [bottomRow, wf.topRow_eq hg hs, wf.effectiveRowSpan_eq hg hs, min_eq_left (by omega),
    max_eq_left hpos]

/-- The cells stored above some row of a group. -/
theorem mem_takeRows {m : Nat} {c : NodeId} :
    c ∈ ((d.children g).take m).flatMap d.children ↔ ∃ r < m, Stored (d.rowsOf g) r c := by
  simp only [List.mem_flatMap, stored_rowsOf]
  constructor
  · rintro ⟨row, hrow, hc⟩
    obtain ⟨i, hi⟩ := List.getElem?_of_mem hrow
    rw [List.getElem?_take] at hi
    split_ifs at hi with hlt
    exact ⟨i, hlt, row, hi, hc⟩
  · rintro ⟨r, hr, row, hi, hc⟩
    exact ⟨row, List.mem_of_getElem? (i := r) (by rw [List.getElem?_take, if_pos hr, hi]), hc⟩

/-- A table stands in a cell or in a container. -/
theorem WellFormed.kind_parent_table (wf : d.WellFormed) (ht : d.kind? t = some .table) {p : NodeId}
    (hp : d.parent? t = some p) : d.kind? p = some .cell ∨ d.kind? p = some .other := by
  obtain ⟨kp, kc, hk, hk', ha⟩ := wf.accepts hp
  rw [ht] at hk'
  cases hk'
  cases kp <;> first | exact .inl hk | exact .inr hk | cases ha

/-- The cells of a table stay if only children of cells and containers change. -/
theorem Frame.tableCells {C P : NodeId → Prop} (frame : Frame C P d d') (wf : d.WellFormed)
    (kind : d.kind? t = some .table)
    (outer : ∀ x, C x → d.kind? x = some .cell ∨ d.kind? x = some .other) :
    d'.children t = d.children t ∧ (∀ g ∈ d.children t, d'.rowsOf g = d.rowsOf g) ∧
      d'.tableRows t = d.tableRows t ∧ d'.tableCells t = d.tableCells t := by
  have inner : ∀ {x k}, d.kind? x = some k → k ≠ .cell → k ≠ .other →
      d'.children x = d.children x := fun {x k} hx h₁ h₂ => by
    refine frame.children x (lt_size_of_kind? hx) fun hC => ?_
    rcases outer x hC with h | h <;> rw [h] at hx <;> cases hx
    · exact h₁ rfl
    · exact h₂ rfl
  have ht := inner kind (by decide) (by decide)
  have hg : ∀ g ∈ d.children t, d'.children g = d.children g := fun g hg =>
    inner (wf.kind_group kind hg) (by decide) (by decide)
  have hrows : ∀ g ∈ d.children t, d'.rowsOf g = d.rowsOf g := fun g hgt => by
    rw [rowsOf, rowsOf, hg g hgt]
    exact List.map_congr_left fun r hr =>
      inner (wf.kind_row (wf.kind_group kind hgt) hr) (by decide) (by decide)
  refine ⟨ht, hrows, ?_, ?_⟩
  · rw [Document.tableRows, Document.tableRows, ht]
    exact List.flatMap_congr hg
  · rw [tableCells_eq_flatMap, tableCells_eq_flatMap, ht]
    exact List.flatMap_congr fun g hg => by rw [hrows g hg]

/-- A change above the table leaves it regular. -/
theorem Regular.of_frame {C P : NodeId → Prop} (reg : d.Regular t) (rows : d.tableRows t ≠ [])
    (frame : Frame C P d d') (wf' : d'.WellFormed)
    (outer : ∀ x, C x → d.kind? x = some .cell ∨ d.kind? x = some .other)
    (props : ∀ x, ¬ P x) : d'.Regular t := by
  obtain ⟨ht, hrows, htable, hcells⟩ := frame.tableCells reg.wf reg.kind outer
  have cell : ∀ {c}, c ∈ d.tableCells t → d'.cell? c = d.cell? c := fun hc =>
    frame.cell _ (lt_size_of_kind? (reg.wf.kind_tableCells reg.kind hc)) (props _)
  have count : d'.columnCount t = d.columnCount t := by
    rw [columnCount, columnCount, frame.table t (lt_size_of_kind? reg.kind) (props t)]
  refine Tileable.regular ⟨wf', (frame.kind t (lt_size_of_kind? reg.kind)).trans reg.kind,
    fun g hg => ?_, fun c hc p hp => ?_⟩ (fun c hc => ?_) (htable ▸ rows)
  · rw [ht] at hg
    have shape := fun {r c} (hs : Stored (d.rowsOf g) r c) =>
      shape_of_cell? (cell (mem_tableCells.2 ⟨g, hg, r, hs⟩))
    rw [hrows g hg, count]
    exact (reg.tiled g hg).congr (fun hs => (shape hs).1.1) (fun hs => (shape hs).1.2)
      fun hs => (shape hs).2
  · rw [hcells] at hc
    exact reg.spans c hc p (cell hc ▸ hp)
  · rw [hcells] at hc
    rw [columnIndex?, cell hc]
    exact reg.placed hc

end Document

namespace Action

open Document

variable {L : Type} {d e : Document L} {t g next : NodeId}

/-- A copy goes between the cells of smaller and those of other columns. -/
theorem ensures_recreateIn (wf : d.WellFormed) (hnext : d.kind? next = some .row) {c : NodeId}
    {props : CellProps L} (hc : d.cell? c = some props) (height : Nat) :
    Ensures (recreateIn next c height) d fun _ d' => ∃ f l u, d.children next = l ++ u ∧
      (∀ x ∈ l, missingFirstLE props.columnIndex (d.columnIndex? x) = false) ∧
      (∀ y, u.head? = some y → missingFirstLE props.columnIndex (d.columnIndex? y) = true) ∧
      d'.children next = l ++ f :: u ∧
      CellInserted d d' next l.length f { props with rowSpan := height } := by
  simp only [recreateIn, ensures_bind, ensures_requireCell hc]
  refine (ensures_copyCell wf hc).mono fun f d₁ ⟨_, new⟩ => ?_
  rw [ensures_updateCell (kind?_of_cell? new.cell)]
  have new := new.modifyCell
    ({ · with rowSpan := height, columnIndex := props.columnIndex })
  generalize d₁.modifyCell f
    ({ · with rowSpan := height, columnIndex := props.columnIndex }) = d₂ at new ⊢
  have hrow := lt_size_of_kind? hnext
  have same : d₂.children next = d.children next := new.frame.children next hrow id
  have column : ∀ x ∈ d.children next, d₂.columnIndex? x = d.columnIndex? x := fun x hx => by
    rw [columnIndex?, columnIndex?, new.frame.cell x (wf.lt_size_child hx) id]
  simp only [ensures_get, ensures_insertChild (new.attachable wf hnext), same]
  set p := fun x => !missingFirstLE props.columnIndex (d₂.columnIndex? x) with hp
  have ins := new.attach wf hnext ((d.children next).takeWhile p).length
  have split : d.children next = (d.children next).takeWhile p ++ (d.children next).dropWhile p :=
    List.takeWhile_append_dropWhile.symm
  refine ⟨f, _, _, split, fun x hx => ?_, fun y hy => ?_, ?_, ins⟩
  · have := List.mem_takeWhile_imp hx
    rw [← column x ((List.takeWhile_sublist p).subset hx)]
    simpa [hp] using this
  · have hy' : y ∈ d.children next :=
      (List.dropWhile_sublist p).subset (List.mem_of_mem_head? hy)
    have := List.head?_dropWhile_not p (d.children next)
    rw [hy] at this
    rw [← column y hy']
    simpa [hp] using this
  · rw [ins.row, min_eq_left (List.takeWhile_sublist p).length_le]
    have key := insertIdx_length_append ((d.children next).takeWhile p)
      ((d.children next).dropWhile p) f
    rwa [List.takeWhile_append_dropWhile] at key

/-- The row stays in order if the cell recreated has no column in common with its cells. -/
theorem leftOf_of_inserted {f c : NodeId} {l u : List NodeId} {props : CellProps L} {i height : Nat}
    (wf : d.WellFormed) (ins : CellInserted d e next i f { props with rowSpan := height })
    (hc : d.cell? c = some props) (column : props.columnIndex.isSome)
    (split : d.children next = l ++ u) (row : e.children next = l ++ f :: u)
    (placed : ∀ x ∈ d.children next, (d.columnIndex? x).isSome)
    (left : ∀ x ∈ l, missingFirstLE props.columnIndex (d.columnIndex? x) = false)
    (right : ∀ y, u.head? = some y → missingFirstLE props.columnIndex (d.columnIndex? y) = true)
    (hnext : d.kind? next = some .row) (ordered : (d.children next).Pairwise d.LeftOf)
    (apart : ∀ x ∈ d.children next, d.Apart x c) : (e.children next).Pairwise e.LeftOf := by
  obtain ⟨j, hj⟩ := Option.isSome_iff_exists.1 column
  have start : d.shape.start c = j := start_eq (by simp [columnIndex?, hc, hj])
  obtain ⟨fstart, fwidth⟩ := shape_congr hc ins.cell rfl rfl
  have width : ∀ {x}, d.kind? x = some .cell → 0 < d.shape.width x := fun {x} hx => by
    obtain ⟨q, hq⟩ := exists_cell? hx
    simp only [shape, extent_eq hq, CellProps.extent, CellProps.width]
    omega
  have index : ∀ {x}, x ∈ d.children next → d.columnIndex? x = some (d.shape.start x) := by
    intro x hx
    obtain ⟨k, hk⟩ := Option.isSome_iff_exists.1 (placed x hx)
    rw [hk, start_eq hk]
  have same : ∀ {x}, x ∈ d.children next →
      e.shape.start x = d.shape.start x ∧ e.shape.width x = d.shape.width x := fun hx =>
    (shape_of_cell? (ins.frame.cell _ (wf.lt_size_child hx) id)).1
  have inl : ∀ {x}, x ∈ l → x ∈ d.children next := fun hx => by simp [split, hx]
  have inu : ∀ {x}, x ∈ u → x ∈ d.children next := fun hx => by simp [split, hx]
  have before : ∀ x ∈ l, e.LeftOf x f := fun x hx => by
    have hlt := left x hx
    rw [index (inl hx), hj, missingFirstLE, decide_eq_false_iff_not] at hlt
    have := (apart x (inl hx)).leftOf (width (kind?_of_cell? hc)) (by omega)
    unfold LeftOf at this ⊢
    rwa [(same (inl hx)).1, (same (inl hx)).2, fstart]
  -- behind the gap columns only grow, so the first cell there tells
  have behind : ∀ y ∈ u, j ≤ d.shape.start y := by
    rw [split] at ordered
    have ordered := (List.pairwise_append.1 ordered).2.1
    cases u with
    | nil => simp
    | cons z u =>
      have hz := right z rfl
      rw [index (inu (by simp)), hj, missingFirstLE, decide_eq_true_eq] at hz
      intro y hy
      rcases List.mem_cons.1 hy with rfl | hy
      · exact hz
      · have := (List.pairwise_cons.1 ordered).1 y hy
        unfold LeftOf at this
        omega
  have after : ∀ y ∈ u, e.LeftOf f y := fun y hy => by
    have := (apart y (inu hy)).symm.leftOf (width (wf.kind_cell hnext (inu hy)))
      (start ▸ behind y hy)
    unfold LeftOf at this ⊢
    rwa [(same (inu hy)).1, fstart, fwidth]
  have kept : (l ++ u).Pairwise e.LeftOf := by
    rw [split] at ordered
    refine ordered.imp_of_mem fun {x y} hx hy h => ?_
    unfold LeftOf at h ⊢
    rwa [(same (split ▸ hx)).1, (same (split ▸ hx)).2, (same (split ▸ hy)).1]
  rw [row]
  obtain ⟨hl, hu, hlu⟩ := List.pairwise_append.1 kept
  refine List.pairwise_append.2 ⟨hl, List.pairwise_cons.2 ⟨after, hu⟩, fun x hx y hy => ?_⟩
  rcases List.mem_cons.1 hy with rfl | hy
  · exact before x hx
  · exact hlu x hx y hy

/-- The loop that recreates cells. -/
theorem ensures_recreate {cells : List NodeId} {height : NodeId → Nat} (wf : d.WellFormed)
    (hnext : d.kind? next = some .row) (nodup : cells.Nodup)
    (kind : ∀ c ∈ cells, d.kind? c = some .cell)
    (placed : ∀ c, c ∈ cells ∨ c ∈ d.children next → (d.columnIndex? c).isSome)
    (ordered : (d.children next).Pairwise d.LeftOf)
    (apart : ∀ x ∈ d.children next, ∀ c ∈ cells, d.Apart x c)
    (disjoint : cells.Pairwise d.Apart) :
    Ensures (cells.forM fun c => recreateIn next c (height c)) d fun _ d' =>
      ∃ copy, Recreated d d' next cells height copy := by
  refine (Ensures.forM
    (I := fun rest e => ∃ done copy, cells = done ++ rest ∧ Recreated d e next done height copy ∧
      (∀ x ∈ e.children next, (e.columnIndex? x).isSome) ∧
      ∀ x ∈ e.children next, ∀ c ∈ rest, e.Apart x c)
    (fun c rest e ⟨done, copy, hcells, h, hplaced, hapart⟩ => ?_) cells d
    ⟨[], id, rfl, ⟨wf, .refl d, by simp, ?_, ordered, by simp, by simp, by simp⟩,
      fun x hx => placed x (.inr hx), apart⟩).mono ?_
  · have hc : c ∈ cells := by simp [hcells]
    obtain ⟨-, hrest, hdone⟩ := List.nodup_append.1 (hcells ▸ nodup)
    have hcd : c ∉ done := fun hcd => hdone c hcd c (by simp) rfl
    obtain ⟨props, hp⟩ := exists_cell? (kind c hc)
    have hlt : ∀ c ∈ cells, c < d.size := fun c hc => lt_size_of_kind? (kind c hc)
    have hpe : e.cell? c = some props := (h.frame.cell c (hlt c hc) id).trans hp
    have hnexte := (h.frame.kind next (lt_size_of_kind? hnext)).trans hnext
    have column : props.columnIndex.isSome := by
      simpa [columnIndex?, hp] using placed c (.inl hc)
    refine (ensures_recreateIn h.wf hnexte hpe (height c)).mono ?_
    rintro _ e' ⟨f, l, u, split, left, right, row, ins⟩
    have mem : ∀ {x}, x ∈ e'.children next ↔ x = f ∨ x ∈ e.children next := fun {x} => by
      rw [row, split]
      simp only [List.mem_append, List.mem_cons]
      tauto
    have kept : ∀ {x}, x ∈ e.children next → e'.cell? x = e.cell? x := fun hx =>
      ins.frame.cell _ (h.wf.lt_size_child hx) id
    have ordered' : (e'.children next).Pairwise e'.LeftOf :=
      leftOf_of_inserted h.wf ins hpe column split row hplaced left right hnexte h.ordered
        fun x hx => hapart x hx c (by simp)
    refine ⟨done ++ [c], Function.update copy c f, by simp [hcells],
      h.snoc hcd hp hnexte ins split row ordered', fun x hx => ?_, fun x hx b hb => ?_⟩
    · rcases mem.1 hx with rfl | hx
      · simpa [columnIndex?, ins.cell] using column
      · simpa [columnIndex?, kept hx] using hplaced x hx
    · have hbc : b ∈ cells := by simp [hcells, hb]
      have same : e'.cell? b = e.cell? b :=
        ins.frame.cell b ((hlt b hbc).trans_le h.frame.size) id
      have same' : e.cell? b = d.cell? b := h.frame.cell b (hlt b hbc) id
      rcases mem.1 hx with rfl | hx
      · rw [hcells, List.pairwise_append] at disjoint
        have := (List.pairwise_cons.1 disjoint.2.1).1 b hb
        exact this.congr (shape_congr hp ins.cell rfl rfl) (shape_of_cell? (same.trans same')).1
      · exact (hapart x hx b (by simp [hb])).congr (shape_of_cell? (kept hx)).1
          (shape_of_cell? same).1
  · exact List.filter_eq_self.2 fun x hx => by simpa using wf.lt_size_child hx
  · rintro _ e ⟨done, copy, hcells, h, -⟩
    rw [List.append_nil] at hcells
    exact ⟨copy, hcells ▸ h⟩

/-- The first step: cells of rows up to `last` that reach into the deleted rows get shorter. -/
theorem shrinking (reg : d.Regular t) (hg : g ∈ d.children t) {first last : Nat}
    (hle : first ≤ last) :
    Respanned d (((((d.children g).take (last + 1)).flatMap d.children).filter fun c =>
        d.topRow c < first && first ≤ d.bottomRow c).foldl
      (fun e c => e.modifyCell c fun props =>
        { props with
          rowSpan := d.bottomRow c - d.topRow c + 1 - (min (d.bottomRow c) last - first + 1) }) d) g
      (d.shrunk first last) := by
  have hgk := reg.kind_group hg
  have nodup : (((d.children g).take (last + 1)).flatMap d.children).Nodup :=
    reg.wf.nodup_flatMap ((reg.wf.nodup g).sublist (List.take_sublist _ _))
  refine reg.respanned_foldl hg (nodup.filter _) (fun c hc => ?_) fun {r c props} hs hp => ?_
  · obtain ⟨r, -, hs⟩ := mem_takeRows.1 (List.mem_filter.1 hc).1
    exact ⟨r, hs⟩
  · have height := (reg.steady.shape_eq (mem_tableCells.2 ⟨g, hg, r, hs⟩) hp).2
    have hpos := reg.wf.height_pos hgk hs
    have mem : c ∈ ((d.children g).take (last + 1)).flatMap d.children ↔ r < last + 1 := by
      rw [mem_takeRows]
      constructor
      · rintro ⟨r', hr', hs'⟩
        rwa [hs.row_unique (reg.wf.nodup_rowsOf g) hs']
      · exact fun h => ⟨r, h, hs⟩
    simp only [List.mem_filter, mem, bottomRow, reg.wf.topRow_eq hgk hs, Bool.and_eq_true,
      decide_eq_true_eq, shrunk]
    by_cases hcross : r < first ∧ first < r + d.shape.height c
    · rw [if_pos (by omega), if_pos hcross,
        show r + d.shape.height c - 1 - r + 1 = d.shape.height c by omega]
    · rw [if_neg (by omega), if_neg hcross, height]

/-- The second step, on a document whose group has other row spans. -/
theorem ensures_recreateBelow {d₁ : Document L} {H : Nat → NodeId → Nat} (reg : d.Regular t)
    (hg : g ∈ d.children t) (shrink : Respanned d d₁ g H) {last : Nat} {next : NodeId}
    (hnext : (d.children g)[last + 1]? = some next) {cells : List NodeId} (nodup : cells.Nodup)
    (crossing : ∀ c ∈ cells, ∃ r, Stored (d.rowsOf g) r c ∧ r ≤ last ∧
      last + 1 < r + d.shape.height c) {height : NodeId → Nat} :
    Ensures (cells.forM fun c => recreateIn next c (height c)) d₁ fun _ d₂ =>
      ∃ copy, Recreated d₁ d₂ next cells height copy := by
  have hgk := reg.kind_group hg
  have hmem := List.mem_of_getElem? hnext
  have stored : ∀ {x}, x ∈ d.children next → Stored (d.rowsOf g) (last + 1) x := fun hx =>
    stored_rowsOf.2 ⟨next, hnext, hx⟩
  -- both kinds of cells occupy the row, so no two of them share a column
  have reaches : ∀ {x}, x ∈ cells ∨ x ∈ d.children next →
      d.shape.Reaches (d.rowsOf g) (last + 1) x := by
    rintro x (hx | hx)
    · obtain ⟨r, hs, hle, hlt⟩ := crossing x hx
      exact ⟨r, hs, by omega, hlt⟩
    · exact ⟨last + 1, stored hx, le_rfl,
        Nat.lt_add_of_pos_right (reg.wf.height_pos hgk (stored hx))⟩
  have shape : ∀ {x}, x ∈ cells ∨ x ∈ d.children next →
      d₁.shape.start x = d.shape.start x ∧ d₁.shape.width x = d.shape.width x := fun hx => by
    obtain ⟨r, hs, -⟩ := reaches hx
    obtain ⟨h₁, h₂, -⟩ := shrink.shape_inside reg.wf hgk hs
    exact ⟨h₁, h₂⟩
  have apart : ∀ {x y}, x ∈ cells ∨ x ∈ d.children next → y ∈ cells ∨ y ∈ d.children next → x ≠ y →
      d₁.Apart x y := fun {x y} hx hy hne => by
    have hlt := lt_length_rowsOf hnext
    have : d.Apart x y := fun j hxj hyj =>
      hne ((reg.tiled g hg).disjoint hlt (reaches hx) hxj (reaches hy) hyj)
    exact this.congr (shape hx) (shape hy)
  refine ensures_recreate (shrink.same.wellFormed reg.wf) ?_ nodup (fun c hc => ?_) (fun c hc => ?_)
    ?_ (fun x hx c hc => ?_) ?_
  · rw [shrink.same.kind, reg.wf.kind_row hgk hmem]
  · obtain ⟨r, hs, -⟩ := crossing c hc
    rw [shrink.same.kind, reg.wf.kind_stored hgk hs]
  · rw [shrink.same.children] at hc
    obtain ⟨r, hs, -⟩ := reaches hc
    obtain ⟨props, hp⟩ := exists_cell? (reg.wf.kind_stored hgk hs)
    have := reg.placed (mem_tableCells.2 ⟨g, hg, r, hs⟩)
    simpa [columnIndex?, shrink.inside hs, hp] using this
  · rw [shrink.same.children]
    refine ((reg.tiled g hg).ordered _ (List.mem_map_of_mem hmem)).imp_of_mem
      fun {x y} hx hy hxy => ?_
    unfold LeftOf
    rwa [(shape (.inr hx)).1, (shape (.inr hx)).2, (shape (.inr hy)).1]
  · rw [shrink.same.children] at hx
    refine apart (.inr hx) (.inl hc) ?_
    rintro rfl
    obtain ⟨r, hs, hle, -⟩ := crossing x hc
    have := hs.row_unique (reg.wf.nodup_rowsOf g) (stored hx)
    omega
  · exact nodup.imp_of_mem fun hx hy hne => apart (.inl hx) (.inl hy) hne

/-- A table has rows if one of its row groups has. -/
theorem tableRows_ne_nil_of_lt {i : Nat} (hg : g ∈ d.children t) (hi : i < (d.children g).length) :
    d.tableRows t ≠ [] :=
  List.ne_nil_of_mem (List.mem_flatMap.2 ⟨g, hg, List.getElem_mem hi⟩)

/-- Detaching the table itself. -/
theorem regular_detach (reg : d.Regular t) (rows : d.tableRows t ≠ []) :
    (d.detach t).Regular t :=
  reg.of_frame rows (Frame.of_detach (P := fun _ => False) reg.wf fun _ => id) (reg.wf.detach t)
    (fun _ hp => reg.wf.kind_parent_table reg.kind hp) fun _ => id

variable [Length L]

/-- Deleting a whole row group of several. -/
theorem ensures_deleteGroup (reg : d.Regular t) (hg : g ∈ d.children t) {last : Nat}
    (hlast : last + 1 = (d.children g).length) :
    Ensures (do Action.detach g; settle t) d fun _ d' => ∃ e, e.Poised t (fun _ => False) ∧
      Inherits (fun c => !d.inRows g 0 last c) d e t ∧ d' = e.tidied t := by
  have wf := reg.wf
  have parent : ∀ p, d.parent? g = some p → p = t := fun p hp =>
    wf.parent_unique (wf.mem_children.2 hp) hg
  have frame : Frame (· = t) (fun _ => False) d (d.detach g) := Frame.of_detach wf parent
  have groups : (d.detach g).children t = (d.children t).filter (· != g) := wf.children_detach g t
  have inner : ∀ {x k}, d.kind? x = some k → k ≠ .table →
      (d.detach g).children x = d.children x := fun {x k} hx hne => by
    refine frame.children x (lt_size_of_kind? hx) ?_
    rintro rfl
    rw [reg.kind] at hx
    exact hne (Option.some.inj hx).symm
  have hrows : ∀ q ∈ d.children t, (d.detach g).rowsOf q = d.rowsOf q := fun q hq => by
    rw [rowsOf, rowsOf, inner (reg.kind_group hq) (by decide)]
    exact List.map_congr_left fun r hr => inner (wf.kind_row (reg.kind_group hq) hr) (by decide)
  have shape : (d.detach g).shape = d.shape := by simp [shape, extent, columnIndex?]
  have cells : (d.detach g).tableCells t =
      (d.tableCells t).filter fun c => !d.inRows g 0 last c := by
    rw [tableCells_eq_flatMap, tableCells_eq_flatMap, groups, List.filter_flatMap]
    have part : ∀ l : List NodeId, (∀ q ∈ l, q ∈ d.children t) →
        (l.filter (· != g)).flatMap (fun q => ((d.detach g).rowsOf q).flatten) =
          l.flatMap fun q => (d.rowsOf q).flatten.filter fun c => !d.inRows g 0 last c := by
      intro l hl
      induction l with
      | nil => rfl
      | cons q l ih =>
        have ih := ih fun x hx => hl x (by simp [hx])
        have hq := hl q (by simp)
        by_cases hqg : q = g
        · subst hqg
          rw [List.filter_cons_of_neg (by simp), ih, List.flatMap_cons, flatten_rowsOf,
            wf.filter_not_inRows q (Nat.zero_le _), hlast]
          simp
        · have all : (d.rowsOf q).flatten.filter (fun c => !d.inRows g 0 last c) =
              (d.rowsOf q).flatten := by
            refine List.filter_eq_self.2 fun c hc => ?_
            obtain ⟨r, hs⟩ := exists_stored hc
            simp only [Bool.not_eq_true', ← Bool.not_eq_true, inRows_iff, not_exists, not_and]
            exact fun i _ _ => wf.not_stored_of_ne hqg hs i
          rw [List.filter_cons_of_pos (by simpa using hqg), List.flatMap_cons, List.flatMap_cons, ih,
            all, hrows q hq]
    exact part _ fun _ => id
  have old : ∀ c ∈ (d.detach g).tableCells t, c ∈ d.tableCells t := fun c hc =>
    (List.mem_filter.1 (cells ▸ hc)).1
  have tile : (d.detach g).Tileable t (d.columnCount t) d.shape.start := by
    refine ⟨wf.detach g, by simpa using reg.kind, fun q hq => ?_, fun c hc => ?_⟩
    · have hq := (List.mem_filter.1 (groups ▸ hq)).1
      rw [hrows q hq, shape]
      exact reg.tiled q hq
    · simpa using reg.spans c (old c hc)
  have known : ∀ c ∈ (d.detach g).tableCells t, c < d.size := fun c hc =>
    lt_size_of_kind? (wf.kind_tableCells reg.kind (old c hc))
  have inherits : Inherits (fun c => !d.inRows g 0 last c) d (d.detach g) t := by
    refine .of_frame frame wf reg.kind (fun x hx => .inl (hx ▸ reg.kind)) ?_ fun c hc hge => ?_
    · rw [← cells, List.filter_eq_self]
      exact fun c hc => by simpa using known c hc
    · exact absurd (known c hc) (Nat.not_lt.2 hge)
  rw [ensures_bind, ensures_detach, ensures_settle_iff tile]
  refine ⟨_, ⟨_, _, tile, fun c hc => .inl ?_⟩, inherits, rfl⟩
  simpa [columnIndex?] using reg.columnIndex?_eq (old c hc)

/-- Deleting some of the rows of a group, step by step. -/
theorem ensures_deletePart_stages (reg : d.Regular t) (hg : g ∈ d.children t) {first last : Nat}
    (hrange : first ≤ last ∧ last < (d.children g).length) (rows : d.tableRows t ≠ []) :
    Ensures (do
      let _ ← place t
      modify (·.clampRowSpans g)
      let intervals := (← get).rowIntervals ((d.children g).take (last + 1))
      (intervals.filter fun (_, top, bottom) => top < first && first ≤ bottom).forM
        fun (cell, top, bottom) =>
          updateCell cell ({ · with rowSpan := bottom - top + 1 - (min bottom last - first + 1) })
      match (d.children g)[last + 1]? with
      | some next =>
        (intervals.filter fun (_, top, bottom) => first ≤ top && last < bottom).forM
          fun (cell, _, bottom) => recreateIn next cell (bottom - last)
      | none => pure ()
      (((d.children g).take (last + 1)).drop first).forM Action.detach
      settle t
      return true) d fun done d' => done = true ∧ ∃ d₁ d₂ d₃ e cells copy, Clamped d d₁ g ∧
        Deleting d₁ d₂ d₃ e t g first last cells copy ∧ d' = e.tidied t := by
  have hgk := reg.kind_group hg
  simp only [ensures_bind, ensures_place_steady reg.steady, ensures_modify, ensures_get]
  have clamp := reg.wf.clamped hgk
  have reg₁ := Clamped.regular clamp reg hg rows
  have fits := fun {r c} => Clamped.fits clamp reg.wf hgk (r := r) (c := c)
  rw [← clamp.same.children] at hg hrange
  rw [← clamp.same.children g]
  generalize d.clampRowSpans g = d₁ at *
  have hgk₁ := reg₁.kind_group hg
  have wf₁ := reg₁.wf
  simp only [wf₁.rowIntervals_eq hgk₁ fits, List.filter_map, forM_map, Function.comp_def]
  have nodup : (((d₁.children g).take (last + 1)).flatMap d₁.children).Nodup :=
    wf₁.nodup_flatMap ((wf₁.nodup g).sublist (List.take_sublist _ _))
  have kind : ∀ c ∈ ((d₁.children g).take (last + 1)).flatMap d₁.children,
      d₁.kind? c = some .cell := fun c hc => by
    obtain ⟨r, -, hs⟩ := mem_takeRows.1 hc
    exact wf₁.kind_stored hgk₁ hs
  rw [ensures_forM_updateCell fun c hc => kind c (List.mem_filter.1 hc).1]
  have shrink := shrinking reg₁ hg hrange.1
  generalize List.foldl _ d₁ (List.filter _ _) = d₂ at shrink ⊢
  have wf₂ := shrink.same.wellFormed wf₁
  set cells := (((d₁.children g).take (last + 1)).flatMap d₁.children).filter
    fun c => first ≤ d₁.topRow c && last < d₁.bottomRow c with hcells
  have cells_iff : ∀ {c}, c ∈ cells ↔ ∃ r, Stored (d₁.rowsOf g) r c ∧ first ≤ r ∧ r ≤ last ∧
      last + 1 < r + d₁.shape.height c := fun {c} => by
    rw [hcells, List.mem_filter, mem_takeRows, Bool.and_eq_true, decide_eq_true_eq,
      decide_eq_true_eq]
    constructor
    · rintro ⟨⟨r, hr, hs⟩, h₁, h₂⟩
      rw [bottomRow, wf₁.topRow_eq hgk₁ hs] at h₂
      exact ⟨r, hs, wf₁.topRow_eq hgk₁ hs ▸ h₁, by omega, by omega⟩
    · rintro ⟨r, hs, h₁, h₂, h₃⟩
      rw [bottomRow, wf₁.topRow_eq hgk₁ hs]
      exact ⟨⟨r, by omega, hs⟩, h₁, by omega⟩
  -- what is left to do once the cells are recreated
  have finish : ∀ d₃ copy, d₃.WellFormed → d₃.children g = d₁.children g →
      ((∃ next, (d₁.children g)[last + 1]? = some next ∧
        Recreated d₂ d₃ next cells (fun c => d₁.bottomRow c - last) copy) ∨
        (d₁.children g).length = last + 1 ∧ d₃ = d₂) →
      Ensures (do
        (((d₁.children g).take (last + 1)).drop first).forM Action.detach
        settle t
        return true) d₃ fun done d' => done = true ∧ ∃ d₁ d₂ d₃ e cells copy, Clamped d d₁ g ∧
          Deleting d₁ d₂ d₃ e t g first last cells copy ∧ d' = e.tidied t := by
    intro d₃ copy wf₃ hchildren recreate
    have hsub : (((d₁.children g).take (last + 1)).drop first).Sublist (d₁.children g) :=
      (List.drop_sublist _ _).trans (List.take_sublist _ _)
    refine ensures_bind.2 ((ensures_forM_detach wf₃ _).mono fun _ e detached => ?_)
    have frame : Frame (· = g) (fun _ => False) d₃ e := detached.frame wf₃ fun r hr p hp =>
      wf₃.parent_unique (wf₃.mem_children.2 hp) (hchildren ▸ hsub.subset hr)
    have deleting : Deleting d₁ d₂ d₃ e t g first last cells copy :=
      { regular := reg₁, group := hg, fits, shrink, cells_iff, recreate, wf := detached.wf,
        detached := frame, range := by rwa [length_rowsOf]
        rows := by
          rw [detached.children, hchildren, filter_not_mem_interval (wf₁.nodup g) hrange.1] }
    exact ensures_bind.2 ((ensures_settle_iff deleting.tileable).2 (ensures_pure.2 ⟨rfl, d₁, d₂, d₃, e,
      cells, copy, clamp, deleting, rfl⟩))
  cases hnext : (d₁.children g)[last + 1]? with
  | none =>
    have := List.getElem?_eq_none_iff.1 hnext
    exact finish d₂ id wf₂ (shrink.same.children g) (.inr ⟨by omega, rfl⟩)
  | some next =>
    refine ensures_bind.2 ((ensures_recreateBelow reg₁ hg shrink hnext (nodup.filter _)
      fun c hc => ?_).mono fun _ d₃ ⟨copy, hrec⟩ => ?_)
    · obtain ⟨r, hs, -, h₂, h₃⟩ := cells_iff.1 hc
      exact ⟨r, hs, h₂, h₃⟩
    · have hgn : g ≠ next := by
        rintro rfl
        have := wf₁.kind_row hgk₁ (List.mem_of_getElem? hnext)
        rw [hgk₁] at this
        cases this
      refine finish d₃ copy hrec.wf ?_ (.inl ⟨next, hnext, hrec⟩)
      rw [hrec.frame.children g (shrink.same.size.symm ▸ lt_size_of_kind? hgk₁) hgn,
        shrink.same.children]

/-- Deleting rows of a regular table detaches the table, if these were all of its rows and it has a
single row group, or ends with tidying a table that can be tiled. -/
theorem ensures_deleteRowInterval_tidied (reg : d.Regular t) (hg : g ∈ d.children t)
    (first last : Nat) :
    Ensures (deleteRowInterval g first last) d fun done d' =>
      if first ≤ last ∧ last < (d.children g).length then
        done = true ∧
          if d.children t = [g] ∧ first = 0 ∧ last + 1 = (d.children g).length then d' = d.detach t
          else ∃ e, e.Poised t (fun _ => False) ∧
            Inherits (fun c => !d.inRows g first last c) d e t ∧ d' = e.tidied t
      else done = false ∧ d' = d := by
  simp only [deleteRowInterval, ensures_bind, ensures_requireParent (reg.wf.tableOf?_eq reg.kind hg),
    ensures_get]
  split
  · next hout =>
    rw [ensures_pure, if_neg (by omega)]
    exact ⟨rfl, rfl⟩
  next hin =>
  have hrange : first ≤ last ∧ last < (d.children g).length := by omega
  simp only [if_pos hrange]
  split
  · next whole =>
    obtain ⟨rfl, hlast⟩ := whole
    rw [ensures_bind, ensures_get]
    by_cases single : (d.children t).length = 1
    · have only : d.children t = [g] := by
        obtain ⟨q, hq⟩ := List.length_eq_one_iff.1 single
        rw [hq, List.mem_singleton] at hg
        rw [hq, hg]
      rw [if_pos single, ensures_bind, ensures_detach, ensures_pure, if_pos ⟨only, rfl, hlast⟩]
      exact ⟨rfl, rfl⟩
    · have other : ¬ (d.children t = [g] ∧ 0 = 0 ∧ last + 1 = (d.children g).length) := fun h =>
        single (by rw [h.1]; rfl)
      rw [if_neg single]
      refine ensures_bind.2 ((ensures_bind.1 (ensures_deleteGroup reg hg hlast)).mono fun _ d₁ h =>
        ensures_bind.2 (h.mono fun _ d' h => ensures_pure.2 ⟨rfl, ?_⟩))
      rwa [if_neg other]
  · next part =>
    have other : ¬ (d.children t = [g] ∧ first = 0 ∧ last + 1 = (d.children g).length) := fun h =>
      part h.2
    simp only [if_neg other]
    refine (ensures_deletePart_stages reg hg hrange (tableRows_ne_nil_of_lt hg hrange.2)).mono ?_
    rintro done d' ⟨rfl, d₁, d₂, d₃, e, cells, copy, clamp, deleting, rfl⟩
    exact ⟨rfl, e, deleting.poised, deleting.inherits_of_clamped reg clamp, rfl⟩

/-- Deleting rows of a regular table leaves a regular table. A group that loses all its rows is
removed, and so is the table if this was its only one. -/
theorem ensures_deleteRowInterval (reg : d.Regular t) (hg : g ∈ d.children t) (first last : Nat) :
    Ensures (deleteRowInterval g first last) d fun done d' =>
      if first ≤ last ∧ last < (d.children g).length then
        done = true ∧ d'.Regular t ∧
          if d.children t = [g] ∧ first = 0 ∧ last + 1 = (d.children g).length then d' = d.detach t
          else Inherits (fun c => !d.inRows g first last c) d d' t
      else done = false ∧ d' = d := by
  refine (ensures_deleteRowInterval_tidied reg hg first last).mono fun done d' h => ?_
  split_ifs at h ⊢ with hrange hall
  · obtain ⟨done, rfl⟩ := h
    exact ⟨done, regular_detach reg (tableRows_ne_nil_of_lt hg hrange.2), rfl⟩
  · obtain ⟨done, e, poised, inherits, rfl⟩ := h
    exact ⟨done, poised.regular, inherits.trans_sameTree poised.same⟩
  · exact h

end Action

end RichTable
