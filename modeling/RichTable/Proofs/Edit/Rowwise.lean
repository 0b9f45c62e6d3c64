import Mathlib
import RichTable.Proofs.Grid.Settle

/-!
# Edits that go row by row

Inserting and deleting a column looks at one row after the other and changes no more than the cells of
that row. `ensures_forM_rows` is the rule for such loops: what one round makes of its row is what the
loop makes of it.
-/

namespace RichTable

theorem insertIdx_length_append {α : Type} (l u : List α) (x : α) :
    (l ++ u).insertIdx l.length x = l ++ x :: u := by
  induction l with
  | nil => rfl
  | cons y l ih => simpa using ih

namespace Document

variable {L : Type} {d d' e : Document L} {C P : NodeId → Prop}

/-- The cells of a row with their properties. -/
def rowView (d : Document L) (row : NodeId) : List (NodeId × Option (CellProps L)) :=
  (d.children row).map fun c => (c, d.cell? c)

theorem rowView_eq_map {row : NodeId} {l : List NodeId} {F : NodeId → Option (CellProps L)} :
    d.rowView row = l.map (fun x => (x, F x)) ↔
      d.children row = l ∧ ∀ x ∈ l, d.cell? x = F x := by
  constructor
  · intro h
    have e : d.children row = l := by
      have := congrArg (List.map Prod.fst) h
      simpa [rowView, Function.comp_def] using this
    rw [rowView, e, List.map_inj_left] at h
    exact ⟨e, fun x hx => (Prod.mk.inj (h x hx)).2⟩
  · rintro ⟨rfl, h⟩
    exact List.map_congr_left fun x hx => by rw [h x hx]

theorem rowView_congr {row : NodeId} (hr : d'.children row = d.children row)
    (hc : ∀ c ∈ d.children row, d'.cell? c = d.cell? c) : d'.rowView row = d.rowView row :=
  rowView_eq_map.2 ⟨hr, hc⟩

theorem children_of_rowView {row : NodeId} (h : d'.rowView row = d.rowView row) :
    d'.children row = d.children row :=
  (rowView_eq_map.1 h).1

theorem cell?_of_rowView {row c : NodeId} (h : d'.rowView row = d.rowView row)
    (hc : c ∈ d.children row) : d'.cell? c = d.cell? c :=
  (rowView_eq_map.1 h).2 c hc

theorem Blank.of_sameTree {c : NodeId} (h : d.Blank c) (same : SameTree d d') : d'.Blank c := by
  obtain ⟨b, hb, hk, hempty⟩ := h
  exact ⟨b, (same.children c).trans hb, (same.kind b).trans hk, (same.children b).trans hempty⟩

theorem Blank.of_frame {c : NodeId} (frame : Frame C P d d') (h : d.Blank c) (hc : ¬ C c)
    (block : ∀ b, d.kind? b = some .block → ¬ C b) : d'.Blank c := by
  obtain ⟨b, hb, hk, he⟩ := h
  have hlt := lt_size_of_kind? hk
  have hcs : c < d.size := by
    by_contra hge
    have := node?_eq_none.2 (Nat.le_of_not_lt hge)
    simp [children, this] at hb
  exact ⟨b, by rw [frame.children c hcs hc, hb], by rw [frame.kind b hlt, hk],
    by rw [frame.children b hlt (block b hk), he]⟩

/-- A row of `d'` has cells that it had in `d`, and new blank ones. -/
def RowFrom (d d' : Document L) (row : NodeId) : Prop :=
  ∀ c ∈ d'.children row, c ∈ d.children row ∨ d.size ≤ c ∧ d'.Blank c

/-- A change of row `r` leaves every other row as it is. -/
theorem RowFrom.rowView_eq (wf : d.WellFormed) (wfe : e.WellFormed) {q r : NodeId}
    (h : RowFrom d e q) (frame : Frame (· = r) (· ∈ d.children r) e d') (hq : q < e.size)
    (hne : q ≠ r) : d'.rowView q = e.rowView q := by
  refine rowView_congr (frame.children q hq hne) fun c hc => ?_
  refine frame.cell c (wfe.lt_size_child hc) fun hcr => ?_
  rcases h c hc with hcq | ⟨hge, -⟩
  · exact hne (wf.parent_unique hcq hcr)
  · exact Nat.not_lt.2 hge (wf.lt_size_child hcr)

theorem RowFrom.of_frame (wfe : e.WellFormed) {q r : NodeId} (h : RowFrom d e q)
    (frame : Frame (· = r) P e d') (hq : e.kind? q = some .row) (hr : e.kind? r = some .row)
    (view : d'.rowView q = e.rowView q) : RowFrom d d' q := by
  intro c hc
  rw [children_of_rowView view] at hc
  refine (h c hc).imp_right fun ⟨hge, hblank⟩ => ⟨hge, hblank.of_frame frame ?_ ?_⟩
  · rintro rfl
    have := wfe.kind_cell hq hc
    rw [hr] at this
    cases this
  · rintro b hb rfl
    rw [hr] at hb
    cases hb

end Document

namespace Action

open Document

variable {L : Type} {d : Document L}

theorem ensures_forM_rows (wf : d.WellFormed) {f : NodeId → Action L Unit}
    {P : NodeId → List (NodeId × Option (CellProps L)) → Prop} {rows : List NodeId}
    (nodup : rows.Nodup) (kind : ∀ r ∈ rows, d.kind? r = some .row)
    (step : ∀ r ∈ rows, ∀ e : Document L, e.WellFormed → d.size ≤ e.size → e.kind? r = some .row →
      e.rowView r = d.rowView r → Ensures (f r) e fun _ e' =>
        e'.WellFormed ∧ Frame (· = r) (· ∈ d.children r) e e' ∧ P r (e'.rowView r) ∧ RowFrom e e' r) :
    Ensures (rows.forM f) d fun _ e => e.WellFormed ∧
      Frame (· ∈ rows) (fun c => ∃ r ∈ rows, c ∈ d.children r) d e ∧
      ∀ r ∈ rows, P r (e.rowView r) ∧ RowFrom d e r := by
  refine (Ensures.forM
    (I := fun rest e => e.WellFormed ∧
      Frame (· ∈ rows) (fun c => ∃ r ∈ rows, c ∈ d.children r) d e ∧
      ∃ done, rows = done ++ rest ∧ (∀ r ∈ done, P r (e.rowView r) ∧ RowFrom d e r) ∧
        ∀ r ∈ rest, e.rowView r = d.rowView r)
    (fun r rest e ⟨wfe, frame, done, hrows, hdone, hrest⟩ => ?_) rows d
    ⟨wf, .refl d, [], rfl, by simp, fun _ _ => rfl⟩).mono ?_
  · have hr : r ∈ rows := by simp [hrows]
    have hkind : ∀ q ∈ rows, e.kind? q = some .row := fun q hq => by
      rw [frame.kind q (lt_size_of_kind? (kind q hq)), kind q hq]
    refine (step r hr e wfe frame.size (hkind r hr) (hrest r (by simp))).mono
      fun _ e' ⟨wfe', frame', hP, hfrom⟩ => ?_
    obtain ⟨-, hnodup, hne⟩ := List.nodup_append.1 (hrows ▸ nodup)
    refine ⟨wfe', ?_, done ++ [r], by simp [hrows], fun q hq => ?_, fun q hq => ?_⟩
    · exact frame.trans (frame'.mono (fun x _ h => h ▸ hr) (fun c _ h => ⟨r, hr, h⟩) wfe)
    · rcases List.mem_append.1 hq with hq | hq
      · have hkq := hkind q (by simp [hrows, hq])
        obtain ⟨hPq, hfromq⟩ := hdone q hq
        have view := hfromq.rowView_eq wf wfe frame' (lt_size_of_kind? hkq) (hne q hq r (by simp))
        exact ⟨view ▸ hPq, hfromq.of_frame wfe frame' hkq (hkind r hr) view⟩
      · obtain rfl := List.mem_singleton.1 hq
        refine ⟨hP, fun c hc => ?_⟩
        rw [← children_of_rowView (hrest q (by simp))]
        exact (hfrom c hc).imp_right fun ⟨hge, hblank⟩ => ⟨frame.size.trans hge, hblank⟩
    · have view := hrest q (by simp [hq])
      have hkq := hkind q (by simp [hrows, hq])
      have hfromq : RowFrom d e q := fun c hc => .inl (children_of_rowView view ▸ hc)
      rw [hfromq.rowView_eq wf wfe frame' (lt_size_of_kind? hkq) fun e =>
        (List.nodup_cons.1 hnodup).1 (e ▸ hq), view]
  · rintro _ e ⟨wfe, frame, done, hrows, hdone, -⟩
    rw [List.append_nil] at hrows
    exact ⟨wfe, frame, hrows ▸ hdone⟩

end Action

end RichTable
