import Mathlib
import RichTable.Proofs.Editor.Load

/-!
# No edit loses text

The runs of a table are the runs of its cells in reading order. Cells that an edit keeps have the runs
they had, and new cells have none (`Inherits.runs_table`); a merge only moves runs
(`Merged.runs_survivor`). So every edit that takes effect keeps the runs of a session's table, except
for those of the cells that it deletes.
-/

namespace RichTable

theorem flatMap_filter_of_nil {α β : Type} {p : α → Bool} {f : α → List β} {l : List α}
    (h : ∀ x ∈ l, p x = false → f x = []) : (l.filter p).flatMap f = l.flatMap f := by
  induction l with
  | nil => rfl
  | cons x l ih =>
    have ih := ih fun y hy => h y (by simp [hy])
    cases hx : p x with
    | true => rw [List.filter_cons_of_pos hx, List.flatMap_cons, List.flatMap_cons, ih]
    | false => rw [List.filter_cons_of_neg (by simp [hx]), ih, List.flatMap_cons, h x (by simp) hx,
        List.nil_append]

namespace Document

variable {L : Type} {d d' : Document L} {t v : NodeId} {keep : NodeId → Bool} {cells : List NodeId}

/-! ## Runs of cells -/

/-- The runs of a cell depend on its paragraphs and their runs only. -/
theorem WellFormed.runs_cell_congr (wf : d.WellFormed) (wf' : d'.WellFormed) {c : NodeId}
    (hc : d.kind? c = some .cell) (blocks : ∀ b ∈ d.children c, d.kind? b = some .block)
    (kind : ∀ x < d.size, d'.kind? x = d.kind? x) (text : ∀ x < d.size, d'.text? x = d.text? x)
    (same : d'.children c = d.children c)
    (inner : ∀ b ∈ d.children c, d'.children b = d.children b) : d'.runs c = d.runs c := by
  rw [wf.runs_of_kind hc (by decide),
    wf'.runs_of_kind ((kind c (lt_size_of_kind? hc)).trans hc) (by decide), same]
  refine List.flatMap_congr fun b hb => ?_
  have hbk := blocks b hb
  apply wf.runs_block_congr wf' hbk ((kind b (lt_size_of_kind? hbk)).trans hbk) (inner b hb)
  exact fun r hr => text r (wf.lt_size_child hr)

theorem Blank.runs_eq_nil {c : NodeId} (wf : d.WellFormed) (hc : d.kind? c = some .cell)
    (h : d.Blank c) : d.runs c = [] := by
  obtain ⟨b, hb, hk, he⟩ := h
  rw [wf.runs_of_kind hc (by decide), hb, List.flatMap_singleton, wf.runs_of_kind hk (by decide), he,
    List.flatMap_nil]

namespace Inherits

theorem runs_cell (h : Inherits keep d d' t) (wf : d.WellFormed) (wf' : d'.WellFormed)
    (ht : d.kind? t = some .table) (filled : d.Filled t) {c : NodeId} (hc : c ∈ d.tableCells t) :
    d'.runs c = d.runs c := by
  have hk := wf.kind_tableCells ht hc
  have blocks := (filled c hc).2
  apply wf.runs_cell_congr wf' hk blocks h.kind h.text
  · exact h.content c (lt_size_of_kind? hk) (.inl hk)
  · exact fun b hb => h.content b (wf.lt_size_child hb) (.inr (.inl (blocks b hb)))

/-- The runs of the table are those of the cells that are kept. -/
theorem runs_table (h : Inherits keep d d' t) (wf : d.WellFormed) (wf' : d'.WellFormed)
    (ht : d.kind? t = some .table) (filled : d.Filled t) :
    d'.runs t = ((d.tableCells t).filter keep).flatMap d.runs := by
  have ht' : d'.kind? t = some .table := (h.kind t (lt_size_of_kind? ht)).trans ht
  have new : ∀ c ∈ d'.tableCells t, decide (c < d.size) = false → d'.runs c = [] := fun c hc hge =>
    (h.blank c hc (by simpa using hge)).runs_eq_nil wf' (wf'.kind_tableCells ht' hc)
  rw [wf'.runs_table ht', ← flatMap_filter_of_nil new, h.cells]
  exact List.flatMap_congr fun c hc =>
    h.runs_cell wf wf' ht filled (List.mem_filter.1 hc).1

/-- What is not kept is all that is lost. -/
theorem runs_perm (h : Inherits keep d d' t) (wf : d.WellFormed) (wf' : d'.WellFormed)
    (ht : d.kind? t = some .table) (filled : d.Filled t) :
    (d.runs t).Perm (d'.runs t ++ ((d.tableCells t).filter fun c => !keep c).flatMap d.runs) := by
  rw [h.runs_table wf wf' ht filled, wf.runs_table ht, ← List.flatMap_append]
  exact ((List.filter_append_perm keep _).symm).flatMap_right _

end Inherits

/-! ## Merged cells -/

namespace Merged

theorem runs_cell (h : Merged d d' t v cells) (wf : d.WellFormed) (wf' : d'.WellFormed)
    (ht : d.kind? t = some .table) (filled : d.Filled t) {c : NodeId} (hc : c ∈ d.tableCells t)
    (hn : c ∉ cells) : d'.runs c = d.runs c := by
  have hk := wf.kind_tableCells ht hc
  have blocks := (filled c hc).2
  apply wf.runs_cell_congr wf' hk blocks h.kind h.text
  · exact h.content c (lt_size_of_kind? hk) (.inl ⟨hk, hn⟩)
  · exact fun b hb => h.content b (wf.lt_size_child hb) (.inr (.inl (blocks b hb)))

/-- The merged cell holds the runs of all cells, in order. -/
theorem runs_survivor (h : Merged d d' t v cells) (wf : d.WellFormed) (wf' : d'.WellFormed)
    (ht : d.kind? t = some .table) (filled : d.Filled t) :
    d'.runs v = cells.flatMap d.runs := by
  obtain ⟨rest, rfl⟩ : ∃ rest, cells = v :: rest := ⟨cells.tail, List.eq_cons_of_mem_head? h.survivor⟩
  have cell : ∀ c ∈ v :: rest, d.kind? c = some .cell := fun c hc =>
    wf.kind_tableCells ht (h.mem c hc)
  have blocks : ∀ c ∈ v :: rest, ∀ b ∈ d.children c, d.kind? b = some .block := fun c hc =>
    (filled c (h.mem c hc)).2
  have hv := cell v (by simp)
  have hv' := (h.kind v (lt_size_of_kind? hv)).trans hv
  have kept : ∀ b ∈ d.absorbed v (v :: rest), d'.runs b = d.runs b := fun b hb => by
    have hbk : d.kind? b = some .block := by
      rcases mem_absorbed hb with hb | ⟨c, hc, hb⟩
      · exact blocks v (by simp) b hb
      · exact blocks c hc b hb
    have hlt := lt_size_of_kind? hbk
    apply wf.runs_block_congr wf' hbk ((h.kind b hlt).trans hbk) (h.content b hlt (.inr (.inl hbk)))
    exact fun r hr => h.text r (wf.lt_size_child hr)
  have others : rest.filter (· != v) = rest := List.filter_eq_self.2 fun c hc => by
    simpa using fun e : c = v => (List.nodup_cons.1 h.nodup).1 (e ▸ hc)
  rw [wf'.runs_of_kind hv' (by decide), h.children, List.flatMap_congr kept,
    wf.runs_absorbed hv cell fun c hc => blocks c (hc.elim (fun e => e ▸ by simp) id)]
  simp [others]

theorem tableCells_perm (h : Merged d d' t v cells) (wf : d.WellFormed) :
    (d.tableCells t).Perm (cells ++ (d.tableCells t).filter (· ∉ cells)) ∧
      (d'.tableCells t).Perm (v :: (d.tableCells t).filter (· ∉ cells)) := by
  have nodup := wf.nodup_tableCells t
  have hv := List.mem_of_head? h.survivor
  constructor
  · refine (List.perm_ext_iff_of_nodup nodup ?_).2 fun c => ?_
    · exact h.nodup.append (nodup.filter _) fun c hc hn => by simp [hc] at hn
    · simp only [List.mem_append, List.mem_filter, decide_eq_true_eq]
      have := h.mem c
      tauto
  · rw [h.cells]
    refine (List.perm_ext_iff_of_nodup (nodup.filter _) ?_).2 fun c => ?_
    · refine List.nodup_cons.2 ⟨?_, nodup.filter _⟩
      simp [hv]
    · have := h.mem v hv
      simp only [List.mem_cons, List.mem_filter, decide_eq_true_eq, keeps_iff]
      constructor
      · tauto
      · rintro (rfl | hc)
        · exact ⟨this, .inl rfl⟩
        · exact ⟨hc.1, .inr hc.2⟩

/-- A merge only moves runs. -/
theorem runs_perm (h : Merged d d' t v cells) (wf : d.WellFormed) (wf' : d'.WellFormed)
    (ht : d.kind? t = some .table) (filled : d.Filled t) : (d.runs t).Perm (d'.runs t) := by
  obtain ⟨before, after⟩ := h.tableCells_perm wf
  have rest : ((d.tableCells t).filter (· ∉ cells)).flatMap d'.runs =
      ((d.tableCells t).filter (· ∉ cells)).flatMap d.runs := List.flatMap_congr fun c hc => by
    obtain ⟨hc, hn⟩ := List.mem_filter.1 hc
    exact h.runs_cell wf wf' ht filled hc (by simpa using hn)
  rw [wf.runs_table ht, wf'.runs_table ((h.kind t (lt_size_of_kind? ht)).trans ht)]
  calc
    (d.tableCells t).flatMap d.runs
    _ |>.Perm ((cells ++ (d.tableCells t).filter (· ∉ cells)).flatMap d.runs) := before.flatMap_right _
    _ = (v :: (d.tableCells t).filter (· ∉ cells)).flatMap d'.runs := by
      rw [List.flatMap_append, List.flatMap_cons, h.runs_survivor wf wf' ht filled, rest]
    _ |>.Perm ((d'.tableCells t).flatMap d'.runs) := (after.flatMap_right _).symm

end Merged

/-! ## Rows -/

/-- Rows of the table that lie in one group are rows of that group. -/
theorem rows_of_locateIn {g : NodeId} {first last i j : Nat} (hle : first ≤ last)
    (h : Editor.locateIn d first last (d.children t) 0 = some (g, i, j)) :
    ((d.tableRows t).take (last + 1)).drop first = ((d.children g).take (j + 1)).drop i := by
  obtain ⟨pre, post, hsplit, rfl, rfl, hj⟩ := locateIn_eq h (Nat.zero_le _) hle
  rw [tableRows, hsplit, List.flatMap_append, List.flatMap_cons, Nat.zero_add, Nat.add_assoc,
    List.take_length_add_append, List.take_append_of_le_length hj, List.drop_length_add_append]

/-- The cells of some of the rows. -/
theorem WellFormed.filter_tableCells (wf : d.WellFormed) (t : NodeId) {first last : Nat}
    (hle : first ≤ last) :
    (d.tableCells t).filter (fun c => (((d.tableRows t).take (last + 1)).drop first).any
      fun row => (d.children row).contains c) =
      (((d.tableRows t).take (last + 1)).drop first).flatMap d.children := by
  have nodup := wf.nodup_tableRows t
  have hsplit : d.tableRows t = (d.tableRows t).take first ++
      (((d.tableRows t).take (last + 1)).drop first ++ (d.tableRows t).drop (last + 1)) := by
    conv_lhs => rw [← List.take_append_drop (last + 1) (d.tableRows t),
      ← List.take_append_drop first ((d.tableRows t).take (last + 1)), List.take_take,
      Nat.min_eq_left (by omega), List.append_assoc]
  generalize ((d.tableRows t).take (last + 1)).drop first = rows at hsplit ⊢
  generalize (d.tableRows t).take first = above at hsplit
  generalize (d.tableRows t).drop (last + 1) = below at hsplit
  rw [tableCells, hsplit]
  rw [hsplit] at nodup
  have inside : ∀ {r c}, c ∈ d.children r →
      ((rows.any fun row => (d.children row).contains c) = true ↔ r ∈ rows) := fun hc => by
    simp only [List.any_eq_true, List.contains_iff_mem]
    constructor
    · rintro ⟨r', hr', hc'⟩
      exact wf.parent_unique hc' hc ▸ hr'
    · exact fun hr => ⟨_, hr, hc⟩
  have gone : ∀ l : List NodeId, (∀ r ∈ l, r ∉ rows) →
      (l.flatMap d.children).filter (fun c => rows.any fun row => (d.children row).contains c) = [] := by
    intro l hl
    rw [List.filter_eq_nil_iff]
    intro c hc
    obtain ⟨r, hr, hcr⟩ := List.mem_flatMap.1 hc
    rw [inside hcr]
    exact hl r hr
  obtain ⟨-, inner, outer⟩ := List.nodup_append.1 nodup
  obtain ⟨-, -, lower⟩ := List.nodup_append.1 inner
  rw [List.flatMap_append, List.flatMap_append, List.filter_append, List.filter_append,
    gone above fun r hr hmem => outer r hr r (List.mem_append_left _ hmem) rfl,
    gone below fun r hr hmem => lower r hmem r hr rfl, List.nil_append, List.append_nil,
    List.filter_eq_self]
  intro c hc
  obtain ⟨r, hr, hcr⟩ := List.mem_flatMap.1 hc
  exact (inside hcr).2 hr

/-- The cells that the places of a rectangle show, row by row and from left to right, each once. -/
def cellsIn (d : Document L) (t : NodeId) (rect : CellRect) : List NodeId :=
  ((rect.rowsOf (d.tableRows t)).flatMap fun row =>
    (List.range' rect.left (rect.right + 1 - rect.left)).filterMap (d.coveringCell? row)).eraseDups

theorem Regular.cellsIn_eq (reg : d.Regular t) {rect : CellRect} {g : NodeId} {i j : Nat}
    (hle : rect.top ≤ rect.bottom)
    (hloc : Editor.locateIn d rect.top rect.bottom (d.children t) 0 = some (g, i, j))
    (hcand : d.mergeCandidates? t { rect with top := i, bottom := j } (d.children g) = some cells) :
    cells = d.cellsIn t rect := by
  obtain ⟨pre, post, hsplit, -⟩ := locateIn_eq hloc (Nat.zero_le _) hle
  have hg : g ∈ d.children t := by simp [hsplit]
  rw [(reg.rectangle hg hcand).2.2, cellsIn, CellRect.rowsOf, rows_of_locateIn hle hloc]
  simp only [places, CellRect.rowsOf, List.filterMap_flatMap, List.filterMap_map]
  rfl

/-! ## What edits do to runs -/

/-- What an edit of a table has made of its runs. -/
def RunsAfter (d d' : Document L) (t : NodeId) (before after : List String) : Edit L → Prop
  | .deleteRows first last => before.Perm (after ++
      ((((d.tableRows t).take (last + 1)).drop first).flatMap d.children).flatMap d.runs)
  | .deleteColumns first last => ∃ columns, d.columnsBetween? t first last = some columns ∧
      before.Perm (after ++ ((d.tableCells t).filter fun c =>
        (d.columnRange? c).any (·.within columns)).flatMap d.runs)
  | .merge rect => before.Perm after ∧ ∃ v, (d.cellsIn t rect).head? = some v ∧
      (∀ c, c ∈ d'.tableCells t ↔ c ∈ d.tableCells t ∧ (c = v ∨ c ∉ d.cellsIn t rect)) ∧
      v ∈ d'.tableCells t ∧ d'.runs v = (d.cellsIn t rect).flatMap d.runs ∧
      ∀ c ∈ d'.tableCells t, c ≠ v → d'.runs c = d.runs c
  | _ => after = before

theorem Sound.runsAfter (sound : d.Sound t) (sound' : d'.Sound t) {edit : Edit L}
    (effect : Effect d d' t edit) (live : d.parent? t = some root) :
    (d'.parent? t = some root ∨ d'.parent? t = none) ∧
      RunsAfter d d' t (d.runs t) (if d'.parent? t = some root then d'.runs t else []) edit := by
  have wf := sound.regular.wf
  have wf' := sound'.regular.wf
  have ht := sound.regular.kind
  cases edit with
  | deleteRows first last =>
    obtain ⟨hle, g, i, j, hloc, h⟩ := effect
    split_ifs at h with all
    · subst h
      have parent : (d.detach t).parent? t = none := by simp [parent?_detach]
      refine ⟨.inr parent, ?_⟩
      rw [parent, if_neg nofun]
      show (d.runs t).Perm _
      rw [rows_of_locateIn hle hloc, wf.runs_table ht, List.nil_append, tableCells, tableRows, all.1,
        List.flatMap_singleton, all.2.2, all.2.1, List.take_length, List.drop_zero]
    · rw [h.parent, live, if_pos rfl]
      refine ⟨.inl rfl, ?_⟩
      have lost := h.runs_perm wf wf' ht sound.filled
      simp only [Bool.not_not] at lost
      have deleted := wf.filter_tableCells t hle
      rw [rows_of_locateIn hle hloc] at deleted
      show (d.runs t).Perm _
      rw [rows_of_locateIn hle hloc, ← deleted]
      exact lost
  | deleteColumns first last =>
    obtain ⟨columns, hcolumns, h⟩ := effect
    rw [h.parent, live, if_pos rfl]
    refine ⟨.inl rfl, columns, hcolumns, ?_⟩
    have lost := h.runs_perm wf wf' ht sound.filled
    simp only [Bool.not_not] at lost
    rwa [List.filter_congr fun c hc => ?_] at lost
    obtain ⟨g, hg, r, hs⟩ := Document.mem_tableCells.1 hc
    have hpos := wf.width_pos (sound.regular.kind_group hg) hs
    rw [Bool.eq_iff_iff, inColumns_iff, sound.regular.columnRange?_eq hc, Option.any_some,
      ColumnRange.within, Bool.and_eq_true, decide_eq_true_eq, decide_eq_true_eq]
    dsimp only
    omega
  | merge rect =>
    obtain ⟨hle, g, i, j, cells, v, hloc, hcand, h⟩ := effect
    have hv := List.mem_of_head? h.survivor
    have mem_iff : ∀ c, c ∈ d'.tableCells t ↔ c ∈ d.tableCells t ∧ (c = v ∨ c ∉ cells) := fun c => by
      rw [h.cells, List.mem_filter, keeps_iff]
    rw [h.parent, live, if_pos rfl]
    refine ⟨.inl rfl, h.runs_perm wf wf' ht sound.filled, v, ?_⟩
    rw [← sound.regular.cellsIn_eq hle hloc hcand]
    refine ⟨h.survivor, mem_iff, (mem_iff v).2 ⟨h.mem v hv, .inl rfl⟩,
      h.runs_survivor wf wf' ht sound.filled, fun c hc hne => ?_⟩
    obtain ⟨hc, kept⟩ := (mem_iff c).1 hc
    exact h.runs_cell wf wf' ht sound.filled hc (kept.resolve_left hne)
  | insertRows | insertColumns | split | resizeColumn =>
    have h : Inherits (fun _ => true) d d' t := effect
    rw [h.parent, live, if_pos rfl]
    refine ⟨.inl rfl, ?_⟩
    show d'.runs t = d.runs t
    rw [h.runs_table wf wf' ht sound.filled, List.filter_true, wf.runs_table ht]

end Document

namespace Session

open Document

variable {L : Type}

/-- The runs of the table, as long as it is part of the document. -/
def runs (s : Session L) : List String := (s.liveTable?.map s.editor.doc.runs).getD []

/-- What is wrong with the grid of the table. -/
def gridFault? (s : Session L) : Option GridFault := s.liveTable?.bind s.editor.doc.gridFault?

/-- The session has a sound table, which may have been deleted. -/
structure Sound (s : Session L) (t : NodeId) : Prop where
  table : s.table = some t
  sound : s.editor.doc.Sound t
  parent : s.editor.doc.parent? t = some root ∨ s.editor.doc.parent? t = none

variable {s s' : Session L} {t : NodeId}

theorem Sound.liveTable?_eq (h : s.Sound t) :
    s.liveTable? = if s.editor.doc.parent? t = some root then some t else none := by
  refine Session.liveTable?_eq h.sound.regular.wf h.table h.sound.regular.kind fun p hp => ?_
  rcases h.parent with e | e <;> rw [e] at hp <;> cases hp
  rfl

theorem Sound.runs_eq (h : s.Sound t) : s.runs =
    if s.editor.doc.parent? t = some root then s.editor.doc.runs t else [] := by
  rw [runs, h.liveTable?_eq]
  split <;> rfl

variable [Length L]

/-- Applies edits one after the other, whatever their answers are. -/
def applyAll (s : Session L) (edits : List (Edit L)) : Session L :=
  edits.foldl (fun s edit => (s.apply edit).2) s

theorem Sound.apply (h : s.Sound t) (edit : Edit L) : (s.apply edit).2.Sound t ∧
    ((s.apply edit).1 = .ok true → s.liveTable? = some t ∧
      RunsAfter s.editor.doc (s.apply edit).2.editor.doc t s.runs (s.apply edit).2.runs edit) := by
  have live := h.liveTable?_eq
  split_ifs at live with hp
  · obtain ⟨done, e', run, sound', effect⟩ := EditorAction.ensures_apply h.sound edit
    rw [apply_of_live live, run]
    dsimp only
    rcases effect with effect | ⟨rfl, same⟩
    · obtain ⟨parent, runs⟩ := h.sound.runsAfter sound' effect hp
      have h' : Sound { s with editor := e' } t := ⟨h.table, sound', parent⟩
      refine ⟨h', fun _ => ⟨live, ?_⟩⟩
      rwa [h.runs_eq, if_pos hp, h'.runs_eq]
    · exact ⟨⟨h.table, sound', by rw [same]; exact h.parent⟩, nofun⟩
  · rw [apply_of_not_live live]
    exact ⟨h, nofun⟩

theorem Sound.applyAll (h : s.Sound t) (edits : List (Edit L)) : (s.applyAll edits).Sound t := by
  induction edits generalizing s with
  | nil => exact h
  | cons edit edits ih => exact ih (h.apply edit).1

/-- Loading a table whose grid has no fault gives a session with a sound table. -/
theorem exists_sound_load {outline : TableOutline L} (grid : (s.load outline).2.gridFault? = none) :
    ∃ t, (s.load outline).2.Sound t := by
  obtain ⟨s', t, load, table, loaded, -⟩ := s.exists_load outline
  rw [load] at grid ⊢
  have live : s'.liveTable? = some t := by
    rw [liveTable?_eq loaded.wf table loaded.kind fun p hp => ?_, if_pos loaded.parent]
    exact Option.some.inj (hp.symm.trans loaded.parent)
  rw [gridFault?, live] at grid
  exact ⟨t, table, loaded.sound grid, .inl loaded.parent⟩

/-- A session whose table has no fault when it is loaded, after any edits. An edit that takes effect
keeps the runs of the table, except that deleting rows takes away those of the cells stored in these
rows, and deleting columns those of the cells that lie in these columns. A merge moves the runs of all
cells of the rectangle to the first of them, in reading order, takes the others away, and leaves the
cells outside alone. -/
theorem apply_keeps_runs {start : Session L} {outline : TableOutline L}
    (grid : (start.load outline).2.gridFault? = none) {edits : List (Edit L)}
    (reached : s = (start.load outline).2.applyAll edits) {edit : Edit L}
    (done : s.apply edit = (.ok true, s')) :
    ∃ t, s.liveTable? = some t ∧ RunsAfter s.editor.doc s'.editor.doc t s.runs s'.runs edit := by
  obtain ⟨t, sound⟩ := exists_sound_load grid
  have applied := ((sound.applyAll edits).apply edit).2
  rw [← reached, done] at applied
  exact ⟨t, applied rfl⟩

/-- Two rows of two cells. -/
def square : TableOutline Int where
  groups := [[[{ text := "a" }, { text := "b" }], [{ text := "c" }, { text := "d" }]]]

/-- A session with two rows of three cells, of which the middle ones are blank. -/
def widened : Session Int := ((ofConfig .standard).load square).2.applyAll [.insertColumns 0 1 .after]

/-- The same session with all of its cells merged. -/
def merged : Except EditError Bool × Session Int := widened.apply (.merge ⟨0, 1, 0, 2⟩)

theorem apply_keeps_runs_merged :
    ((ofConfig .standard).load square).2.gridFault? = none ∧ merged.1 = .ok true ∧
      ∃ t, widened.liveTable? = some t ∧ RunsAfter widened.editor.doc merged.2.editor.doc t widened.runs
        merged.2.runs (.merge ⟨0, 1, 0, 2⟩) := by
  have grid : ((ofConfig .standard).load square).2.gridFault? = none := by decide +kernel
  have done : merged.1 = .ok true := by decide +kernel
  have reached : widened =
    ((ofConfig .standard).load square).2.applyAll [.insertColumns 0 1 .after] := by rw [widened]
  have applied : widened.apply (.merge ⟨0, 1, 0, 2⟩) = (.ok true, merged.2) := by
    rw [← done, merged]
  exact ⟨grid, done, apply_keeps_runs grid reached applied⟩

end Session

end RichTable
