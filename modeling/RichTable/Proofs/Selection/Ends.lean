import Mathlib
import RichTable.Proofs.Grid.Regular
import RichTable.Proofs.Selection.Symmetry
import RichTable.Proofs.Tree.Nearest

/-!
# Where the ends of a selection go

Each end of a selection is moved to a place for the caret. If it has entered a cell that the
selection did not reach, it is folded into the neighbour of that cell. A cell and its neighbour are
next to each other in the list of all cells of their row group (`WellFormed.nextCell?_eq_some`), so no
caret can stand between them. An end that is folded thus comes to the closest caret on the other side
of where it was: folding is a way to move in the other direction (`WellFormed.moved_foldForward`).
-/

namespace RichTable.Document

variable {L : Type} {d : Document L} {t : NodeId}

/-! ## Cells on the way up -/

namespace WellFormed

theorem ancestors_tableCells (wf : d.WellFormed) {c : NodeId} (hc : c ∈ d.tableCells t) :
    ∃ row g, c ∈ d.children row ∧ row ∈ d.children g ∧ g ∈ d.children t ∧
      d.ancestors c = c :: row :: g :: d.ancestors t := by
  obtain ⟨g, hg, r, hs⟩ := mem_tableCells.1 hc
  obtain ⟨row, hr, hcr⟩ := stored_rowsOf.1 hs
  have hrg := List.mem_of_getElem? hr
  refine ⟨row, g, hcr, hrg, hg, ?_⟩
  rw [wf.ancestors_of_parent (wf.mem_children.1 hcr), wf.ancestors_of_parent (wf.mem_children.1 hrg),
    wf.ancestors_of_parent (wf.mem_children.1 hg)]

theorem depth_tableCells (wf : d.WellFormed) {c : NodeId} (hc : c ∈ d.tableCells t) :
    d.depth c = d.depth t + 3 := by
  obtain ⟨row, g, -, -, -, h⟩ := wf.ancestors_tableCells hc
  simp [depth, h]

theorem table_mem_ancestors (wf : d.WellFormed) (ht : d.kind? t = some .table) {c : NodeId}
    (hc : c ∈ d.tableCells t) : t ∈ d.ancestors c := by
  obtain ⟨row, g, -, -, -, up⟩ := wf.ancestors_tableCells hc
  rw [up]
  simp [wf.self_mem_ancestors (lt_size_of_kind? ht)]

theorem tableOfCell?_eq (wf : d.WellFormed) (ht : d.kind? t = some .table) {c : NodeId}
    (hc : c ∈ d.tableCells t) : d.tableOfCell? c = some t := by
  obtain ⟨row, g, hcr, hrg, hg, -⟩ := wf.ancestors_tableCells hc
  have hgk := wf.kind_group ht hg
  rw [tableOfCell?, wf.rowOf?_eq (wf.kind_row hgk hrg) hcr, Option.bind_some, wf.groupOf?_eq hgk hrg,
    Option.bind_some, wf.tableOf?_eq ht hg]

theorem attached_tableCells (wf : d.WellFormed) (attached : root ∈ d.ancestors t) {c : NodeId}
    (hc : c ∈ d.tableCells t) : root ∈ d.ancestors c := by
  obtain ⟨row, g, -, -, -, up⟩ := wf.ancestors_tableCells hc
  rw [up]
  simp [attached]

theorem attached_children (wf : d.WellFormed) {l : List NodeId} (h : ∀ n ∈ l, root ∈ d.ancestors n) :
    ∀ n ∈ l.flatMap d.children, root ∈ d.ancestors n := fun n hn => by
  obtain ⟨p, hp, hn⟩ := List.mem_flatMap.1 hn
  exact (wf.mem_ancestors_of_parent (wf.mem_children.1 hn)).2 (.inr (h p hp))

theorem attached_groups (wf : d.WellFormed) (attached : root ∈ d.ancestors t) :
    ∀ g ∈ d.children t, root ∈ d.ancestors g := fun _ hg =>
  (wf.mem_ancestors_of_parent (wf.mem_children.1 hg)).2 (.inr attached)

/-- The rows of an attached table are in the order of the document. -/
theorem pairwise_tableRows (wf : d.WellFormed) (attached : root ∈ d.ancestors t) :
    (d.tableRows t).Pairwise d.EndsBefore :=
  wf.pairwise_flatMap_children (wf.attached_groups attached) (wf.pairwise_children attached)

/-- The cells of an attached table are in the order of the document. -/
theorem pairwise_tableCells (wf : d.WellFormed) (attached : root ∈ d.ancestors t) :
    (d.tableCells t).Pairwise d.EndsBefore :=
  wf.pairwise_flatMap_children (wf.attached_children (wf.attached_groups attached))
    (wf.pairwise_tableRows attached)

/-- What stands directly above an attached node, if the schema leaves no choice. -/
theorem exists_parent_of_kind (wf : d.WellFormed) {n : NodeId} {k j : Kind}
    (hn : d.kind? n = some k) (inner : k ≠ .other) (attached : root ∈ d.ancestors n)
    (only : ∀ i : Kind, i.accepts k = true → i = j) :
    ∃ p, n ∈ d.children p ∧ d.kind? p = some j ∧ root ∈ d.ancestors p := by
  have hroot : root ≠ n := by
    rintro rfl
    rw [wf.root_kind, Option.some.injEq] at hn
    exact inner hn.symm
  cases hp : d.parent? n with
  | none =>
    rw [wf.ancestors_of_no_parent (lt_size_of_kind? hn) hp, List.mem_singleton] at attached
    exact absurd attached hroot
  | some p =>
    obtain ⟨kp, kn, hkp, hkn, ha⟩ := wf.accepts hp
    rw [hn, Option.some.injEq] at hkn
    refine ⟨p, wf.mem_children.2 hp, only kp (hkn ▸ ha) ▸ hkp, ?_⟩
    exact ((wf.mem_ancestors_of_parent hp).1 attached).resolve_left hroot

/-- An attached cell stands in a table. -/
theorem exists_table_of_cell (wf : d.WellFormed) {c : NodeId} (hc : d.kind? c = some .cell)
    (attached : root ∈ d.ancestors c) : ∃ t, d.kind? t = some .table ∧ c ∈ d.tableCells t := by
  obtain ⟨row, hcr, hrow, attached⟩ :=
    wf.exists_parent_of_kind (j := .row) hc (by decide) attached fun i => by cases i <;> decide
  obtain ⟨g, hrg, hg, attached⟩ :=
    wf.exists_parent_of_kind (j := .rowGroup) hrow (by decide) attached fun i => by
      cases i <;> decide
  obtain ⟨t, hgt, ht, -⟩ :=
    wf.exists_parent_of_kind (j := .table) hg (by decide) attached fun i => by cases i <;> decide
  exact ⟨t, ht, List.mem_flatMap.2 ⟨row, List.mem_flatMap.2 ⟨g, hgt, hrg⟩, hcr⟩⟩

/-- Below a row group, a place for the caret is in a cell. -/
theorem exists_cell_of_group (wf : d.WellFormed) {g h : NodeId} (hg : d.kind? g = some .rowGroup)
    (host : d.hostsCaret h = true) (hgh : g ∈ d.ancestors h) :
    ∃ c ∈ (d.rowsOf g).flatten, c ∈ d.ancestors h := by
  have inner : ∀ {n k}, d.kind? n = some k → k ≠ .block → k ≠ .inline → n ≠ h := by
    rintro n k hk h₁ h₂ rfl
    rw [hostsCaret, hk] at host
    cases k <;> simp_all
  obtain ⟨row, hrow, hrh⟩ := wf.exists_child_mem_ancestors hgh (inner hg (by decide) (by decide))
  obtain ⟨c, hc, hch⟩ := wf.exists_child_mem_ancestors hrh
    (inner (wf.kind_row hg hrow) (by decide) (by decide))
  rw [flatten_rowsOf]
  exact ⟨c, List.mem_flatMap.2 ⟨row, hrow, hc⟩, hch⟩

/-- Below a table, a place for the caret is in a cell of the table. -/
theorem exists_cell_of_table (wf : d.WellFormed) {h : NodeId} (ht : d.kind? t = some .table)
    (host : d.hostsCaret h = true) (hth : t ∈ d.ancestors h) :
    ∃ c ∈ d.tableCells t, c ∈ d.ancestors h := by
  obtain ⟨g, hg, hgh⟩ := wf.exists_child_mem_ancestors hth (by
    rintro rfl
    simp [hostsCaret, ht] at host)
  obtain ⟨c, hc, hch⟩ := wf.exists_cell_of_group (wf.kind_group ht hg) host hgh
  rw [tableCells_eq_flatMap]
  exact ⟨c, List.mem_flatMap.2 ⟨g, hg, hc⟩, hch⟩

/-! ## Neighbours -/

section Neighbours

variable {g row c n : NodeId}

/-- The rows and the cells around a cell of a row group. -/
theorem exists_place (wf : d.WellFormed) (hr : row ∈ d.children g) (hc : c ∈ d.children row) :
    ∃ above below before behind, d.children g = above ++ row :: below ∧
      d.children row = before ++ c :: behind ∧ d.childIndex? row = some above.length ∧
      d.childIndex? c = some before.length ∧ (d.rowsOf g).flatten =
        above.flatMap d.children ++ (before ++ c :: behind) ++ below.flatMap d.children := by
  obtain ⟨before, behind, cells⟩ := List.append_of_mem hc
  obtain ⟨above, below, rows⟩ := List.append_of_mem hr
  exact ⟨above, below, before, behind, rows, cells, wf.childIndex?_eq (p := g) (by simp [rows]),
    wf.childIndex?_eq (p := row) (by simp [cells]), by simp [flatten_rowsOf, rows, cells]⟩

/-- The cells before and behind a cell in reading order are its neighbours in the list of all cells of
the group, since rows without cells add nothing to the list. -/
theorem exists_around (wf : d.WellFormed) (hg : d.kind? g = some .rowGroup)
    (hr : row ∈ d.children g) (hc : c ∈ d.children row) :
    ∃ pre post, (d.rowsOf g).flatten = pre ++ c :: post ∧ d.previousCell? c = pre.getLast? ∧
      d.nextCell? c = post.head? := by
  obtain ⟨above, below, before, behind, rows, cells, place, index, list⟩ := wf.exists_place hr hc
  refine ⟨above.flatMap d.children ++ before, behind ++ below.flatMap d.children, by simp [list], ?_, ?_⟩
  · rw [previousCell?, wf.rowOf?_eq (wf.kind_row hg hr) hc, index]
    simp only [Option.bind_eq_bind, Option.bind_some, wf.groupOf?_eq hg hr, place, rows, cells]
    rcases List.eq_nil_or_concat before with rfl | ⟨rest, b, rfl⟩
    · simp [List.getLast?_flatMap]
    · simp
  · rw [nextCell?, wf.rowOf?_eq (wf.kind_row hg hr) hc, index]
    simp only [Option.bind_eq_bind, Option.bind_some, wf.groupOf?_eq hg hr, place, rows, cells]
    cases behind with
    | nil => simp [List.head?_flatMap]
    | cons b behind => simp

theorem nextCell?_eq_some (wf : d.WellFormed) (hg : d.kind? g = some .rowGroup)
    (hr : row ∈ d.children g) (hc : c ∈ d.children row) (h : d.nextCell? c = some n) :
    ∃ pre post, (d.rowsOf g).flatten = pre ++ c :: n :: post := by
  obtain ⟨pre, post, list, -, next⟩ := wf.exists_around hg hr hc
  obtain ⟨rest, rfl⟩ := List.head?_eq_some_iff.1 (next.symm.trans h)
  exact ⟨pre, rest, list⟩

theorem previousCell?_eq_some (wf : d.WellFormed) (hg : d.kind? g = some .rowGroup)
    (hr : row ∈ d.children g) (hc : c ∈ d.children row) (h : d.previousCell? c = some n) :
    ∃ pre post, (d.rowsOf g).flatten = pre ++ n :: c :: post := by
  obtain ⟨pre, post, list, previous, -⟩ := wf.exists_around hg hr hc
  obtain ⟨rest, rfl⟩ := List.getLast?_eq_some_iff.1 (previous.symm.trans h)
  exact ⟨rest, post, by simp [list]⟩

/-- The cells of an attached row group are in the order of the document. -/
theorem pairwise_rowsOf (wf : d.WellFormed) (attached : root ∈ d.ancestors g) :
    (d.rowsOf g).flatten.Pairwise d.EndsBefore :=
  wf.pairwise_flatMap_children (fun _ hr =>
    (wf.mem_ancestors_of_parent (wf.mem_children.1 hr)).2 (.inr attached))
    (wf.pairwise_children attached)

theorem group_mem_ancestors (wf : d.WellFormed) (hc : c ∈ (d.rowsOf g).flatten) :
    g ∈ d.ancestors c := by
  rw [flatten_rowsOf] at hc
  obtain ⟨row, hr, hc⟩ := List.mem_flatMap.1 hc
  have up := wf.mem_children.1 hc
  refine wf.parent_mem_ancestors ((wf.mem_ancestors_of_parent up).2 (.inr ?_)) (wf.mem_children.1 hr)
  exact wf.self_mem_ancestors (wf.lt_size_parent up)

/-- A caret between the start of one cell of a row group and the end of a later one is in a cell of the
group. -/
theorem exists_cell_of_caret (wf : d.WellFormed) (hg : d.kind? g = some .rowGroup)
    (attached : root ∈ d.ancestors g) (hc : c ∈ (d.rowsOf g).flatten)
    (hn : n ∈ (d.rowsOf g).flatten) {i j o : Nat} (hi : d.elementStart? c = some i)
    (hj : d.elementEnd? n = some j) (hio : i < o) (hoj : o < j) (caret : d.isCaretOffset o = true) :
    ∃ x ∈ (d.rowsOf g).flatten, d.Holds x o := by
  obtain ⟨u, hu⟩ := wf.exists_elementStart? attached (by
    rintro rfl
    rw [wf.root_kind] at hg
    cases hg)
  obtain ⟨s, hs, rfl⟩ := Option.map_eq_some_iff.1 hj
  have first := wf.interval_of_mem_ancestors (wf.group_mem_ancestors hc) hu hi
  have last := wf.interval_of_mem_ancestors (wf.group_mem_ancestors hn) hu hs
  have holds : d.Holds g o := (wf.holds_iff_between hu).2 ⟨by omega, by omega⟩
  obtain ⟨h, hmem, hho⟩ := wf.exists_host_of_caret caret holds
  obtain ⟨host, hgh⟩ := (wf.mem_caretHosts (lt_size_of_kind? hg)).1 hmem
  obtain ⟨x, hx, hxh⟩ := wf.exists_cell_of_group hg host hgh
  exact ⟨x, hx, wf.holds_ancestor hho hxh⟩

/-- No caret stands between two neighbours of a row group. -/
theorem not_caret_between (wf : d.WellFormed) (hg : d.kind? g = some .rowGroup)
    (attached : root ∈ d.ancestors g) {pre post : List NodeId}
    (cells : (d.rowsOf g).flatten = pre ++ c :: n :: post) {i j o : Nat}
    (hi : d.elementEnd? c = some i) (hj : d.elementStart? n = some j) (hio : i ≤ o) (hoj : o ≤ j) :
    d.isCaretOffset o = false := by
  by_contra caret
  rw [Bool.not_eq_false] at caret
  obtain ⟨s, hs, rfl⟩ := Option.map_eq_some_iff.1 hi
  have hpos := symbolLength_pos (d := d) c
  have hpos' := symbolLength_pos (d := d) n
  obtain ⟨x, hx, hxo⟩ := wf.exists_cell_of_caret hg attached (by simp [cells]) (by simp [cells]) hs
    (elementEnd?_eq hj) (show s < o by omega) (by omega) caret
  -- the cells up to `c` end too early, and those from `n` on start too late
  have sorted := wf.pairwise_rowsOf attached
  rw [cells] at hx sorted
  obtain ⟨-, tail, left⟩ := List.pairwise_append.1 sorted
  obtain ⟨-, right⟩ := List.pairwise_cons.1 tail
  have inside : ∀ {x u}, d.elementStart? x = some u → d.Holds x (u + 1) := fun hu =>
    (wf.holds_iff_between hu).2 ⟨by omega, by rw [symbolLength]; omega⟩
  rcases List.mem_append.1 hx with hx | hx
  · have := wf.lt_of_endsBefore (left x hx c (by simp)) hxo (inside hs)
    omega
  rcases List.mem_cons.1 hx with rfl | hx
  · have := (wf.holds_iff_between hs).1 hxo
    omega
  rcases List.mem_cons.1 hx with rfl | hx
  · have := (wf.holds_iff_between hj).1 hxo
    omega
  · have := wf.lt_of_endsBefore ((List.pairwise_cons.1 right).1 x hx) (inside hj) hxo
    omega

end Neighbours

end WellFormed

/-- Two cells of a table with no caret between them, the first one before the second. -/
structure Neighbours (d : Document L) (t b c : NodeId) : Prop where
  table : d.kind? t = some .table
  mem_first : b ∈ d.tableCells t
  mem_second : c ∈ d.tableCells t
  apart : d.EndsBefore b c
  gap : ∀ {i j o}, d.elementEnd? b = some i → d.elementStart? c = some j → i ≤ o → o ≤ j →
    d.isCaretOffset o = false

namespace WellFormed

variable {b c n : NodeId}

/-- Cells that follow each other in the list of an attached row group are neighbours. -/
theorem exists_neighbours (wf : d.WellFormed) (hc : d.kind? c = some .cell)
    (attached : root ∈ d.ancestors c) : ∃ t g row, row ∈ d.children g ∧ c ∈ d.children row ∧
      d.kind? g = some .rowGroup ∧ ∀ {pre post : List NodeId} {x y : NodeId},
        (d.rowsOf g).flatten = pre ++ x :: y :: post → d.Neighbours t x y := by
  obtain ⟨t, ht, hct⟩ := wf.exists_table_of_cell hc attached
  obtain ⟨row, g, hcr, hrg, hgt, up⟩ := wf.ancestors_tableCells hct
  have hg := wf.kind_group ht hgt
  have hgroup := wf.attached_of_mem_ancestors attached (a := g) (by
    rw [up]
    simp)
  refine ⟨t, g, row, hrg, hcr, hg, fun {pre post x y} list => ?_⟩
  have mem : ∀ z ∈ (d.rowsOf g).flatten, z ∈ d.tableCells t := fun z hz => by
    rw [tableCells_eq_flatMap]
    exact List.mem_flatMap.2 ⟨g, hgt, hz⟩
  have sorted := wf.pairwise_rowsOf hgroup
  rw [list] at sorted
  exact ⟨ht, mem x (by simp [list]), mem y (by simp [list]),
    (List.pairwise_cons.1 (List.pairwise_append.1 sorted).2.1).1 y (by simp),
    wf.not_caret_between hg hgroup list⟩

theorem neighbours_of_nextCell? (wf : d.WellFormed) (hc : d.kind? c = some .cell)
    (attached : root ∈ d.ancestors c) (h : d.nextCell? c = some n) : ∃ t, d.Neighbours t c n := by
  obtain ⟨t, g, row, hr, hcr, hg, neighbours⟩ := wf.exists_neighbours hc attached
  obtain ⟨pre, post, list⟩ := wf.nextCell?_eq_some hg hr hcr h
  exact ⟨t, neighbours list⟩

theorem neighbours_of_previousCell? (wf : d.WellFormed) (hc : d.kind? c = some .cell)
    (attached : root ∈ d.ancestors c) (h : d.previousCell? c = some n) :
    ∃ t, d.Neighbours t n c := by
  obtain ⟨t, g, row, hr, hcr, hg, neighbours⟩ := wf.exists_neighbours hc attached
  obtain ⟨pre, post, list⟩ := wf.previousCell?_eq_some hg hr hcr h
  exact ⟨t, neighbours list⟩

end WellFormed

namespace Neighbours

variable {b c : NodeId} {i j o q : Nat}

theorem ne (h : d.Neighbours t b c) : b ≠ c := h.apart.precedes.ne

/-- The first caret of the second cell is the closest one behind the end of the first. -/
theorem caretBehind (wf : d.WellFormed) (h : d.Neighbours t b c) (first : d.FirstCaret c q)
    (hi : d.elementEnd? b = some i) (hio : i ≤ o) (hoq : o < q) : d.CaretBehind o q := by
  refine ⟨hoq, first.caret, fun p hop hpq => ?_⟩
  obtain ⟨-, j, -, hj, -⟩ := h.apart
  by_cases hpj : p ≤ j
  · exact h.gap hi hj (by omega) hpj
  · by_contra caret
    have inside := (wf.holds_iff_between hj).1 first.holds
    have := first.first p (by simpa using caret) ((wf.holds_iff_between hj).2 ⟨by omega, by omega⟩)
    omega

/-- The last caret of the first cell is the closest one before the start of the second. -/
theorem caretBefore (wf : d.WellFormed) (h : d.Neighbours t b c) (last : d.LastCaret b q)
    (hj : d.elementStart? c = some j) (hoj : o ≤ j) (hqo : q < o) : d.CaretBefore o q := by
  refine ⟨hqo, last.caret, fun p hqp hpo => ?_⟩
  obtain ⟨i, -, hi, -, -⟩ := h.apart
  by_cases hip : i ≤ p
  · exact h.gap hi hj hip (by omega)
  · by_contra caret
    obtain ⟨s, hs, rfl⟩ := Option.map_eq_some_iff.1 hi
    have inside := (wf.holds_iff_between hs).1 last.holds
    have := last.last p (by simpa using caret) ((wf.holds_iff_between hs).2 ⟨by omega, by omega⟩)
    omega

end Neighbours

/-! ## Folding -/

/-- Offset `p` is in the cell `x` and `q` is in another cell `y` of the table `t`. -/
structure Separated (d : Document L) (t x y : NodeId) (p q : Nat) : Prop where
  table : d.kind? t = some .table
  mem_left : x ∈ d.tableCells t
  mem_right : y ∈ d.tableCells t
  ne : x ≠ y
  left : d.Holds x p
  right : d.Holds y q

/-- The closest caret before offset `s`, which is `p`, is in a cell `x` that ends there, and `q` is in
another cell of the same table. -/
structure Exits (d : Document L) (s q : Nat) (t x y : NodeId) (p : Nat) : Prop where
  separated : d.Separated t x y p q
  caret : d.CaretBefore s p
  ends : ∃ i, d.elementEnd? x = some i ∧ i ≤ s

/-- The closest caret behind offset `e`, which is `p`, is in a cell `x` that starts there, and `q` is in
another cell of the same table. -/
structure Enters (d : Document L) (e q : Nat) (t x y : NodeId) (p : Nat) : Prop where
  separated : d.Separated t x y p q
  caret : d.CaretBehind e p
  starts : ∃ j, d.elementStart? x = some j ∧ e ≤ j

/-- How the earlier end `p` of a selection has come to the offset `q`: ahead if it leans forward, if
there is no caret before it, or if the caret before it is in a cell that ends before it. -/
abbrev MovedStart (d : Document L) (p : Position) (q : Nat) : Prop :=
  d.Moved p.offset
    (fun q => (p.direction = .forward ∨ ∀ o < p.offset, d.isCaretOffset o = false) ∨
      ∃ t x y r, d.Exits p.offset q t x y r)
    (fun _ => p.direction = .backward ∨ ∀ o, p.offset < o → d.isCaretOffset o = false) q

/-- How the later end `p` of a selection has come to the offset `q`: back if it leans backward, if there
is no caret behind it, or if the caret behind it is in a cell that starts behind it. -/
abbrev MovedStop (d : Document L) (p : Position) (q : Nat) : Prop :=
  d.Moved p.offset (fun _ => p.direction = .forward ∨ ∀ o < p.offset, d.isCaretOffset o = false)
    (fun q => (p.direction = .backward ∨ ∀ o, p.offset < o → d.isCaretOffset o = false) ∨
      ∃ t x y r, d.Enters p.offset q t x y r) q

theorem foldForward_cases (raw p : Position) : d.foldForward raw p = p ∨ ∃ c n q,
    d.exitedCell? raw p = some c ∧ d.nextCell? c = some n ∧ d.firstCaret? n = some q ∧
      d.foldForward raw p = q := by
  unfold foldForward
  cases hc : d.exitedCell? raw p with
  | none => exact .inl rfl
  | some c =>
    cases hn : d.nextCell? c with
    | none => simp [hn]
    | some n =>
      cases hq : d.firstCaret? n with
      | none => simp [hn, hq]
      | some q => exact .inr ⟨c, n, q, rfl, hn, hq, by simp [hn, hq]⟩

theorem foldBackward_cases (raw p : Position) : d.foldBackward raw p = p ∨ ∃ c n q,
    d.enteredCell? raw p = some c ∧ d.previousCell? c = some n ∧ d.lastCaret? n = some q ∧
      d.foldBackward raw p = q := by
  unfold foldBackward
  cases hc : d.enteredCell? raw p with
  | none => exact .inl rfl
  | some c =>
    cases hn : d.previousCell? c with
    | none => simp [hn]
    | some n =>
      cases hq : d.lastCaret? n with
      | none => simp [hn, hq]
      | some q => exact .inr ⟨c, n, q, rfl, hn, hq, by simp [hn, hq]⟩

namespace WellFormed

/-- The nodes below the root that hold a position are the ancestors of its holder. -/
theorem mem_ancestors_holder (wf : d.WellFormed) {n : NodeId} (hn : n ≠ root) {p : Position} :
    n ∈ d.ancestors (d.holder p) ↔ d.Holds n p.offset := by
  rcases Nat.lt_or_ge d.lastOffset p.offset with hlt | hle
  · rw [holder, wf.elementAt_of_lastOffset_lt hlt,
      wf.ancestors_of_no_parent wf.root_lt_size wf.root_parent, List.mem_singleton]
    refine iff_of_false hn fun h => ?_
    have := wf.le_lastOffset_of_holds h
    omega
  · exact wf.mem_ancestors_elementAt hle

theorem ne_root_of_cell (wf : d.WellFormed) {c : NodeId} (hc : d.kind? c = some .cell) :
    c ≠ root := by
  rintro rfl
  rw [wf.root_kind] at hc
  cases hc

theorem cell_mem_ancestors_holder (wf : d.WellFormed) {c : NodeId} (hc : d.kind? c = some .cell)
    {p : Position} : c ∈ d.ancestors (d.holder p) ↔ d.Holds c p.offset :=
  wf.mem_ancestors_holder (wf.ne_root_of_cell hc)

/-- The last of the cells around a position that pass a test, from the innermost one on. -/
theorem cell_of_getLast?_takeWhile (wf : d.WellFormed) {p : Position} {test : NodeId → Bool}
    {c : NodeId} (h : (((d.ancestors (d.holder p)).filter (d.isKind · .cell)).takeWhile test).getLast? =
      some c) : d.kind? c = some .cell ∧ d.Holds c p.offset ∧ test c = true := by
  have mem := List.mem_of_getLast? h
  obtain ⟨up, kind⟩ := List.mem_filter.1 ((List.takeWhile_sublist _).subset mem)
  have kind := isKind_iff.1 kind
  exact ⟨kind, (wf.cell_mem_ancestors_holder kind).1 up, List.mem_takeWhile_imp mem⟩

theorem exitedCell?_eq_some (wf : d.WellFormed) {raw p : Position} {c : NodeId}
    (h : d.exitedCell? raw p = some c) : d.kind? c = some .cell ∧ d.Holds c p.offset ∧
      ∃ i, d.elementEnd? c = some i ∧ i ≤ raw.offset := by
  obtain ⟨kind, holds, test⟩ := wf.cell_of_getLast?_takeWhile h
  exact ⟨kind, holds, by simpa [Option.any_eq_true] using test⟩

theorem enteredCell?_eq_some (wf : d.WellFormed) {raw p : Position} {c : NodeId}
    (h : d.enteredCell? raw p = some c) : d.kind? c = some .cell ∧ d.Holds c p.offset ∧
      ∃ j, d.elementStart? c = some j ∧ raw.offset ≤ j := by
  obtain ⟨kind, holds, test⟩ := wf.cell_of_getLast?_takeWhile h
  exact ⟨kind, holds, by simpa [Option.any_eq_true] using test⟩

/-- A position that is not before the raw one has not left a cell. -/
theorem foldForward_of_le (wf : d.WellFormed) {raw p : Position} (h : raw.offset ≤ p.offset) :
    d.foldForward raw p = p := by
  rcases foldForward_cases raw p with stays | ⟨c, n, q, hc, -⟩
  · exact stays
  · obtain ⟨-, holds, i, hi, hle⟩ := wf.exitedCell?_eq_some hc
    obtain ⟨j, hj, rfl⟩ := Option.map_eq_some_iff.1 hi
    have := (wf.holds_iff_between hj).1 holds
    omega

/-- A position that is not behind the raw one has not entered a cell. -/
theorem foldBackward_of_le (wf : d.WellFormed) {raw p : Position} (h : p.offset ≤ raw.offset) :
    d.foldBackward raw p = p := by
  rcases foldBackward_cases raw p with stays | ⟨c, n, q, hc, -⟩
  · exact stays
  · obtain ⟨-, holds, j, hj, hle⟩ := wf.enteredCell?_eq_some hc
    have := (wf.holds_iff_between hj).1 holds
    omega

theorem moved_foldForward (wf : d.WellFormed) (p : Position) :
    d.MovedStart p (d.foldForward p (d.nearestCaret p p.direction)).offset := by
  have nearest := d.moved_nearestCaret p
  generalize d.nearestCaret p p.direction = r at nearest ⊢
  rcases foldForward_cases p r with stays | ⟨c, n, q, hc, hn, hq, folded⟩
  · rw [stays]
    exact nearest.imp (fun _ => .inl) fun _ => id
  · rw [folded]
    obtain ⟨kind, holds, i, hi, hip⟩ := wf.exitedCell?_eq_some hc
    obtain ⟨t, pair⟩ := wf.neighbours_of_nextCell? kind (wf.root_mem_ancestors_of_holds holds) hn
    obtain ⟨-, j, -, hj, -⟩ := pair.apart
    have first := wf.firstCaret_of_eq_some (wf.attached_of_elementStart? hj) hq
    -- the nearest caret is in the cell, so it is before the position
    have back : r.offset < p.offset := by
      obtain ⟨s, hs, rfl⟩ := Option.map_eq_some_iff.1 hi
      have := (wf.holds_iff_between hs).1 holds
      omega
    generalize hr : r.offset = o at nearest
    cases nearest with
    | stays => omega
    | ahead _ next => have := next.lt; omega
    | nowhere => omega
    | back blank previous _ =>
      subst hr
      have behind : r.offset < q.offset := wf.lt_of_endsBefore pair.apart holds first.holds
      have hlt : p.offset < q.offset := by
        rcases Nat.lt_trichotomy p.offset q.offset with h | h | h
        · exact h
        · rw [h, first.caret] at blank
          cases blank
        · have := previous.le first.caret h
          omega
      exact .ahead blank (pair.caretBehind wf first hi hip hlt) (.inr ⟨t, c, n, r.offset,
        ⟨⟨pair.table, pair.mem_first, pair.mem_second, pair.ne, holds, first.holds⟩, previous, i, hi,
          hip⟩⟩)

theorem moved_foldBackward (wf : d.WellFormed) (p : Position) :
    d.MovedStop p (d.foldBackward p (d.nearestCaret p p.direction)).offset := by
  have nearest := d.moved_nearestCaret p
  generalize d.nearestCaret p p.direction = r at nearest ⊢
  rcases foldBackward_cases p r with stays | ⟨c, n, q, hc, hn, hq, folded⟩
  · rw [stays]
    exact nearest.imp (fun _ => id) fun _ => .inl
  · rw [folded]
    obtain ⟨kind, holds, j, hj, hpj⟩ := wf.enteredCell?_eq_some hc
    obtain ⟨t, pair⟩ :=
      wf.neighbours_of_previousCell? kind (wf.root_mem_ancestors_of_holds holds) hn
    obtain ⟨i, -, hi, -, -⟩ := pair.apart
    obtain ⟨s, hs, -⟩ := Option.map_eq_some_iff.1 hi
    have last := wf.lastCaret_of_eq_some (wf.attached_of_elementStart? hs) hq
    -- the nearest caret is in the cell, so it is behind the position
    have ahead : p.offset < r.offset := by
      have := (wf.holds_iff_between hj).1 holds
      omega
    generalize hr : r.offset = o at nearest
    cases nearest with
    | stays => omega
    | back _ previous => have := previous.lt; omega
    | nowhere => omega
    | ahead blank next _ =>
      subst hr
      have before : q.offset < r.offset := wf.lt_of_endsBefore pair.apart last.holds holds
      have hlt : q.offset < p.offset := by
        rcases Nat.lt_trichotomy q.offset p.offset with h | h | h
        · exact h
        · rw [← h, last.caret] at blank
          cases blank
        · have := next.le last.caret h
          omega
      exact .back blank (pair.caretBefore wf last hj hpj hlt) (.inr ⟨t, c, n, r.offset,
        ⟨⟨pair.table, pair.mem_second, pair.mem_first, pair.ne.symm, holds, last.holds⟩, next, j, hj,
          hpj⟩⟩)

/-- Where a caret may stand anywhere, both ends are moved to places for it. -/
theorem caret_normalizedEnds (wf : d.WellFormed) {o : Nat} (caret : d.isCaretOffset o = true)
    (a m : Position) : d.isCaretOffset (d.normalizedEnds a m).1.offset = true ∧
      d.isCaretOffset (d.normalizedEnds a m).2.offset = true := by
  unfold normalizedEnds
  split_ifs
  · exact ⟨(wf.moved_foldForward a).caret caret, (wf.moved_foldBackward m).caret caret⟩
  · exact ⟨(wf.moved_foldBackward a).caret caret, (wf.moved_foldForward m).caret caret⟩
  · exact ⟨(d.moved_nearestCaret a).caret caret, (d.moved_nearestCaret m).caret caret⟩

end WellFormed

end RichTable.Document
