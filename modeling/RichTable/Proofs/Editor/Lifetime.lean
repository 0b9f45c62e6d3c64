import Mathlib
import RichTable.Proofs.Edit.Anchor
import RichTable.Proofs.Editor.Count
import RichTable.Proofs.Editor.Texts

/-!
# How long a table lasts

An edit may fail halfway, and a table need not be regular. Still, an edit never empties a row group
(`Carried`): merging keeps the first row of its rectangle, and deleting all rows of a row group deletes
the row group. The table itself goes when its only row group does (`Document.Removes`), and at no other
time. So a table has a row as long as it is there, unless it was built with an empty row group: with one
of these next to them, all rows can be deleted and the table stays.
-/

namespace RichTable

namespace Document

variable {L : Type} {d d' d'' : Document L} {t g : NodeId} {taken : List NodeId}

/-- A table below the root that has row groups. -/
structure Housed (d : Document L) (t : NodeId) : Prop where
  wf : d.WellFormed
  kind : d.kind? t = some .table
  parent : d.parent? t = some root
  groups : d.children t ≠ []

/-- The number of row groups without rows. -/
def emptyGroups (d : Document L) (t : NodeId) : Nat :=
  (d.children t).countP fun g => (d.children g).isEmpty

/-- The table, its row groups and its rows. -/
def InFrame (d : Document L) (t x : NodeId) : Prop :=
  x = t ∨ d.parent? x = some t ∨ ∃ g, d.parent? x = some g ∧ d.parent? g = some t

/-- The table is still there, and no row group has been added or emptied. -/
structure Carried (d d' : Document L) (t : NodeId) : Prop where
  housed : d'.Housed t
  group : ∀ g ∈ d'.children t, g ∈ d.children t
  row : ∀ g ∈ d'.children t, d.children g ≠ [] → d'.children g ≠ []

theorem Carried.emptyGroups_le (h : Carried d d' t) : d'.emptyGroups t ≤ d.emptyGroups t := by
  rw [emptyGroups, emptyGroups, List.countP_eq_length_filter, List.countP_eq_length_filter]
  refine (List.Nodup.subperm ((h.housed.wf.nodup t).filter _) fun g hg => ?_).length_le
  simp only [List.mem_filter, List.isEmpty_iff] at hg ⊢
  exact ⟨h.group g hg.1, by_contra fun hne => h.row g hg.1 hne hg.2⟩

/-- What an edit takes out leaves the table, a row group, and a row in each row group that has one. -/
structure Spares (d : Document L) (t : NodeId) (taken : List NodeId) : Prop where
  table : t ∉ taken
  group : ∃ g ∈ d.children t, g ∉ taken
  row : ∀ g ∈ d.children t, d.children g ≠ [] → ∃ row ∈ d.children g, row ∉ taken

theorem exists_mem_not_mem {α : Type} {l m : List α} (nodup : l.Nodup) (h : m.length < l.length) :
    ∃ x ∈ l, x ∉ m := by
  by_contra hall
  push Not at hall
  exact absurd (nodup.subperm hall).length_le (Nat.not_le.2 h)

namespace Housed

variable (h : d.Housed t)

include h

theorem anchors (taken : List NodeId) :
    Anchors (fun x => d.InFrame t x ∧ x ∉ taken) (fun p => p = t ∨ p = root) d where
  parent x hx := by
    obtain rfl | hp | ⟨g, hp, hg⟩ := hx.1
    · exact ⟨root, .other, h.parent, h.wf.root_kind, rfl⟩
    · exact ⟨t, .table, hp, h.kind, rfl⟩
    · exact ⟨g, .rowGroup, hp, h.wf.kind_group h.kind (h.wf.mem_children.2 hg), rfl⟩
  closed p hp := by
    rcases hp with rfl | rfl
    · exact ⟨.table, h.kind, rfl, by decide⟩
    · exact ⟨.other, h.wf.root_kind, rfl, by decide⟩

theorem spares_nil : d.Spares t [] := by
  refine ⟨by simp, ?_, fun g _ hne => ?_⟩
  · simpa using List.exists_mem_of_ne_nil _ h.groups
  · simpa using List.exists_mem_of_ne_nil _ hne

/-- Rows of one row group, but not all of them. -/
theorem spares_rows (hg : g ∈ d.children t) (rows : ∀ row ∈ taken, row ∈ d.children g)
    (short : taken ≠ [] → taken.length < (d.children g).length) : d.Spares t taken := by
  have hgk := h.wf.kind_group h.kind hg
  have other : ∀ {x k}, d.kind? x = some k → k ≠ .row → x ∉ taken := fun hx hk hmem => by
    rw [h.wf.kind_row hgk (rows _ hmem), Option.some.injEq] at hx
    exact hk hx.symm
  refine ⟨other h.kind (by decide), ⟨g, hg, other hgk (by decide)⟩, fun g' hg' hne => ?_⟩
  by_cases hempty : taken = []
  · subst hempty
    simpa using List.exists_mem_of_ne_nil _ hne
  by_cases heq : g' = g
  · subst heq
    exact exists_mem_not_mem (h.wf.nodup _) (short hempty)
  · obtain ⟨row, hrow⟩ := List.exists_mem_of_ne_nil _ hne
    refine ⟨row, hrow, fun hmem => heq ?_⟩
    have := (h.wf.mem_children.1 hrow).symm.trans (h.wf.mem_children.1 (rows row hmem))
    exact Option.some.inj this

/-- A row group, if there is another. -/
theorem spares_group (hg : g ∈ d.children t) (other : (d.children t).length ≠ 1) :
    d.Spares t [g] := by
  have hgk := h.wf.kind_group h.kind hg
  have hlen : [g].length < (d.children t).length := by
    have := List.length_pos_of_mem hg
    simp only [List.length_singleton]
    omega
  refine ⟨fun hmem => ?_, exists_mem_not_mem (h.wf.nodup t) hlen, fun g' hg' hne => ?_⟩
  · have hk := h.kind
    rw [List.mem_singleton.1 hmem, hgk] at hk
    cases hk
  · obtain ⟨row, hrow⟩ := List.exists_mem_of_ne_nil _ hne
    refine ⟨row, hrow, fun hmem => ?_⟩
    have hk := h.wf.kind_row (h.wf.kind_group h.kind hg') hrow
    rw [List.mem_singleton.1 hmem, hgk] at hk
    cases hk

theorem carried (spares : d.Spares t taken) (anchored :
    Anchored (fun x => d.InFrame t x ∧ x ∉ taken) (fun p => p = t ∨ p = root) d d') :
    Carried d d' t := by
  have stays : ∀ {x p}, d.parent? x = some p → d.InFrame t x → x ∉ taken → d'.parent? x = some p :=
    fun hp hx hn => (anchored.stays _ ⟨hx, hn⟩).trans hp
  have group : ∀ g ∈ d'.children t, g ∈ d.children t := fun g hg =>
    h.wf.mem_children.2 (anchored.closed t (.inl rfl) g (anchored.wf.mem_children.1 hg))
  refine ⟨⟨anchored.wf, anchored.kind_of_known h.kind, stays h.parent (.inl rfl) spares.table, ?_⟩,
    group, fun g hg hne => ?_⟩
  · obtain ⟨g, hg, hn⟩ := spares.group
    have hp := h.wf.mem_children.1 hg
    exact List.ne_nil_of_mem (anchored.wf.mem_children.2 (stays hp (.inr (.inl hp)) hn))
  · obtain ⟨row, hrow, hn⟩ := spares.row g (group g hg) hne
    have hp := h.wf.mem_children.1 hrow
    exact List.ne_nil_of_mem (anchored.wf.mem_children.2
      (stays hp (.inr (.inr ⟨g, hp, h.wf.mem_children.1 (group g hg)⟩)) hn))

end Housed

/-- The edit deletes all rows of a table with a single row group. -/
def Removes (d : Document L) (t : NodeId) (edit : Edit L) : Prop :=
  ∃ g last, edit = .deleteRows 0 last ∧ d.children t = [g] ∧ last + 1 = (d.children g).length

end Document

namespace EditorAction

open Document

variable {L α : Type} {e : Editor L} {t : NodeId}

theorem ends_onDocument {a : Action L α} {Q : α → Editor L → Prop} {E : EditError → Editor L → Prop} :
    Ends (onDocument a) e Q E ↔ Ends a e.doc (fun x d => Q x { e with doc := d })
      fun err d => E err { e with doc := d } := by
  rw [Ends, Ends, onDocument_run]
  rcases a.run.run e.doc with ⟨_ | x, d⟩ <;> rfl

theorem keeps_onDocument {I : Document L → Prop} {a : Action L α} (h : Keeps I a) :
    Keeps (fun e : Editor L => I e.doc) (onDocument a) := fun e he => ends_onDocument.2 (h e.doc he)

theorem keeps_touchIf {I : Document L → Prop} (done : Bool) (table : Option NodeId) :
    Keeps (fun e : Editor L => I e.doc) (touchIf done table) := fun _ he =>
  (ensures_touchIf fun e' he' => (he'.symm ▸ he : I e'.doc)).ends

/-- The end of most blocks: an action on the document that may be counted. -/
theorem ends_onDocument_touchIf {I : Document L → Prop} {a : Action L α} {done : α → Bool}
    {table : Option NodeId} (h : Ends a e.doc (fun _ => I) fun _ => I) :
    Ends (do
      let x ← onDocument a
      touchIf (done x) table
      return x) e (fun _ e' => I e'.doc) fun _ e' => I e'.doc :=
  ends_bind.2 <| ends_onDocument.2 <| h.mono (fun x d' hd =>
    ((keeps_touchIf (I := I) (done x) table).bind fun _ => keeps_pure x) { e with doc := d' } hd)
    fun _ _ => id

theorem keeps_commitDrag [Length L] {I : Document L → Prop} (drag : ColumnDrag L) (x : L)
    (h : ∀ d t widths, I d →
      I (d.modifyTable t fun props => { props with columns := widths })) :
    Keeps (fun e : Editor L => I e.doc) (commitDrag drag x) := by
  refine keeps_get_bind fun e he => ?_
  have hd : I (drag.commit e.doc x).2 := by
    rcases drag.commit_eq e.doc x with eq | ⟨widths, eq⟩ <;> rw [eq]
    · exact he
    · exact h _ _ _ he
  exact ends_bind.2 (ends_set.2 (((keeps_touchIf _ _).bind fun _ => keeps_pure _) _ hd))

variable [Length L]

section Anchored

variable {S T : NodeId → Prop} {d : Document L} (A : Anchors S T d)

include A

theorem keeps_insertColumns (selection : Segment) (count : Nat) (side : Side) :
    Keeps (fun e => Anchored S T d e.doc) (insertColumns selection count side) :=
  keeps_get.bind fun _ => fun e he => ends_onDocument_touchIf (A.insertColumns _ _ _ e.doc he)

theorem keeps_splitCell (selection : Segment) (horizontal vertical : Nat) :
    Keeps (fun e => Anchored S T d e.doc) (splitCell selection horizontal vertical) :=
  keeps_get.bind fun _ => fun e he => ends_onDocument_touchIf (A.splitCell _ _ _ e.doc he)

theorem keeps_deleteColumns (selection : Segment) :
    Keeps (fun e => Anchored S T d e.doc) (deleteColumns selection) := by
  refine keeps_get.bind fun e => ?_
  dsimp only
  split
  · exact keeps_pure _
  split
  · exact keeps_pure _
  refine (keeps_onDocument (Anchors.still (Action.still_place _))).bind fun _ => keeps_get.bind
    fun e' => ?_
  split
  · exact keeps_pure _
  · exact fun e he => ends_onDocument_touchIf (A.deleteColumns _ _ e.doc he)

theorem keeps_insertRowsAt (t row count : Nat) (side : Side) :
    Keeps (fun e => Anchored S T d e.doc) (insertRowsAt t row count side) := by
  refine keeps_get.bind fun e => ?_
  split
  · exact keeps_pure _
  · exact fun e he => ends_onDocument_touchIf (A.insertRows _ _ _ e.doc he)

omit A in
theorem keeps_resizeColumn (t column : Nat) (delta : L) :
    Keeps (fun e => Anchored S T d e.doc) (resizeColumn t column delta) := by
  refine keeps_get.bind fun e => ?_
  dsimp only
  split
  · exact keeps_pure _
  · exact keeps_commitDrag _ _ fun d t _ h => h.restyled (.modifyTable d t fun _ => rfl)

end Anchored

theorem ends_deleteRowRange (h : e.doc.Housed t) {first last : Nat}
    (stays : ¬ e.doc.Removes t (.deleteRows first last)) :
    Ends (deleteRowRange t first last) e (fun _ e' => Carried e.doc e'.doc t)
      fun _ e' => Carried e.doc e'.doc t := by
  have same : Carried e.doc e.doc t := ⟨h, fun _ => id, fun _ _ => id⟩
  refine ends_bind.2 (ends_get.2 ?_)
  split
  · exact same
  next g i j hloc =>
  rw [Editor.locateRows?] at hloc
  split_ifs at hloc with hle
  obtain ⟨pre, post, hgroups, hfirst, hlast, hj⟩ := locateIn_eq hloc (Nat.zero_le _) (by omega)
  have hg : g ∈ e.doc.children t := by simp [hgroups]
  -- the table has another row group if all rows of this one go
  have remains : i = 0 → j + 1 = (e.doc.children g).length → (e.doc.children t).length ≠ 1 := by
    intro hi hj' hone
    rw [hgroups] at hone
    obtain rfl : pre = [] := List.length_eq_zero_iff.1 (by simp at hone; omega)
    obtain rfl : post = [] := List.length_eq_zero_iff.1 (by simpa using hone)
    simp only [List.flatMap_nil, List.length_nil] at hfirst hlast
    exact stays ⟨g, last, by rw [hfirst, hi], hgroups, by omega⟩
  have done : ∀ {taken}, e.doc.Spares t taken →
      (i = 0 → j + 1 = (e.doc.children g).length → g ∈ taken) →
      (¬ (i = 0 ∧ j + 1 = (e.doc.children g).length) →
        ∀ row ∈ ((e.doc.children g).take (j + 1)).drop i, row ∈ taken) →
      Ends (Action.deleteRowInterval g i j) e.doc (fun _ d' => Carried e.doc d' t)
        fun _ d' => Carried e.doc d' t := fun {taken} spares group rows =>
    ((h.anchors taken).deleteRowInterval h.wf (h.wf.mem_children.1 hg)
      (fun hi hj hone => absurd hone (remains hi hj)) (fun hi hj hS => hS.2 (group hi hj))
      fun hp row hrow hS => hS.2 (rows hp row hrow)).mono
      (fun _ _ => h.carried spares) fun _ _ => h.carried spares
  refine ends_onDocument_touchIf (I := (e.doc.Carried · t)) ?_
  by_cases whole : i = 0 ∧ j + 1 = (e.doc.children g).length
  · exact done (h.spares_group hg (remains whole.1 whole.2)) (by simp) fun hp => absurd whole hp
  · refine done (h.spares_rows hg (fun row hrow => List.mem_of_mem_take (List.mem_of_mem_drop hrow))
      fun _ => ?_) (fun hi hj => absurd ⟨hi, hj⟩ whole) fun _ _ => id
    simp only [List.length_drop, List.length_take]
    omega

theorem ends_mergeRectangle (h : e.doc.Housed t) (rect : CellRect) :
    Ends (mergeRectangle t rect) e (fun _ e' => Carried e.doc e'.doc t)
      fun _ e' => Carried e.doc e'.doc t := by
  have same : Carried e.doc e.doc t := ⟨h, fun _ => id, fun _ _ => id⟩
  refine ends_bind.2 (ends_get.2 ?_)
  split
  · exact same
  next g i j hloc =>
  have hg := mem_of_locateRows? hloc
  have spares : e.doc.Spares t ((CellRect.rowsOf { rect with top := i, bottom := j }
      (e.doc.children g)).drop 1) := by
    refine h.spares_rows hg (fun row hrow => ?_) fun hne => ?_
    · exact List.mem_of_mem_take (List.mem_of_mem_drop (List.mem_of_mem_drop hrow))
    · have := List.length_pos_iff.2 hne
      simp only [CellRect.rowsOf, List.length_drop, List.length_take] at this ⊢
      omega
  refine ends_onDocument_touchIf (I := (e.doc.Carried · t)) ?_
  exact ((h.anchors _).mergeRect h.wf fun row hrow hS => hS.2 hrow).mono
    (fun _ _ => h.carried spares) fun _ _ => h.carried spares

/-- However an edit ends, the table is carried over unless all of its rows have been deleted. -/
theorem ends_apply_carried (h : e.doc.Housed t) {edit : Edit L} (stays : ¬ e.doc.Removes t edit) :
    Ends (apply t edit) e (fun _ e' => Carried e.doc e'.doc t) fun _ e' => Carried e.doc e'.doc t := by
  have A := h.anchors []
  have whole {α : Type} {a : EditorAction L α} (keeps : Keeps (fun e' => Anchored
      (fun x => e.doc.InFrame t x ∧ x ∉ []) (fun p => p = t ∨ p = root) e.doc e'.doc) a) :
      Ends a e (fun _ e' => Carried e.doc e'.doc t) fun _ e' => Carried e.doc e'.doc t :=
    (keeps e (.refl h.wf)).mono (fun _ _ => h.carried h.spares_nil) fun _ _ => h.carried h.spares_nil
  cases edit with
  | insertRows row count side =>
    exact whole ((keeps_insertRowsAt A t row count side).bind fun _ => keeps_pure _)
  | deleteRows first last => exact ends_deleteRowRange h stays
  | insertColumns column count side =>
    refine whole (keeps_get.bind fun e' => ?_)
    split
    · exact keeps_insertColumns A _ _ _
    · exact keeps_pure _
  | deleteColumns first last =>
    refine whole (keeps_get.bind fun e' => ?_)
    split
    · exact keeps_deleteColumns A _
    · exact keeps_pure _
  | merge rect =>
    exact ends_bind.2 ((ends_mergeRectangle h rect).mono (fun _ _ => id) fun _ _ => id)
  | split row column horizontal vertical =>
    refine whole (keeps_get.bind fun e' => ?_)
    split
    · exact (keeps_splitCell A _ _ _).bind fun _ => keeps_pure _
    · exact keeps_pure _
  | resizeColumn column delta => exact whole (keeps_resizeColumn t column delta)

/-- Deleting all rows of the only row group detaches the table. -/
theorem ensures_apply_of_removes (h : e.doc.Housed t) {edit : Edit L} (removes : e.doc.Removes t edit) :
    Ensures (apply t edit) e fun _ e' => e'.doc = e.doc.detach t := by
  obtain ⟨g, last, rfl, hgroups, hlast⟩ := removes
  have hg : g ∈ e.doc.children t := by simp [hgroups]
  refine ensures_bind.2 (ensures_get.2 ?_)
  have located : e.locateRows? t 0 last = some (g, 0, last) := by
    rw [Editor.locateRows?, if_neg (Nat.not_lt_zero _), hgroups, Editor.locateIn]
    simp [← hlast]
  rw [located]
  refine ensures_bind.2 (ensures_onDocument.2 (ensures_bind.2 ((Action.ensures_requireParent
    (h.wf.tableOf?_eq h.kind hg)).2 (ensures_bind.2 (ensures_get.2 ?_)))))
  rw [if_neg (by omega), if_pos ⟨rfl, hlast⟩]
  refine ensures_bind.2 (ensures_get.2 ?_)
  rw [if_pos (by simp [hgroups])]
  refine ensures_bind.2 (ensures_modify.2 (ensures_pure.2 (ensures_bind.2 ?_)))
  exact ensures_touchIf fun e' he' => ensures_pure.2 he'

end EditorAction

/-! ## Sessions -/

namespace Document

variable {L : Type} {d : Document L} {t : NodeId}

theorem count_outline {o : TableOutline L} (h : d.outline? t = some o) :
    o.groups.count [] = d.emptyGroups t := by
  obtain ⟨props, -, rfl⟩ := Option.map_eq_some_iff.1 h
  rw [emptyGroups, List.count_eq_countP, List.countP_map]
  refine List.countP_congr fun g _ => ?_
  simp [List.isEmpty_iff]

/-- What an edit that removes the table says about its description. -/
theorem removes_iff {o : TableOutline L} (h : d.outline? t = some o) (edit : Edit L) :
    d.Removes t edit ↔
      ∃ last, edit = .deleteRows 0 last ∧ o.groups.length = 1 ∧ last + 1 = o.rows.length := by
  obtain ⟨props, -, rfl⟩ := Option.map_eq_some_iff.1 h
  simp only [Removes, TableOutline.rows, List.length_map, List.length_flatten, List.map_map]
  constructor
  · rintro ⟨g, last, rfl, hg, hlast⟩
    exact ⟨last, rfl, by simp [hg], by simp [hg, hlast]⟩
  · rintro ⟨last, rfl, hone, hlast⟩
    obtain ⟨g, hg⟩ := List.length_eq_one_iff.1 hone
    exact ⟨g, last, rfl, hg, by simpa [hg] using hlast⟩

namespace Loaded

variable {config : Config L} {outline : TableOutline L}

theorem emptyGroups_eq (h : Loaded config outline d t) :
    d.emptyGroups t = outline.groups.count [] := by
  obtain ⟨b, wf, -, built, bordered⟩ := h
  have same := (wf.sameTree_placed t).trans bordered.same
  simp only [emptyGroups, same.children, List.count_eq_countP]
  obtain ⟨-, -, groups⟩ := built
  generalize b.children t = ids, outline.groups = rows at groups ⊢
  induction groups with
  | nil => rfl
  | cons hg _ ih =>
    have hlen := hg.2.length_eq
    rw [List.countP_cons, List.countP_cons, ih]
    simp only [List.isEmpty_iff, beq_iff_eq, ← List.length_eq_zero_iff, hlen]

theorem housed (h : Loaded config outline d t) (groups : outline.groups ≠ []) : d.Housed t := by
  refine ⟨h.wf, h.kind, h.parent, fun hnil => groups ?_⟩
  obtain ⟨b, wf, -, ⟨-, -, built⟩, bordered⟩ := h
  rw [bordered.same.children, (wf.sameTree_placed t).children] at hnil
  rw [hnil] at built
  exact List.forall₂_nil_left_iff.1 built

end Loaded

end Document

namespace Session

open Document

variable {L : Type} {s : Session L} {t : NodeId} {n : Nat}

/-- The session has a table with at most `n` empty row groups, or has lost it. -/
structure Houses (s : Session L) (t : NodeId) (n : Nat) : Prop where
  table : s.table = some t
  state : s.liveTable? = none ∨ s.editor.doc.Housed t ∧ s.editor.doc.emptyGroups t ≤ n

theorem liveTable?_of_housed (table : s.table = some t) (h : s.editor.doc.Housed t) :
    s.liveTable? = some t := by
  rw [liveTable?_eq h.wf table h.kind fun p hp => Option.some.inj (hp.symm.trans h.parent),
    if_pos h.parent]

theorem liveTable?_of_detached {d : Document L} (table : s.table = some t) (h : d.Housed t)
    (detached : s.editor.doc = d.detach t) : s.liveTable? = none := by
  have parent : s.editor.doc.parent? t = none := by
    rw [detached, parent?_detach, if_pos rfl]
  rw [liveTable?_eq (detached ▸ h.wf.detach t) table (by simpa [detached] using h.kind)
    (by simp [parent]), parent, if_neg nofun]

theorem exists_outline (table : s.table = some t) (h : s.editor.doc.Housed t) :
    ∃ o, s.outline? = some o ∧ s.editor.doc.outline? t = some o := by
  obtain ⟨props, hp⟩ := exists_table? h.kind
  rw [outline?, liveTable?_of_housed table h, Option.bind_some, Document.outline?, hp]
  exact ⟨_, rfl, rfl⟩

theorem outline?_of_not_live (gone : s.liveTable? = none) : s.outline? = none := by
  rw [outline?, gone, Option.bind_none]

variable [Length L]

theorem liveTable?_apply_of_removes (table : s.table = some t) (h : s.editor.doc.Housed t)
    {edit : Edit L} (removes : s.editor.doc.Removes t edit) : (s.apply edit).2.liveTable? = none := by
  obtain ⟨done, e', run, detached⟩ := EditorAction.ensures_apply_of_removes h removes
  rw [apply_of_live (liveTable?_of_housed table h), run]
  exact liveTable?_of_detached table h detached

theorem carried_apply (table : s.table = some t) (h : s.editor.doc.Housed t) {edit : Edit L}
    (stays : ¬ s.editor.doc.Removes t edit) :
    Carried s.editor.doc (s.apply edit).2.editor.doc t := by
  rw [apply_of_live (liveTable?_of_housed table h)]
  exact (EditorAction.ends_apply_carried h stays).state
    (I := fun e : Editor L => Carried s.editor.doc e.doc t)

theorem table_apply (s : Session L) (edit : Edit L) : (s.apply edit).2.table = s.table := by
  rw [apply]
  split <;> rfl

theorem Houses.apply (h : s.Houses t n) (edit : Edit L) : (s.apply edit).2.Houses t n := by
  refine ⟨(table_apply s edit).trans h.table, ?_⟩
  rcases h.state with gone | ⟨housed, few⟩
  · rw [apply_of_not_live gone]
    exact .inl gone
  by_cases removes : s.editor.doc.Removes t edit
  · exact .inl (liveTable?_apply_of_removes h.table housed removes)
  · have carried := carried_apply h.table housed removes
    exact .inr ⟨carried.housed, carried.emptyGroups_le.trans few⟩

theorem Houses.applyAll (h : s.Houses t n) (edits : List (Edit L)) : (s.applyAll edits).Houses t n := by
  induction edits generalizing s with
  | nil => exact h
  | cons edit edits ih => exact ih (h.apply edit)

/-- A session whose table has been loaded with a row, after any edits, whatever their answers were. As
long as there is a table, it has a row group, and no more of its row groups are empty than in the
beginning; if none was, it has a row. The table goes exactly when its only row group loses all of its
rows. -/
theorem table_lasts_until_last_row {outline : TableOutline L} (row : outline.rows ≠ [])
    {start : Session L} {edits : List (Edit L)} (reached : s = (start.load outline).2.applyAll edits) :
    (start.load outline).2.outline?.isSome = true ∧ ∀ o, s.outline? = some o →
      o.groups ≠ [] ∧ o.groups.count [] ≤ outline.groups.count [] ∧
      ([] ∉ outline.groups → o.rows ≠ []) ∧
      ∀ edit, (s.apply edit).2.outline? = none ↔
        ∃ last, edit = .deleteRows 0 last ∧ o.groups.length = 1 ∧ last + 1 = o.rows.length := by
  have groups : outline.groups ≠ [] := fun h => row (by rw [TableOutline.rows, h, List.flatten_nil])
  obtain ⟨s₀, t, load, table, loaded, -⟩ := start.exists_load outline
  rw [load] at reached ⊢
  have housed := loaded.housed groups
  obtain ⟨o₀, ho₀, -⟩ := exists_outline table housed
  refine ⟨by rw [ho₀]; rfl, fun o ho => ?_⟩
  have houses : s.Houses t (outline.groups.count []) :=
    reached ▸ Houses.applyAll ⟨table, .inr ⟨housed, loaded.emptyGroups_eq.le⟩⟩ edits
  rcases houses.state with gone | ⟨housed, few⟩
  · rw [outline?_of_not_live gone] at ho
    cases ho
  obtain ⟨o', ho', described⟩ := exists_outline houses.table housed
  obtain rfl := Option.some.inj (ho.symm.trans ho')
  rw [← count_outline described] at few
  have some_group : o.groups ≠ [] := by
    obtain ⟨props, -, rfl⟩ := Option.map_eq_some_iff.1 described
    simpa using housed.groups
  refine ⟨some_group, few, fun none_empty hrows => ?_, fun edit => ?_⟩
  · rw [List.count_eq_zero.2 none_empty, Nat.le_zero, List.count_eq_zero] at few
    obtain ⟨rows, hmem⟩ := List.exists_mem_of_ne_nil _ some_group
    exact few (List.flatten_eq_nil_iff.1 hrows rows hmem ▸ hmem)
  · rw [← removes_iff described]
    by_cases removes : s.editor.doc.Removes t edit
    · simp [outline?_of_not_live (liveTable?_apply_of_removes houses.table housed removes), removes]
    · have carried := carried_apply houses.table housed removes
      obtain ⟨o', ho', -⟩ := exists_outline ((table_apply s edit).trans houses.table) carried.housed
      simp [ho', removes]

/-- A row group whose rows do not fit together, and one that is regular. -/
def folio : TableOutline Int where
  groups := [[[{ text := "a" }, { text := "b" }], [{ text := "c" }]], [[{ text := "d" }, { text := "e" }]]]

/-- A session that has lost the first row group and got another row in the second. -/
def verso : Session Int :=
  ((ofConfig .standard).load folio).2.applyAll [.deleteRows 0 1, .insertRows 0 1 .after]

theorem table_lasts_until_last_row_verso : folio.rows ≠ [] ∧ ∃ o, verso.outline? = some o ∧
    o.rows ≠ [] ∧ (verso.apply (.deleteRows 0 0)).2.outline? ≠ none ∧
      (verso.apply (.deleteRows 0 1)).2.outline? = none := by
  have row : folio.rows ≠ [] := by decide
  obtain ⟨-, h⟩ := table_lasts_until_last_row (s := verso) row rfl
  have shown : verso.outline? = some
      { cellSpacing := some 0
        groups := [[[{ text := "d", columnIndex := some 0 }, { text := "e", columnIndex := some 1 }],
          [{ columnIndex := some 0 }, { columnIndex := some 1 }]]] } := by decide +kernel
  obtain ⟨-, -, rows, goes⟩ := h _ shown
  refine ⟨row, _, shown, rows (by decide), ?_, (goes _).2 ⟨1, rfl, rfl, rfl⟩⟩
  rw [ne_eq, goes]
  rintro ⟨last, heq, -, hlast⟩
  cases heq
  cases hlast

/-- An empty row group next to a row. -/
def gapped : TableOutline Int where
  groups := [[], [[{ text := "a" }]]]

/-- Next to an empty row group, the last row can be deleted and the table stays. -/
theorem outline_without_rows : gapped.rows ≠ [] ∧
    (((ofConfig .standard).load gapped).2.apply (.deleteRows 0 0)).1 = .ok true ∧
    (((ofConfig .standard).load gapped).2.apply (.deleteRows 0 0)).2.outline? =
      some { cellSpacing := some 0, groups := [[]] } := by
  decide +kernel

end Session

end RichTable
