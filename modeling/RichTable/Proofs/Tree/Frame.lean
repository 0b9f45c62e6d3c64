import Mathlib
import RichTable.Grid.Query
import RichTable.Proofs.Action

/-!
# What an action leaves alone

`Frame C P d d'` says that the nodes of `d` are in `d'` what they were, except that the children of
the nodes in `C` and the properties of the cells and tables in `P` may have changed. New nodes are not
spoken of. `SameTree d d'` says that the two documents differ in properties of cells and tables only.

The smallest action that makes a cell is `copyCell`; `NewCell` says what it leaves behind, and
`NewCell.attach` what is there once the cell stands in its row.
-/

namespace RichTable.Document

variable {L : Type} {d d' d'' : Document L} {C P : NodeId → Prop}

/-- The nodes of `d` are in `d'` what they were, except for the children of nodes in `C` and the
properties of cells and tables in `P`. -/
structure Frame (C P : NodeId → Prop) (d d' : Document L) : Prop where
  size : d.size ≤ d'.size
  kind : ∀ x < d.size, d'.kind? x = d.kind? x
  text : ∀ x < d.size, d'.text? x = d.text? x
  table : ∀ x < d.size, ¬ P x → d'.table? x = d.table? x
  children : ∀ x < d.size, ¬ C x → d'.children x = d.children x
  cell : ∀ x < d.size, ¬ P x → d'.cell? x = d.cell? x
  parent : ∀ x < d.size, (∀ p, d.parent? x = some p → ¬ C p) → d'.parent? x = d.parent? x

namespace Frame

theorem refl (d : Document L) : Frame C P d d :=
  ⟨le_rfl, fun _ _ => rfl, fun _ _ => rfl, fun _ _ _ => rfl, fun _ _ _ => rfl, fun _ _ _ => rfl,
    fun _ _ _ => rfl⟩

theorem trans (h₁ : Frame C P d d') (h₂ : Frame C P d' d'') : Frame C P d d'' where
  size := h₁.size.trans h₂.size
  kind x hx := (h₂.kind x (hx.trans_le h₁.size)).trans (h₁.kind x hx)
  text x hx := (h₂.text x (hx.trans_le h₁.size)).trans (h₁.text x hx)
  table x hx hp := (h₂.table x (hx.trans_le h₁.size) hp).trans (h₁.table x hx hp)
  children x hx hc := (h₂.children x (hx.trans_le h₁.size) hc).trans (h₁.children x hx hc)
  cell x hx hp := (h₂.cell x (hx.trans_le h₁.size) hp).trans (h₁.cell x hx hp)
  parent x hx hc := by
    have e := h₁.parent x hx hc
    exact (h₂.parent x (hx.trans_le h₁.size) (by rwa [e])).trans e

theorem mono {C' P' : NodeId → Prop} (h : Frame C P d d') (hc : ∀ x < d.size, C x → C' x)
    (hp : ∀ x < d.size, P x → P' x) (wf : d.WellFormed) : Frame C' P' d d' where
  size := h.size
  kind := h.kind
  text := h.text
  table x hx hn := h.table x hx fun hP => hn (hp x hx hP)
  children x hx hn := h.children x hx fun hC => hn (hc x hx hC)
  cell x hx hn := h.cell x hx fun hP => hn (hp x hx hP)
  parent x hx hn := h.parent x hx fun p e hC => hn p e (hc p (wf.lt_size_parent e) hC)

/-- The way up from a node is kept if it does not meet `C` behind its start. -/
theorem ancestors (h : Frame C P d d') (wf : d.WellFormed) (wf' : d'.WellFormed) {x : NodeId}
    (hx : x < d.size) (hc : ∀ p ∈ d.ancestors x, p ≠ x → ¬ C p) :
    d'.ancestors x = d.ancestors x := by
  induction x using wf.induct_up with
  | top x hp =>
    have e := h.parent x hx (by simp [hp])
    rw [wf.ancestors_of_no_parent hx hp, wf'.ancestors_of_no_parent (hx.trans_le h.size) (e.trans hp)]
  | step x p hp ih =>
    have hps := wf.lt_size_parent hp
    have hpx : p ≠ x := fun e => wf.not_mem_ancestors_parent hp (e ▸ wf.self_mem_ancestors hps)
    have up : ∀ q ∈ d.ancestors p, q ≠ x := fun q hq e => wf.not_mem_ancestors_parent hp (e ▸ hq)
    have hcp : ¬ C p := hc p ((wf.mem_ancestors_of_parent hp).2
      (.inr (wf.self_mem_ancestors hps))) hpx
    have e := h.parent x hx (by simpa [hp] using hcp)
    rw [wf.ancestors_of_parent hp, wf'.ancestors_of_parent (e.trans hp),
      ih hps fun q hq _ => hc q ((wf.mem_ancestors_of_parent hp).2 (.inr hq)) (up q hq)]

theorem of_modifyCell {id : NodeId} {f : CellProps L → CellProps L} (hp : P id) :
    Frame C P d (d.modifyCell id f) where
  size := by simp
  kind := by simp
  text := by simp
  table := by simp
  children := by simp
  cell x _ hx := by
    rw [cell?_modifyCell]
    simp [show x ≠ id from fun e => hx (e ▸ hp)]
  parent := by simp

theorem of_push {p : Payload L} : Frame C P d (d.push p) where
  size := by simp
  kind x hx := by rw [kind?_push, if_neg hx.ne]
  text x hx := text?_push _ _ hx.ne
  table x hx _ := table?_push _ _ hx.ne
  children := by simp
  cell x hx _ := cell?_push _ _ hx.ne
  parent := by simp

/-- Attaching a node that was not there before. -/
theorem of_attach {e : Document L} {p c : NodeId} {i : Nat} (h : Frame C P d e)
    (ha : e.Attachable p c) (hp : C p ∨ d.size ≤ p) (hc : d.size ≤ c) :
    Frame C P d (e.attach p i c) where
  size := by simpa using h.size
  kind x hx := by simpa using h.kind x hx
  text x hx := by simpa using h.text x hx
  table x hx hn := by simpa using h.table x hx hn
  children x hx hn := by
    have hxp : x ≠ p := by
      rintro rfl
      rcases hp with hp | hp
      · exact hn hp
      · exact absurd hx (Nat.not_lt.2 hp)
    rw [children_attach ha.parent_lt_size, if_neg hxp, h.children x hx hn]
  cell x hx hn := by simpa using h.cell x hx hn
  parent x hx hn := by
    rw [parent?_attach ha.child_lt_size, if_neg (hx.trans_le hc).ne, h.parent x hx hn]

theorem of_detach (wf : d.WellFormed) {id : NodeId} (hc : ∀ p, d.parent? id = some p → C p) :
    Frame C P d (d.detach id) where
  size := by simp
  kind := by simp
  text := by simp
  table := by simp
  children x _ hn := by
    rw [wf.children_detach]
    refine List.filter_eq_self.2 fun y hy => ?_
    simp only [bne_iff_ne]
    rintro rfl
    exact hn (hc x (wf.mem_children.1 hy))
  cell := by simp
  parent x _ hn := by
    rw [parent?_detach]
    split
    · next hx =>
      subst hx
      cases hp : d.parent? x with
      | none => rfl
      | some p => exact absurd (hc p hp) (hn p hp)
    · rfl

end Frame

/-! ## Properties only -/

/-- The documents differ in properties of cells and tables only. -/
structure SameTree (d d' : Document L) : Prop where
  size : d'.size = d.size
  kind : ∀ x, d'.kind? x = d.kind? x
  text : ∀ x, d'.text? x = d.text? x
  children : ∀ x, d'.children x = d.children x
  parent : ∀ x, d'.parent? x = d.parent? x
  contentLength : ∀ x, d'.contentLength x = d.contentLength x
  ownLength : ∀ x, d'.ownLength x = d.ownLength x

namespace SameTree

theorem refl (d : Document L) : SameTree d d :=
  ⟨rfl, fun _ => rfl, fun _ => rfl, fun _ => rfl, fun _ => rfl, fun _ => rfl, fun _ => rfl⟩

theorem trans (h₁ : SameTree d d') (h₂ : SameTree d' d'') : SameTree d d'' where
  size := h₂.size.trans h₁.size
  kind x := (h₂.kind x).trans (h₁.kind x)
  text x := (h₂.text x).trans (h₁.text x)
  children x := (h₂.children x).trans (h₁.children x)
  parent x := (h₂.parent x).trans (h₁.parent x)
  contentLength x := (h₂.contentLength x).trans (h₁.contentLength x)
  ownLength x := (h₂.ownLength x).trans (h₁.ownLength x)

theorem modifyCell (d : Document L) (id : NodeId) (f : CellProps L → CellProps L) :
    SameTree d (d.modifyCell id f) := by
  constructor <;> simp

theorem modifyTable (d : Document L) (id : NodeId) (f : TableProps L → TableProps L) :
    SameTree d (d.modifyTable id f) := by
  constructor <;> simp

theorem wellFormed (h : SameTree d d') (wf : d.WellFormed) : d'.WellFormed :=
  wf.of_alike h.kind h.parent h.children h.ownLength h.contentLength

theorem ancestors (h : SameTree d d') (x : NodeId) : d'.ancestors x = d.ancestors x := by
  rw [Document.ancestors, Document.ancestors, h.size]
  exact chain_congr h.size fun a _ => h.parent a

/-- A change of properties has the frame of the nodes that it has changed. -/
theorem frame (h : SameTree d d') (cell : ∀ x, ¬ P x → d'.cell? x = d.cell? x)
    (table : ∀ x, ¬ P x → d'.table? x = d.table? x) : Frame C P d d' where
  size := h.size.ge
  kind x _ := h.kind x
  text x _ := h.text x
  table x _ := table x
  children x _ _ := h.children x
  cell x _ := cell x
  parent x _ _ := h.parent x

end SameTree

/-! ## New cells -/

/-- The content of a new cell: one empty paragraph. -/
def Blank (d : Document L) (c : NodeId) : Prop :=
  ∃ b, d.children c = [b] ∧ d.kind? b = some .block ∧ d.children b = []

/-- Going from `d` to `d'` has made a detached blank cell `c` and nothing else. -/
structure NewCell (d d' : Document L) (c : NodeId) (props : CellProps L) : Prop where
  wf : d'.WellFormed
  frame : Frame (fun _ => False) (fun _ => False) d d'
  fresh : d.size ≤ c
  cell : d'.cell? c = some props
  free : d'.parent? c = none
  blank : d'.Blank c

namespace NewCell

variable {c : NodeId} {props : CellProps L}

theorem modifyCell (h : NewCell d d' c props) (f : CellProps L → CellProps L) :
    NewCell d (d'.modifyCell c f) c (f props) where
  wf := h.wf.modifyCell _ _
  frame := by
    refine ⟨by simpa using h.frame.size, by simpa using h.frame.kind, by simpa using h.frame.text,
      by simpa using h.frame.table, by simpa using h.frame.children, fun x hx hn => ?_,
      by simpa using h.frame.parent⟩
    rw [cell?_modifyCell, h.frame.cell x hx hn]
    simp [(hx.trans_le h.fresh).ne]
  fresh := h.fresh
  cell := by simp [cell?_modifyCell, h.cell]
  free := by simp [h.free]
  blank := by
    obtain ⟨b, hb⟩ := h.blank
    exact ⟨b, by simpa using hb⟩

theorem lt_size (h : NewCell d d' c props) : c < d'.size := lt_size_of_kind? (kind?_of_cell? h.cell)

theorem attachable (h : NewCell d d' c props) (wf : d.WellFormed) {row : NodeId}
    (hr : d.kind? row = some .row) : d'.Attachable row c := by
  have hrow := lt_size_of_kind? hr
  refine ⟨⟨.row, .cell, ?_, kind?_of_cell? h.cell, rfl⟩, h.free, ?_, ?_⟩
  · rw [h.frame.kind row hrow, hr]
  · exact (wf.root_lt_size.trans_le h.fresh).ne'
  · rw [h.frame.ancestors wf h.wf hrow fun _ _ _ => id]
    exact fun hc => Nat.not_lt.2 h.fresh (lt_size_of_mem_ancestors hc)

end NewCell

/-- Going from `d` to `d'` has put a new blank cell `c` into a row, and changed nothing else. -/
structure CellInserted (d d' : Document L) (row : NodeId) (i : Nat) (c : NodeId)
    (props : CellProps L) : Prop where
  wf : d'.WellFormed
  frame : Frame (· = row) (fun _ => False) d d'
  fresh : d.size ≤ c
  cell : d'.cell? c = some props
  blank : d'.Blank c
  row : d'.children row = (d.children row).insertIdx (min i (d.children row).length) c

theorem NewCell.attach {c : NodeId} {props : CellProps L} (h : NewCell d d' c props)
    (wf : d.WellFormed) {row : NodeId} (hr : d.kind? row = some .row) (i : Nat) :
    CellInserted d (d'.attach row i c) row i c props := by
  have ha := h.attachable wf hr
  have hrow := lt_size_of_kind? hr
  have same : d'.children row = d.children row := h.frame.children row hrow id
  refine ⟨h.wf.attach ha i, ?_, h.fresh, by simpa using h.cell, ?_, ?_⟩
  · exact (h.frame.mono (fun _ _ => False.elim) (fun _ _ => id) wf).of_attach ha (.inl rfl) h.fresh
  · obtain ⟨b, hb, hk, he⟩ := h.blank
    have hcr : c ≠ row := (hrow.trans_le h.fresh).ne'
    have hbr : b ≠ row := by
      rintro rfl
      rw [h.frame.kind b hrow, hr] at hk
      cases hk
    refine ⟨b, ?_, by simpa using hk, ?_⟩
    · rw [children_attach ha.parent_lt_size, if_neg hcr, hb]
    · rw [children_attach ha.parent_lt_size, if_neg hbr, he]
  · rw [children_attach ha.parent_lt_size, if_pos rfl, same]

/-! ## Detaching several nodes -/

/-- `d'` is `d` with the nodes of a list detached. -/
structure Detached (d d' : Document L) (l : List NodeId) : Prop where
  wf : d'.WellFormed
  size : d'.size = d.size
  kind : ∀ x, d'.kind? x = d.kind? x
  text : ∀ x, d'.text? x = d.text? x
  table : ∀ x, d'.table? x = d.table? x
  cell : ∀ x, d'.cell? x = d.cell? x
  children : ∀ x, d'.children x = (d.children x).filter (· ∉ l)
  parent : ∀ x, d'.parent? x = if x ∈ l then none else d.parent? x

theorem Detached.frame {l : List NodeId} (h : Detached d d' l) (wf : d.WellFormed)
    (hC : ∀ x ∈ l, ∀ p, d.parent? x = some p → C p) : Frame C P d d' where
  size := h.size.ge
  kind x _ := h.kind x
  text x _ := h.text x
  table x _ _ := h.table x
  children x _ hn := by
    rw [h.children, List.filter_eq_self]
    intro y hy
    simpa using fun hl => hn (hC y hl x (wf.mem_children.1 hy))
  cell x _ _ := h.cell x
  parent x _ hn := by
    rw [h.parent]
    split_ifs with hl
    · cases hp : d.parent? x with
      | none => rfl
      | some p => exact absurd (hC x hl p hp) (hn p hp)
    · rfl

end RichTable.Document

namespace RichTable.Action

open Document

variable {L : Type} {d : Document L}

/-- A copy has the properties of its source, no column, and one empty paragraph. -/
theorem ensures_copyCell (wf : d.WellFormed) {source : NodeId} {props : CellProps L}
    (h : d.cell? source = some props) :
    Ensures (copyCell source) d fun c d' =>
      c = d.size ∧ NewCell d d' c { props with columnIndex := none } := by
  have wf₁ := wf.push (.cell { props with columnIndex := none })
  have wf₂ := wf₁.push .block
  have ha : ((d.push (.cell { props with columnIndex := none })).push .block).Attachable
      d.size (d.size + 1) := by
    refine ⟨⟨.cell, .block, ?_, ?_, rfl⟩, ?_, ?_, ?_⟩
    · simp [kind?_push, Payload.kind]
    · simp [kind?_push, Payload.kind]
    · simpa using parent?_size (d := d.push (.cell { props with columnIndex := none }))
    · exact Nat.succ_ne_zero _
    · have hp : ((d.push (.cell { props with columnIndex := none })).push .block).parent? d.size =
          none := by simp [parent?_size]
      rw [wf₂.ancestors_of_no_parent (by simp) hp]
      simp
  simp only [copyCell, appendParagraph, ensures_bind, ensures_requireCell h, ensures_create,
    ne_eq, not_true_eq_false, if_false, ensures_pure, size_push, ensures_appendChild ha]
  refine ⟨trivial, wf₂.attach ha _, ?_, le_rfl, ?_, ?_, d.size + 1, ?_, ?_, ?_⟩
  · exact (Frame.of_push.trans Frame.of_push).of_attach ha (.inr le_rfl) (Nat.le_succ _)
  · simp [cell?, payload?_push]
  · rw [parent?_attach ha.child_lt_size, if_neg (Nat.lt_succ_self _).ne]
    simp [parent?_size]
  · rw [children_attach ha.parent_lt_size]
    simp [children_size]
  · simp [kind?_push, Payload.kind]
  · rw [children_attach ha.parent_lt_size]
    simpa using children_size (d := d.push (.cell { props with columnIndex := none }))

theorem ensures_forM_detach (wf : d.WellFormed) (l : List NodeId) :
    Ensures (l.forM Action.detach) d fun _ d' => Detached d d' l := by
  induction l generalizing d with
  | nil =>
    exact ensures_pure.2 ⟨wf, rfl, fun _ => rfl, fun _ => rfl, fun _ => rfl, fun _ => rfl, by simp,
      by simp⟩
  | cons r l ih =>
    refine ensures_bind.2 (ensures_detach.2 ((ih (wf.detach r)).mono fun _ d' h => ?_))
    refine ⟨h.wf, by simpa using h.size, by simpa using h.kind, by simpa using h.text,
      by simpa using h.table, by simpa using h.cell, fun x => ?_, fun x => ?_⟩
    · rw [h.children, wf.children_detach, List.filter_filter]
      refine List.filter_congr fun y _ => ?_
      by_cases hy : y = r <;> simp [hy]
    · rw [h.parent, parent?_detach]
      by_cases hx : x = r <;> by_cases hl : x ∈ l <;> simp [hx, hl]

end RichTable.Action
