import Mathlib
import RichTable.Grid.Outline
import RichTable.Proofs.Edit.Inherit

/-!
# Building a table from an outline

Every level of a table is built in the same way: a node is created, its children are built below it,
and it is attached. `BuiltOf` says that a node has children that correspond to a list, and
`ensures_createNode` that the action builds such a node. It is used for rows, row groups and the table;
cells, which hold one paragraph, are the base.
-/

namespace RichTable

/-- The properties of a cell that has been built from an outline. -/
def CellOutline.props {L : Type} (config : Config L) (c : CellOutline) : CellProps L where
  columnSpan := max c.columnSpan 1
  rowSpan := max c.rowSpan 1
  borders := .uniform config.borderThickness
  background := c.background

namespace Document

variable {L α : Type} {d d' d'' : Document L} {C P : NodeId → Prop} {K : Kind → Prop}

/-! ## New nodes -/

/-- Changes of nodes that are new do not count. -/
theorem Frame.trans_new {C' P' : NodeId → Prop} (h₁ : Frame C P d d') (h₂ : Frame C' P' d' d'')
    (wf : d.WellFormed) (wf' : d'.WellFormed) (hC : ∀ x, C' x → C x ∨ d.size ≤ x)
    (hP : ∀ x, P' x → P x ∨ d.size ≤ x) : Frame C P d d'' := by
  have old : ∀ {A : NodeId → Prop}, ∀ x < d.size, A x ∨ d.size ≤ x → A x := fun x hx h =>
    h.resolve_right (Nat.not_le.2 hx)
  refine Frame.mono (C := fun x => C x ∨ d.size ≤ x) (P := fun x => P x ∨ d.size ≤ x) ?_ old old wf
  exact (h₁.mono (fun _ _ => .inl) (fun _ _ => .inl) wf).trans
    (h₂.mono (fun x _ => hC x) (fun x _ => hP x) wf')

/-- The nodes of `d` are in `d'` what they were, except for the children of nodes in `C`. Unlike
`Frame`, it does not speak of parents. -/
structure Extends (C : NodeId → Prop) (d d' : Document L) : Prop where
  kind : ∀ x < d.size, d'.kind? x = d.kind? x
  text : ∀ x < d.size, d'.text? x = d.text? x
  table : ∀ x < d.size, d'.table? x = d.table? x
  cell : ∀ x < d.size, d'.cell? x = d.cell? x
  children : ∀ x < d.size, ¬ C x → d'.children x = d.children x

theorem Frame.extends (h : Frame C (fun _ => False) d d') : Extends C d d' :=
  ⟨h.kind, h.text, fun x hx => h.table x hx id, fun x hx => h.cell x hx id, h.children⟩

/-- Going from `d` to `d'` has made a detached node, and others below it. -/
structure NewNode (d d' : Document L) (n : NodeId) (k : Kind) : Prop where
  wf : d'.WellFormed
  frame : Frame (fun _ => False) (fun _ => False) d d'
  fresh : d.size ≤ n
  kind : d'.kind? n = some k
  free : d'.parent? n = none

/-- Going from `d` over `d₁` to `d'`, a new node has become the last child of `p`. -/
structure Appended (d d₁ d' : Document L) (p n : NodeId) : Prop where
  wf : d'.WellFormed
  frame : Frame (· = p) (fun _ => False) d d'
  extends_new : Extends (· = p) d₁ d'
  children : d'.children p = d.children p ++ [n]
  parent : d'.parent? n = some p

namespace NewNode

variable {n p : NodeId} {k kp : Kind}

theorem push (wf : d.WellFormed) (payload : Payload L) :
    NewNode d (d.push payload) d.size payload.kind where
  wf := wf.push payload
  frame := .of_push
  fresh := le_rfl
  kind := by simp [kind?_push]
  free := by simp [parent?_size]

theorem attachable (h : NewNode d d' n k) (wf : d.WellFormed) (hp : d.kind? p = some kp)
    (hk : kp.accepts k = true) : d'.Attachable p n := by
  have hlt := lt_size_of_kind? hp
  refine ⟨⟨kp, k, (h.frame.kind p hlt).trans hp, h.kind, hk⟩, h.free,
    (wf.root_lt_size.trans_le h.fresh).ne', ?_⟩
  rw [h.frame.ancestors wf h.wf hlt fun _ _ _ => id]
  exact fun hn => Nat.not_lt.2 h.fresh (lt_size_of_mem_ancestors hn)

/-- Attached at the end, the node is the last child. -/
theorem appended (h : NewNode d d' n k) (wf : d.WellFormed) (hp : d.kind? p = some kp)
    (hk : kp.accepts k = true) :
    Appended d d' (d'.attach p (d'.children p).length n) p n := by
  have ha := h.attachable wf hp hk
  have hlt := lt_size_of_kind? hp
  refine ⟨h.wf.attach ha _, ?_, ?_, ?_, ?_⟩
  · exact (h.frame.mono (fun _ _ => False.elim) (fun _ _ => id) wf).of_attach ha (.inl rfl) h.fresh
  · refine ⟨by simp, by simp, by simp, by simp, fun x _ hx => ?_⟩
    rw [children_attach ha.parent_lt_size, if_neg hx]
  · rw [children_attach ha.parent_lt_size, if_pos rfl, min_self, List.insertIdx_length_self,
      h.frame.children p hlt id]
  · rw [parent?_attach ha.child_lt_size, if_pos rfl]

end NewNode

/-! ## What has been built -/

/-- A paragraph with the given text. -/
def Paragraph (d : Document L) (b : NodeId) (text : String) : Prop :=
  d.kind? b = some .block ∧
    if text = "" then d.children b = []
    else ∃ r, d.children b = [r] ∧ d.text? r = some text

/-- A cell that has been built from an outline and not been placed. -/
def CellBuilt (config : Config L) (d : Document L) (n : NodeId) (c : CellOutline) : Prop :=
  d.cell? n = some (c.props config) ∧ ∃ b, d.children n = [b] ∧ d.Paragraph b c.text

/-- A node whose children correspond to a list. -/
def BuiltOf (k : Kind) (Built : Document L → NodeId → α → Prop) (d : Document L) (n : NodeId)
    (as : List α) : Prop :=
  d.kind? n = some k ∧ List.Forall₂ (Built d) (d.children n) as

/-- What has been built stays when nodes of the kinds `K` get other children. -/
def Stable (K : Kind → Prop) (Built : Document L → NodeId → α → Prop) : Prop :=
  ∀ ⦃d d' : Document L⦄ ⦃C : NodeId → Prop⦄ ⦃n : NodeId⦄ ⦃a : α⦄, d.WellFormed →
    Extends C d d' → (∀ x, C x → ∃ k, d.kind? x = some k ∧ K k) → Built d n a → Built d' n a

theorem Stable.not_of_kind {n : NodeId} {k : Kind}
    (hC : ∀ x, C x → ∃ k, d.kind? x = some k ∧ K k) (hn : d.kind? n = some k) (hk : ¬ K k) :
    ¬ C n := fun h => by
  obtain ⟨k', hk', hK⟩ := hC n h
  rw [hn, Option.some.injEq] at hk'
  exact hk (hk' ▸ hK)

theorem stable_cellBuilt (config : Config L) (h₁ : ¬ K .cell) (h₂ : ¬ K .block) :
    Stable K (CellBuilt config) := by
  rintro d d' C n a wf ext hC ⟨hcell, b, hb, hbk, htext⟩
  have hn := kind?_of_cell? hcell
  have hblt := lt_size_of_kind? hbk
  have same := ext.children b hblt (Stable.not_of_kind hC hbk h₂)
  refine ⟨by rw [ext.cell n (lt_size_of_kind? hn), hcell], b, ?_, ?_, ?_⟩
  · rw [ext.children n (lt_size_of_kind? hn) (Stable.not_of_kind hC hn h₁), hb]
  · rw [ext.kind b hblt, hbk]
  · split_ifs at htext ⊢ with he
    · rw [same, htext]
    · obtain ⟨r, hr, ht⟩ := htext
      have hlt := wf.lt_size_child (show r ∈ d.children b by simp [hr])
      exact ⟨r, by rw [same, hr], by rw [ext.text r hlt, ht]⟩

theorem Stable.builtOf {k : Kind} {Built : Document L → NodeId → α → Prop} (hk : ¬ K k)
    (stable : Stable K Built) : Stable K (BuiltOf k Built) := by
  rintro d d' C n as wf ext hC ⟨hn, hchildren⟩
  have hlt := lt_size_of_kind? hn
  refine ⟨(ext.kind n hlt).trans hn, ?_⟩
  rw [ext.children n hlt (Stable.not_of_kind hC hn hk)]
  exact hchildren.imp fun c a => stable wf ext hC

/-- A table that has been built from an outline and not been placed. -/
def TableBuilt (config : Config L) (d : Document L) (t : NodeId) (outline : TableOutline L) : Prop :=
  d.table? t = some
    { cellSpacing := outline.cellSpacing.getD config.cellSpacing, columns := outline.columns } ∧
  BuiltOf .table (BuiltOf .rowGroup (BuiltOf .row (CellBuilt config))) d t outline.groups

theorem BuiltOf.exists_of_mem {k : Kind} {Built : Document L → NodeId → α → Prop} {n c : NodeId}
    {as : List α} (h : BuiltOf k Built d n as) (hc : c ∈ d.children n) : ∃ a ∈ as, Built d c a := by
  obtain ⟨i, hi, rfl⟩ := List.mem_iff_getElem.1 hc
  have hlen := h.2.length_eq
  exact ⟨as[i], List.getElem_mem _, h.2.get hi (hlen ▸ hi)⟩

namespace TableBuilt

variable {config : Config L} {t : NodeId} {outline : TableOutline L}

theorem exists_of_mem (h : TableBuilt config d t outline) {c : NodeId} (hc : c ∈ d.tableCells t) :
    ∃ o, CellBuilt config d c o := by
  obtain ⟨row, hr, hcr⟩ := List.mem_flatMap.1 hc
  obtain ⟨g, hg, hrg⟩ := List.mem_flatMap.1 hr
  obtain ⟨rows, -, hrows⟩ := h.2.exists_of_mem hg
  obtain ⟨cells, -, hcells⟩ := hrows.exists_of_mem hrg
  obtain ⟨o, -, ho⟩ := hcells.exists_of_mem hcr
  exact ⟨o, ho⟩

theorem filled (h : TableBuilt config d t outline) : d.Filled t := by
  intro c hc
  obtain ⟨o, -, b, hb, hbk, -⟩ := h.exists_of_mem hc
  rw [HasParagraphs, hb]
  exact ⟨by simp, by simpa using hbk⟩

theorem spans (h : TableBuilt config d t outline) : ∀ c ∈ d.tableCells t, ∀ props,
    d.cell? c = some props → 1 ≤ props.columnSpan ∧ 1 ≤ props.rowSpan := by
  intro c hc props hp
  obtain ⟨o, ho, -⟩ := h.exists_of_mem hc
  obtain rfl := Option.some.inj (ho.symm.trans hp)
  exact ⟨Nat.le_max_right _ _, Nat.le_max_right _ _⟩

end TableBuilt

end Document

namespace Action

open Document

variable {L α : Type} {d : Document L} {p : NodeId} {k kp kc : Kind}

/-! ## The actions -/

theorem ensures_appendParagraph (wf : d.WellFormed) (hp : d.kind? p = some kp)
    (hk : kp.accepts .block = true) (text : String) :
    Ensures (appendParagraph p text) d fun b d' => ∃ d₁, NewNode d d₁ b .block ∧
      d₁.Paragraph b text ∧ d' = d₁.attach p (d₁.children p).length b := by
  have block := NewNode.push wf .block
  simp only [appendParagraph, ensures_bind, ensures_create]
  split_ifs with ht
  · simp only [ensures_bind, ensures_create]
    have hb : (d.push .block).kind? d.size = some .block := block.kind
    have run := NewNode.push block.wf (.inline text)
    rw [size_push] at run ⊢
    have hattach := run.attachable block.wf hb rfl
    have inner := run.appended block.wf hb rfl
    rw [ensures_appendChild hattach]
    have new : NewNode d _ d.size .block :=
      ⟨inner.wf, block.frame.trans_new inner.frame wf block.wf (fun x hx => .inr hx.ge) fun _ => .inl,
        le_rfl, (inner.frame.kind _ (by simp)).trans hb, by
          rw [inner.frame.parent _ (by simp) (by simp [block.free]), block.free]⟩
    rw [ensures_appendChild (new.attachable wf hp hk), ensures_pure]
    refine ⟨_, new, ⟨new.kind, ?_⟩, rfl⟩
    rw [if_neg ht]
    refine ⟨d.size + 1, ?_, ?_⟩
    · rw [inner.children]
      simp [children_size]
    · rw [inner.extends_new.text _ (by simp)]
      simp [text?, payload?_push]
  · rw [not_not] at ht
    simp only [ensures_bind, ensures_pure]
    rw [ensures_appendChild (block.attachable wf hp hk)]
    refine ⟨_, block, ⟨block.kind, ?_⟩, rfl⟩
    rw [if_pos ht]
    simp [children_size]

/-- Building below `p` makes a node for which `Built` holds, and appends it. -/
def Builds (build : Action L Unit) (Built : Document L → NodeId → Prop) (p : NodeId) (kc : Kind)
    (d : Document L) : Prop :=
  Ensures build d fun _ d' => ∃ n d₁, NewNode d d₁ n kc ∧ Built d₁ n ∧ Appended d d₁ d' p n

theorem builds_buildCell (wf : d.WellFormed) (hp : d.kind? p = some .row) (config : Config L)
    (c : CellOutline) :
    Builds (buildCell config p c) (CellBuilt config · · c) p .cell d := by
  have cell := NewNode.push wf (.cell (c.props config))
  simp only [Builds, buildCell, ensures_bind, ensures_create]
  refine (ensures_appendParagraph cell.wf cell.kind rfl c.text).mono ?_
  rintro b _ ⟨d₁, block, text, rfl⟩
  have inner := block.appended cell.wf cell.kind rfl
  have new : NewNode d _ d.size .cell :=
    ⟨inner.wf, cell.frame.trans_new inner.frame wf cell.wf (fun x hx => .inr hx.ge) fun _ => .inl,
      le_rfl, (inner.frame.kind _ (by simp)).trans cell.kind, by
        rw [inner.frame.parent _ (by simp) (by simp [cell.free]), cell.free]⟩
  rw [ensures_appendChild (new.attachable wf hp rfl)]
  refine ⟨d.size, _, new, ⟨?_, b, ?_, ?_⟩, new.appended wf hp rfl⟩
  · rw [inner.frame.cell _ (by simp) id]
    simp [cell?, payload?_push]
  · rw [inner.children]
    simp [children_size]
  · obtain ⟨hbk, hb⟩ := text
    have hne : b ≠ d.size := fun e => by
      have := block.fresh
      rw [size_push] at this
      exact absurd e (Nat.lt_of_succ_le this).ne'
    have hblt := lt_size_of_kind? hbk
    have same := inner.extends_new.children b hblt hne
    refine ⟨(inner.extends_new.kind b hblt).trans hbk, ?_⟩
    split_ifs at hb ⊢
    · rw [same, hb]
    · obtain ⟨r, hr, htext⟩ := hb
      refine ⟨r, by rw [same, hr], ?_⟩
      rw [inner.extends_new.text r (block.wf.lt_size_child (by simp [hr] : r ∈ d₁.children b)), htext]

variable {Built : Document L → NodeId → α → Prop} {build : NodeId → α → Action L Unit}

/-- Building the children of a node one after the other. -/
theorem ensures_forM_build (step : ∀ (d : Document L) n a, d.WellFormed → d.kind? n = some k →
      Builds (build n a) (Built · · a) n kc d)
    (stable : Stable (· = k) Built) {n : NodeId} (as : List α) (wf : d.WellFormed)
    (hn : d.kind? n = some k) (empty : d.children n = []) :
    Ensures (as.forM (build n)) d fun _ d' => d'.WellFormed ∧
      Frame (· = n) (fun _ => False) d d' ∧ BuiltOf k Built d' n as := by
  refine (Ensures.forM (I := fun rest e => e.WellFormed ∧ Frame (· = n) (fun _ => False) d e ∧
    ∃ done, as = done ++ rest ∧ BuiltOf k Built e n done)
    (fun a rest e ⟨wfe, frame, done, hsplit, hbuilt⟩ => ?_) as d ⟨wf, .refl d, [], rfl, hn, by simp [empty]⟩).mono ?_
  · refine (step e n a wfe hbuilt.1).mono ?_
    rintro _ e' ⟨c, e₁, new, built, app⟩
    have hlt := lt_size_of_kind? hbuilt.1
    have hne : ∀ x, x = n → ∃ k', e.kind? x = some k' ∧ k' = k := fun x hx => ⟨k, hx ▸ hbuilt.1, rfl⟩
    have hne₁ : ∀ x, x = n → ∃ k', e₁.kind? x = some k' ∧ k' = k := fun x hx =>
      ⟨k, by rw [hx, new.frame.kind n hlt, hbuilt.1], rfl⟩
    refine ⟨app.wf, frame.trans app.frame, done ++ [a], by simp [hsplit],
      (app.frame.kind n hlt).trans hbuilt.1, ?_⟩
    rw [app.children]
    refine List.rel_append (hbuilt.2.imp fun x b => stable wfe app.frame.extends hne) ?_
    exact .cons (stable new.wf app.extends_new hne₁ built) .nil
  · rintro _ e ⟨wfe, frame, done, hsplit, hbuilt⟩
    rw [List.append_nil] at hsplit
    exact ⟨wfe, frame, hsplit ▸ hbuilt⟩

/-- Creating a node and building its children. -/
theorem ensures_createNode (step : ∀ (d : Document L) n a, d.WellFormed → d.kind? n = some k →
      Builds (build n a) (Built · · a) n kc d)
    (stable : Stable (· = k) Built) {payload : Payload L} (hk : payload.kind = k) (as : List α)
    (wf : d.WellFormed) :
    Ensures (as.forM (build d.size)) (d.push payload) fun _ d₁ => NewNode d d₁ d.size k ∧
      Frame (· = d.size) (fun _ => False) (d.push payload) d₁ ∧ BuiltOf k Built d₁ d.size as := by
  have new := NewNode.push wf payload
  rw [hk] at new
  refine (ensures_forM_build step stable as new.wf new.kind (by simp [children_size])).mono ?_
  rintro _ d₁ ⟨wf₁, frame, built⟩
  refine ⟨⟨wf₁, new.frame.trans_new frame wf new.wf (fun x hx => .inr hx.ge) fun _ => .inl, le_rfl,
    built.1, ?_⟩, frame, built⟩
  rw [frame.parent _ (by simp) (by simp [new.free]), new.free]

theorem builds_buildRow (config : Config L) (cells : List CellOutline) (wf : d.WellFormed)
    (hp : d.kind? p = some .rowGroup) :
    Builds (buildRow config p cells) (BuiltOf .row (CellBuilt config) · · cells) p .row d := by
  simp only [Builds, buildRow, ensures_bind, ensures_create]
  refine (ensures_createNode (fun d n c wf hn => builds_buildCell wf hn config c)
    (stable_cellBuilt config (by decide) (by decide)) (k := .row) rfl cells wf).mono ?_
  rintro _ d₁ ⟨new, -, built⟩
  rw [ensures_appendChild (new.attachable wf hp rfl)]
  exact ⟨_, d₁, new, built, new.appended wf hp rfl⟩

theorem builds_buildGroup (config : Config L) (rows : List (List CellOutline)) (wf : d.WellFormed)
    (hp : d.kind? p = some .table) :
    Builds (buildGroup config p rows) (BuiltOf .rowGroup (BuiltOf .row (CellBuilt config)) · · rows)
      p .rowGroup d := by
  simp only [Builds, buildGroup, ensures_bind, ensures_create]
  refine (ensures_createNode (fun d n c wf hn => builds_buildRow config c wf hn)
    (.builtOf (by decide) (stable_cellBuilt config (by decide) (by decide))) (k := .rowGroup) rfl rows
    wf).mono ?_
  rintro _ d₁ ⟨new, -, built⟩
  rw [ensures_appendChild (new.attachable wf hp rfl)]
  exact ⟨_, d₁, new, built, new.appended wf hp rfl⟩

/-- Building a table from an outline, at the end of a container. -/
theorem ensures_buildTable (config : Config L) (outline : TableOutline L) (wf : d.WellFormed)
    (hp : d.kind? p = some .other) :
    Ensures (buildTable config p outline) d fun t d' => d'.WellFormed ∧ d'.parent? t = some p ∧
      d'.children p = d.children p ++ [t] ∧ TableBuilt config d' t outline := by
  simp only [buildTable, ensures_bind, ensures_create]
  have stable : ∀ {K : Kind → Prop}, ¬ K .rowGroup → ¬ K .row → ¬ K .cell → ¬ K .block →
      Stable K (BuiltOf .rowGroup (BuiltOf .row (CellBuilt config))) := fun h₁ h₂ h₃ h₄ =>
    .builtOf h₁ (.builtOf h₂ (stable_cellBuilt config h₃ h₄))
  refine (ensures_createNode (fun d n c wf hn => builds_buildGroup config c wf hn)
    (stable (by decide) (by decide) (by decide) (by decide)) (k := .table) rfl outline.groups wf).mono ?_
  rintro _ d₁ ⟨new, frame, built⟩
  rw [ensures_appendChild (new.attachable wf hp rfl), ensures_pure]
  have app := new.appended wf hp rfl
  have hp₁ : ∀ x, x = p → ∃ k, d₁.kind? x = some k ∧ k = .other := fun x hx =>
    ⟨.other, by rw [hx, new.frame.kind p (lt_size_of_kind? hp), hp], rfl⟩
  refine ⟨app.wf, app.parent, app.children, ?_, ?_⟩
  · rw [app.extends_new.table _ (lt_size_of_kind? new.kind), frame.table _ (by simp) id]
    simp [table?, payload?_push]
  · exact Stable.builtOf (by decide) (stable (by decide) (by decide) (by decide) (by decide))
      new.wf app.extends_new hp₁ built

end Action

end RichTable
