import Mathlib
import RichTable.Proofs.Tree.Forest

/-!
# What writes do to a document

Every change of a document is a combination of five writes: `modifyCell`, `modifyTable`, `push`,
`attach` and `detach`. For each of them this file says what kind, parent, children, properties and
cached length of every node are afterwards, and that a well-formed document stays well-formed.
-/

namespace RichTable.Document

variable {L : Type} {d : Document L}

/-! ## Single nodes -/

theorem node?_modifyNode (id x : NodeId) (f : Node L → Node L) :
    (d.modifyNode id f).node? x = if x = id then (d.node? x).map f else d.node? x := by
  simp only [node?, modifyNode, Array.getElem?_modify, eq_comm]

@[simp]
theorem size_modifyNode (id : NodeId) (f : Node L → Node L) : (d.modifyNode id f).size = d.size := by
  simp [size, modifyNode]

/-- What a change of one node keeps of that node, it keeps of all nodes. -/
theorem view_node?_modifyNode {α : Type} (view : Option (Node L) → α) (id x : NodeId)
    (f : Node L → Node L) (h : ∀ n, view (some (f n)) = view (some n)) :
    view ((d.modifyNode id f).node? x) = view (d.node? x) := by
  rw [node?_modifyNode]
  split
  · cases d.node? x with
    | none => rfl
    | some n => exact h n
  · rfl

theorem parent?_modifyNode (id x : NodeId) (f : Node L → Node L)
    (h : ∀ n, (f n).parent = n.parent) : (d.modifyNode id f).parent? x = d.parent? x :=
  view_node?_modifyNode (·.bind Node.parent) id x f h

theorem children_modifyNode (id x : NodeId) (f : Node L → Node L)
    (h : ∀ n, (f n).children = n.children) : (d.modifyNode id f).children x = d.children x :=
  view_node?_modifyNode (fun n => (n.map Node.children).getD []) id x f h

theorem contentLength_modifyNode (id x : NodeId) (f : Node L → Node L)
    (h : ∀ n, (f n).contentLength = n.contentLength) :
    (d.modifyNode id f).contentLength x = d.contentLength x :=
  view_node?_modifyNode (fun n => (n.map Node.contentLength).getD 0) id x f h

theorem payload?_modifyNode (id x : NodeId) (f : Node L → Node L)
    (h : ∀ n, (f n).payload = n.payload) : (d.modifyNode id f).payload? x = d.payload? x :=
  view_node?_modifyNode (·.map Node.payload) id x f fun n => congrArg some (h n)

/-! ## Properties of cells and tables -/

section Properties

variable (id x : NodeId) (f : CellProps L → CellProps L) (g : TableProps L → TableProps L)

@[simp] theorem size_modifyCell : (d.modifyCell id f).size = d.size := size_modifyNode _ _

@[simp] theorem size_modifyTable : (d.modifyTable id g).size = d.size := size_modifyNode _ _

@[simp] theorem parent?_modifyCell : (d.modifyCell id f).parent? x = d.parent? x :=
  parent?_modifyNode _ _ _ fun n => by split <;> rfl

@[simp] theorem parent?_modifyTable : (d.modifyTable id g).parent? x = d.parent? x :=
  parent?_modifyNode _ _ _ fun n => by split <;> rfl

@[simp] theorem children_modifyCell : (d.modifyCell id f).children x = d.children x :=
  children_modifyNode _ _ _ fun n => by split <;> rfl

@[simp] theorem children_modifyTable : (d.modifyTable id g).children x = d.children x :=
  children_modifyNode _ _ _ fun n => by split <;> rfl

@[simp] theorem contentLength_modifyCell :
    (d.modifyCell id f).contentLength x = d.contentLength x :=
  contentLength_modifyNode _ _ _ fun n => by split <;> rfl

@[simp] theorem contentLength_modifyTable :
    (d.modifyTable id g).contentLength x = d.contentLength x :=
  contentLength_modifyNode _ _ _ fun n => by split <;> rfl

theorem payload?_modifyCell : (d.modifyCell id f).payload? x =
    (d.payload? x).map fun p => match p with
      | .cell props => .cell (if x = id then f props else props)
      | p => p := by
  unfold payload? modifyCell
  rw [node?_modifyNode]
  by_cases h : x = id
  · subst h
    cases hn : d.node? x with
    | none => simp
    | some n => cases hp : n.payload <;> simp [hp]
  · cases hn : d.node? x with
    | none => simp [h]
    | some n => cases hp : n.payload <;> simp [h, hp]

theorem payload?_modifyTable : (d.modifyTable id g).payload? x =
    (d.payload? x).map fun p => match p with
      | .table props => .table (if x = id then g props else props)
      | p => p := by
  unfold payload? modifyTable
  rw [node?_modifyNode]
  by_cases h : x = id
  · subst h
    cases hn : d.node? x with
    | none => simp
    | some n => cases hp : n.payload <;> simp [hp]
  · cases hn : d.node? x with
    | none => simp [h]
    | some n => cases hp : n.payload <;> simp [h, hp]

/-- What does not look at the properties of a cell does not change with them. -/
theorem view_payload?_modifyCell {α : Type} (view : Option (Payload L) → α)
    (h : ∀ props, view (some (.cell (f props))) = view (some (.cell props))) :
    view ((d.modifyCell id f).payload? x) = view (d.payload? x) := by
  rw [payload?_modifyCell]
  cases d.payload? x with
  | none => rfl
  | some p =>
    cases p with
    | cell props =>
      simp only [Option.map_some]
      split
      · exact h props
      · rfl
    | _ => rfl

theorem view_payload?_modifyTable {α : Type} (view : Option (Payload L) → α)
    (h : ∀ props, view (some (.table (g props))) = view (some (.table props))) :
    view ((d.modifyTable id g).payload? x) = view (d.payload? x) := by
  rw [payload?_modifyTable]
  cases d.payload? x with
  | none => rfl
  | some p =>
    cases p with
    | table props =>
      simp only [Option.map_some]
      split
      · exact h props
      · rfl
    | _ => rfl

@[simp] theorem kind?_modifyCell : (d.modifyCell id f).kind? x = d.kind? x :=
  view_payload?_modifyCell id x f (·.map Payload.kind) fun _ => rfl

@[simp] theorem kind?_modifyTable : (d.modifyTable id g).kind? x = d.kind? x :=
  view_payload?_modifyTable id x g (·.map Payload.kind) fun _ => rfl

theorem cell?_modifyCell :
    (d.modifyCell id f).cell? x = (d.cell? x).map fun props => if x = id then f props else props := by
  unfold cell?
  rw [payload?_modifyCell]
  cases d.payload? x with
  | none => rfl
  | some p => cases p <;> rfl

@[simp] theorem cell?_modifyTable : (d.modifyTable id g).cell? x = d.cell? x := by
  unfold cell?
  rw [payload?_modifyTable]
  cases d.payload? x with
  | none => rfl
  | some p => cases p <;> rfl

@[simp] theorem table?_modifyCell : (d.modifyCell id f).table? x = d.table? x := by
  unfold table?
  rw [payload?_modifyCell]
  cases d.payload? x with
  | none => rfl
  | some p => cases p <;> rfl

theorem table?_modifyTable :
    (d.modifyTable id g).table? x = (d.table? x).map fun props => if x = id then g props else props := by
  unfold table?
  rw [payload?_modifyTable]
  cases d.payload? x with
  | none => rfl
  | some p => cases p <;> rfl

@[simp] theorem text?_modifyCell : (d.modifyCell id f).text? x = d.text? x := by
  unfold text?
  rw [payload?_modifyCell]
  cases d.payload? x with
  | none => rfl
  | some p => cases p <;> rfl

@[simp] theorem text?_modifyTable : (d.modifyTable id g).text? x = d.text? x := by
  unfold text?
  rw [payload?_modifyTable]
  cases d.payload? x with
  | none => rfl
  | some p => cases p <;> rfl

@[simp] theorem ownLength_modifyCell : (d.modifyCell id f).ownLength x = d.ownLength x :=
  view_payload?_modifyCell id x f (fun p => (p.map Payload.ownLength).getD 0) fun _ => rfl

@[simp] theorem ownLength_modifyTable : (d.modifyTable id g).ownLength x = d.ownLength x :=
  view_payload?_modifyTable id x g (fun p => (p.map Payload.ownLength).getD 0) fun _ => rfl

end Properties

theorem cell?_isSome {id : NodeId} : (d.cell? id).isSome ↔ d.kind? id = some .cell := by
  unfold cell? kind?
  cases d.payload? id with
  | none => simp
  | some p => cases p <;> simp [Payload.kind]

theorem table?_isSome {id : NodeId} : (d.table? id).isSome ↔ d.kind? id = some .table := by
  unfold table? kind?
  cases d.payload? id with
  | none => simp
  | some p => cases p <;> simp [Payload.kind]

theorem exists_cell? {id : NodeId} (h : d.kind? id = some .cell) : ∃ props, d.cell? id = some props :=
  Option.isSome_iff_exists.1 (cell?_isSome.2 h)

theorem exists_table? {id : NodeId} (h : d.kind? id = some .table) :
    ∃ props, d.table? id = some props :=
  Option.isSome_iff_exists.1 (table?_isSome.2 h)

theorem kind?_of_cell? {id : NodeId} {props : CellProps L} (h : d.cell? id = some props) :
    d.kind? id = some .cell :=
  cell?_isSome.1 (by simp [h])

theorem kind?_of_table? {id : NodeId} {props : TableProps L} (h : d.table? id = some props) :
    d.kind? id = some .table :=
  table?_isSome.1 (by simp [h])

/-- Documents that look alike are well-formed together. -/
theorem WellFormed.of_alike {e : Document L} (wf : d.WellFormed)
    (kind : ∀ x, e.kind? x = d.kind? x) (parent : ∀ x, e.parent? x = d.parent? x)
    (children : ∀ x, e.children x = d.children x) (own : ∀ x, e.ownLength x = d.ownLength x)
    (length : ∀ x, e.contentLength x = d.contentLength x) : e.WellFormed where
  root_kind := by rw [kind, wf.root_kind]
  root_parent := by rw [parent, wf.root_parent]
  mem_children := by simp only [children, parent, wf.mem_children, implies_true]
  nodup p := by rw [children]; exact wf.nodup p
  ranked := by
    obtain ⟨rank, hr⟩ := wf.ranked
    exact ⟨rank, fun c p h => hr c p (parent c ▸ h)⟩
  accepts h := by
    simp only [parent, kind] at h ⊢
    exact wf.accepts h
  length id := by
    have : e.symbolLength = d.symbolLength := funext fun x => by rw [symbolLength, length]; rfl
    rw [length, own, children, this, wf.length]

theorem WellFormed.modifyCell (wf : d.WellFormed) (id : NodeId) (f : CellProps L → CellProps L) :
    (d.modifyCell id f).WellFormed :=
  wf.of_alike (by simp) (by simp) (by simp) (by simp) (by simp)

theorem WellFormed.modifyTable (wf : d.WellFormed) (id : NodeId)
    (f : TableProps L → TableProps L) : (d.modifyTable id f).WellFormed :=
  wf.of_alike (by simp) (by simp) (by simp) (by simp) (by simp)

/-! ## New nodes -/

theorem node?_push (p : Payload L) (x : NodeId) :
    (d.push p).node? x =
      if x = d.size then some { payload := p, contentLength := p.ownLength } else d.node? x := by
  simp only [node?, push, size, Array.getElem?_push]
  rfl

@[simp]
theorem size_push (p : Payload L) : (d.push p).size = d.size + 1 := by simp [size, push]

theorem payload?_push (p : Payload L) (x : NodeId) :
    (d.push p).payload? x = if x = d.size then some p else d.payload? x := by
  unfold payload?
  rw [node?_push]
  split <;> rfl

theorem kind?_push (p : Payload L) (x : NodeId) :
    (d.push p).kind? x = if x = d.size then some p.kind else d.kind? x := by
  unfold kind?
  rw [payload?_push]
  split <;> rfl

theorem parent?_size : d.parent? d.size = none := by
  unfold parent?
  rw [node?_eq_none.2 le_rfl]
  rfl

theorem children_size : d.children d.size = [] := by
  unfold children
  rw [node?_eq_none.2 le_rfl]
  rfl

@[simp]
theorem parent?_push (p : Payload L) (x : NodeId) : (d.push p).parent? x = d.parent? x := by
  by_cases h : x = d.size
  · subst h
    simp [parent?, node?_push, node?_eq_none.2 (le_refl d.size)]
  · simp [parent?, node?_push, h]

@[simp]
theorem children_push (p : Payload L) (x : NodeId) : (d.push p).children x = d.children x := by
  by_cases h : x = d.size
  · subst h
    simp [children, node?_push, node?_eq_none.2 (le_refl d.size)]
  · simp [children, node?_push, h]

theorem cell?_push (p : Payload L) (x : NodeId) (h : x ≠ d.size) :
    (d.push p).cell? x = d.cell? x := by
  simp [cell?, payload?_push, h]

theorem table?_push (p : Payload L) (x : NodeId) (h : x ≠ d.size) :
    (d.push p).table? x = d.table? x := by
  simp [table?, payload?_push, h]

theorem text?_push (p : Payload L) (x : NodeId) (h : x ≠ d.size) :
    (d.push p).text? x = d.text? x := by
  simp [text?, payload?_push, h]

theorem contentLength_push (p : Payload L) (x : NodeId) :
    (d.push p).contentLength x = if x = d.size then p.ownLength else d.contentLength x := by
  unfold contentLength
  rw [node?_push]
  split <;> rfl

theorem ownLength_push (p : Payload L) (x : NodeId) :
    (d.push p).ownLength x = if x = d.size then p.ownLength else d.ownLength x := by
  unfold ownLength
  rw [payload?_push]
  split <;> rfl

theorem WellFormed.push (wf : d.WellFormed) (p : Payload L) : (d.push p).WellFormed where
  root_kind := by rw [kind?_push, if_neg wf.root_lt_size.ne, wf.root_kind]
  root_parent := by rw [parent?_push, wf.root_parent]
  mem_children := by simp only [children_push, parent?_push, wf.mem_children, implies_true]
  nodup x := by rw [children_push]; exact wf.nodup x
  ranked := by
    obtain ⟨rank, hr⟩ := wf.ranked
    exact ⟨rank, fun c q h => hr c q (parent?_push p c ▸ h)⟩
  accepts {c q} h := by
    rw [parent?_push] at h
    rw [kind?_push, kind?_push, if_neg (wf.lt_size_parent h).ne,
      if_neg (lt_size_of_parent? h).ne]
    exact wf.accepts h
  length id := by
    have old : ∀ c ∈ d.children id, (d.push p).symbolLength c = d.symbolLength c := fun c hc => by
      rw [symbolLength, contentLength_push, if_neg (wf.lt_size_child hc).ne]
      rfl
    rw [contentLength_push, ownLength_push, children_push, List.map_congr_left old]
    split
    · next h => simp [h, children_size]
    · exact wf.length id

/-! ## Cached lengths -/

section Resize

variable (id : NodeId) (f : Nat → Nat)

/-- What a change of one cached length keeps, a change of many keeps. -/
theorem view_resizeFrom {α : Type} (view : Document L → α)
    (h : ∀ d a, view (d.modifyNode a fun node => { node with contentLength := f node.contentLength }) =
      view d) : view (d.resizeFrom id f) = view d := by
  unfold resizeFrom
  generalize d.ancestors id = ids
  induction ids generalizing d with
  | nil => rfl
  | cons a ids ih => rw [List.foldl_cons, ih, h]

@[simp]
theorem size_resizeFrom : (d.resizeFrom id f).size = d.size :=
  view_resizeFrom id f size fun _ _ => size_modifyNode _ _

@[simp]
theorem payload?_resizeFrom (x : NodeId) : (d.resizeFrom id f).payload? x = d.payload? x :=
  view_resizeFrom id f (payload? · x) fun _ _ => payload?_modifyNode _ _ _ fun _ => rfl

@[simp]
theorem parent?_resizeFrom (x : NodeId) : (d.resizeFrom id f).parent? x = d.parent? x :=
  view_resizeFrom id f (parent? · x) fun _ _ => parent?_modifyNode _ _ _ fun _ => rfl

@[simp]
theorem children_resizeFrom (x : NodeId) : (d.resizeFrom id f).children x = d.children x :=
  view_resizeFrom id f (children · x) fun _ _ => children_modifyNode _ _ _ fun _ => rfl

theorem contentLength_resizeFrom (nodup : (d.ancestors id).Nodup) (x : NodeId) :
    (d.resizeFrom id f).contentLength x =
      if x ∈ d.ancestors id then f (d.contentLength x) else d.contentLength x := by
  have known : ∀ a ∈ d.ancestors id, a < d.size := fun a => lt_size_of_mem_ancestors
  unfold resizeFrom
  generalize d.ancestors id = ids at nodup known
  induction ids generalizing d with
  | nil => rfl
  | cons a ids ih =>
    obtain ⟨ha, nodup⟩ := List.nodup_cons.1 nodup
    have step : (d.modifyNode a fun node =>
        { node with contentLength := f node.contentLength }).contentLength x =
          if x = a then f (d.contentLength x) else d.contentLength x := by
      unfold contentLength
      rw [node?_modifyNode]
      split
      · next h =>
        obtain ⟨n, hn⟩ := Option.isSome_iff_exists.1 (node?_isSome.2 (h ▸ known a (by simp)))
        simp [hn]
      · rfl
    rw [List.foldl_cons, ih nodup fun b hb => by simpa using known b (by simp [hb]), step]
    rcases eq_or_ne x a with rfl | h
    · simp [ha]
    · simp [h]

end Resize

/-! ## Attaching -/

/-- The node `child` may be attached below `parent`. -/
structure Attachable (d : Document L) (parent child : NodeId) : Prop where
  accepts : ∃ kp kc, d.kind? parent = some kp ∧ d.kind? child = some kc ∧ kp.accepts kc
  free : d.parent? child = none
  not_root : child ≠ root
  acyclic : child ∉ d.ancestors parent

theorem attachError?_eq_none {p c : NodeId} : d.attachError? p c = none ↔ d.Attachable p c := by
  unfold attachError?
  constructor
  · intro h
    cases hp : d.kind? p with
    | none => simp [hp] at h
    | some kp =>
      cases hc : d.kind? c with
      | none => simp [hp, hc] at h
      | some kc =>
        simp only [hp, hc] at h
        split_ifs at h with h₁ h₂ h₃
        simp only [Bool.not_eq_true', Bool.not_eq_false] at h₁
        simp only [Bool.or_eq_true, not_or, beq_iff_eq, Bool.not_eq_true,
          Option.isSome_eq_false_iff, Option.isNone_iff_eq_none] at h₂
        exact ⟨⟨kp, kc, hp, hc, h₁⟩, h₂.1, h₂.2, by simpa using h₃⟩
  · rintro ⟨⟨kp, kc, hp, hc, ha⟩, hf, hr, hn⟩
    simp [hp, hc, ha, hf, hr, hn]

namespace Attachable

variable {p c : NodeId}

theorem parent_lt_size (h : d.Attachable p c) : p < d.size := by
  obtain ⟨kp, -, hp, -⟩ := h.accepts
  exact lt_size_of_kind? hp

theorem child_lt_size (h : d.Attachable p c) : c < d.size := by
  obtain ⟨-, kc, -, hc, -⟩ := h.accepts
  exact lt_size_of_kind? hc

end Attachable

/-- The document with the pointers between `p` and `c` set, and no length adjusted. -/
private def linked (d : Document L) (p : NodeId) (i : Nat) (c : NodeId) : Document L :=
  (d.modifyNode p fun node =>
      { node with children := node.children.insertIdx (min i node.children.length) c })
    |>.modifyNode c fun node => { node with parent := some p }

private theorem attach_eq (p : NodeId) (i : Nat) (c : NodeId) :
    d.attach p i c = (linked d p i c).resizeFrom p (· + d.symbolLength c) := rfl

private theorem size_linked (p : NodeId) (i : Nat) (c : NodeId) : (linked d p i c).size = d.size := by
  simp [linked]

private theorem parent?_linked {p : NodeId} {i : Nat} {c : NodeId} (h : c < d.size) (x : NodeId) :
    (linked d p i c).parent? x = if x = c then some p else d.parent? x := by
  rcases eq_or_ne x c with rfl | hx
  · have hn := Option.isSome_iff_exists.1 (node?_isSome.2 (show x < (d.modifyNode p fun node =>
      { node with children := node.children.insertIdx (min i node.children.length) x }).size by
        simpa using h))
    obtain ⟨n, hn⟩ := hn
    simp [linked, parent?, node?_modifyNode x, hn]
  · rw [if_neg hx, ← parent?_modifyNode (d := d) p x (fun node => { node with
      children := node.children.insertIdx (min i node.children.length) c }) fun _ => rfl]
    simp [linked, parent?, node?_modifyNode c, hx]

private theorem contentLength_linked (p : NodeId) (i : Nat) (c x : NodeId) :
    (linked d p i c).contentLength x = d.contentLength x := by
  rw [linked, contentLength_modifyNode, contentLength_modifyNode] <;> exact fun _ => rfl

@[simp]
theorem size_attach (p : NodeId) (i : Nat) (c : NodeId) : (d.attach p i c).size = d.size := by
  rw [attach_eq, size_resizeFrom, size_linked]

@[simp]
theorem payload?_attach (p : NodeId) (i : Nat) (c x : NodeId) :
    (d.attach p i c).payload? x = d.payload? x := by
  rw [attach_eq, payload?_resizeFrom, linked, payload?_modifyNode, payload?_modifyNode] <;>
    exact fun _ => rfl

theorem parent?_attach {p : NodeId} {i : Nat} {c : NodeId} (h : c < d.size) (x : NodeId) :
    (d.attach p i c).parent? x = if x = c then some p else d.parent? x := by
  rw [attach_eq, parent?_resizeFrom, parent?_linked h]

theorem children_attach {p : NodeId} {i : Nat} {c : NodeId} (h : p < d.size) (x : NodeId) :
    (d.attach p i c).children x =
      if x = p then (d.children p).insertIdx (min i (d.children p).length) c else d.children x := by
  rw [attach_eq, children_resizeFrom, linked, children_modifyNode c x _ fun _ => by rfl]
  unfold children
  rw [node?_modifyNode]
  split
  · next hx =>
    subst hx
    obtain ⟨n, hn⟩ := Option.isSome_iff_exists.1 (node?_isSome.2 h)
    simp [hn]
  · rfl

theorem WellFormed.contentLength_attach (wf : d.WellFormed) {p c : NodeId} {i : Nat}
    (h : d.Attachable p c) (x : NodeId) : (d.attach p i c).contentLength x =
      if x ∈ d.ancestors p then d.contentLength x + d.symbolLength c else d.contentLength x := by
  -- The way up from `p` does not meet `c`, so it is the same before and after the pointers change.
  have same : (linked d p i c).ancestors p = d.ancestors p := by
    unfold ancestors
    rw [size_linked]
    refine chain_congr (size_linked _ _ _) fun a ha => ?_
    rw [parent?_linked h.child_lt_size, if_neg (ne_of_mem_of_not_mem ha h.acyclic)]
  rw [attach_eq, contentLength_resizeFrom _ _ (same ▸ wf.nodup_ancestors p), same,
    contentLength_linked]

@[simp]
theorem kind?_attach (p : NodeId) (i : Nat) (c x : NodeId) :
    (d.attach p i c).kind? x = d.kind? x := by
  simp [kind?]

@[simp]
theorem cell?_attach (p : NodeId) (i : Nat) (c x : NodeId) :
    (d.attach p i c).cell? x = d.cell? x := by
  simp [cell?]

@[simp]
theorem table?_attach (p : NodeId) (i : Nat) (c x : NodeId) :
    (d.attach p i c).table? x = d.table? x := by
  simp [table?]

@[simp]
theorem text?_attach (p : NodeId) (i : Nat) (c x : NodeId) :
    (d.attach p i c).text? x = d.text? x := by
  simp [text?]

@[simp]
theorem ownLength_attach (p : NodeId) (i : Nat) (c x : NodeId) :
    (d.attach p i c).ownLength x = d.ownLength x := by
  simp [ownLength]

theorem mem_children_attach {p : NodeId} {i : Nat} {c : NodeId} (h : p < d.size) {x y : NodeId} :
    y ∈ (d.attach p i c).children x ↔ y ∈ d.children x ∨ (x = p ∧ y = c) := by
  rw [children_attach h]
  rcases eq_or_ne x p with rfl | hx
  · simp [List.mem_insertIdx (Nat.min_le_right i _), or_comm]
  · simp [hx]

/-- Raising one summand raises the sum. -/
private theorem sum_map_of_raised {l : List NodeId} {f g : NodeId → Nat} {a k : Nat}
    (nodup : l.Nodup) (ha : a ∈ l) (raised : g a = f a + k) (rest : ∀ y ∈ l, y ≠ a → g y = f y) :
    (l.map g).sum = (l.map f).sum + k := by
  induction l with
  | nil => cases ha
  | cons b l ih =>
    obtain ⟨hb, nodup⟩ := List.nodup_cons.1 nodup
    simp only [List.map_cons, List.sum_cons]
    rcases List.mem_cons.1 ha with rfl | ha
    · have same : l.map g = l.map f := List.map_congr_left fun y hy =>
        rest y (by simp [hy]) fun e => hb (e ▸ hy)
      rw [same, raised]
      omega
    · rw [rest b (by simp) fun e => hb (e ▸ ha), ih nodup ha fun y hy => rest y (by simp [hy])]
      omega

/-- Lengths that are raised by `k` on the way up from `p`, and nowhere else, raise the sum over the
children of every other node on the way up by `k`, and no other sum. -/
private theorem sum_children_of_raised (wf : d.WellFormed) {p : NodeId} {f g : NodeId → Nat}
    {k : Nat} (up : ∀ y ∈ d.ancestors p, g y = f y + k)
    (rest : ∀ y, y ∉ d.ancestors p → g y = f y) (x : NodeId) :
    ((d.children x).map g).sum =
      ((d.children x).map f).sum + if x ∈ d.ancestors p ∧ x ≠ p then k else 0 := by
  split
  · next h =>
    obtain ⟨y, hy, hyp⟩ := wf.exists_child_mem_ancestors h.1 h.2
    refine sum_map_of_raised (wf.nodup x) hy (up y hyp) fun z hz hne => rest z fun hzp => hne ?_
    refine wf.eq_of_depth_eq hzp hyp ?_
    rw [wf.depth_of_parent (wf.mem_children.1 hz), wf.depth_of_parent (wf.mem_children.1 hy)]
  · next h =>
    rw [Nat.add_zero]
    refine congrArg _ (List.map_congr_left fun y hy => rest y fun hyp => h ⟨?_, ?_⟩)
    · exact wf.parent_mem_ancestors hyp (wf.mem_children.1 hy)
    · rintro rfl
      exact wf.not_mem_ancestors_parent (wf.mem_children.1 hy) hyp

theorem WellFormed.attach (wf : d.WellFormed) {p c : NodeId} (h : d.Attachable p c) (i : Nat) :
    (d.attach p i c).WellFormed where
  root_kind := by rw [kind?_attach, wf.root_kind]
  root_parent := by rw [parent?_attach h.child_lt_size, if_neg h.not_root.symm, wf.root_parent]
  mem_children := by
    intro x y
    rw [mem_children_attach h.parent_lt_size, parent?_attach h.child_lt_size, wf.mem_children]
    rcases eq_or_ne y c with rfl | hy
    · simp [h.free, eq_comm]
    · simp [hy]
  nodup x := by
    rw [children_attach h.parent_lt_size]
    split
    · rw [(List.perm_insertIdx c _ (Nat.min_le_right i _)).nodup_iff, List.nodup_cons]
      refine ⟨fun hc => ?_, wf.nodup p⟩
      rw [wf.mem_children, h.free] at hc
      cases hc
    · exact wf.nodup x
  ranked := by
    obtain ⟨rank, hr⟩ := wf.ranked
    -- Everything at or below `c` moves behind `p`.
    refine ⟨fun x => rank x + if c ∈ d.ancestors x then rank p + 1 else 0, fun x q hq => ?_⟩
    rw [parent?_attach h.child_lt_size] at hq
    split at hq
    · next hx =>
      subst hx
      cases hq
      simp only [h.acyclic, if_false, wf.self_mem_ancestors h.child_lt_size, if_true]
      omega
    · next hx =>
      have := hr x q hq
      simp only [wf.mem_ancestors_of_parent hq, Ne.symm hx, false_or]
      split <;> omega
  accepts {x q} hq := by
    simp only [kind?_attach]
    rw [parent?_attach h.child_lt_size] at hq
    split at hq
    · next hx =>
      subst hx
      cases hq
      exact h.accepts
    · exact wf.accepts hq
  length x := by
    have sums := sum_children_of_raised wf (p := p) (f := d.symbolLength)
      (g := (d.attach p i c).symbolLength) (k := d.symbolLength c)
      (fun y hy => by simp only [symbolLength, wf.contentLength_attach h, if_pos hy]; omega)
      (fun y hy => by simp only [symbolLength, wf.contentLength_attach h, if_neg hy]) x
    rw [wf.contentLength_attach h, ownLength_attach, children_attach h.parent_lt_size, wf.length x]
    rcases eq_or_ne x p with rfl | hx
    · have new : (d.attach x i c).symbolLength c = d.symbolLength c := by
        rw [symbolLength, wf.contentLength_attach h, if_neg h.acyclic, symbolLength]
      rw [if_pos (wf.self_mem_ancestors h.parent_lt_size), if_pos rfl,
        ((List.perm_insertIdx c _ (Nat.min_le_right i _)).map _).sum_eq, List.map_cons,
        List.sum_cons, new, sums]
      simp
      omega
    · rw [if_neg hx, sums]
      simp only [hx, ne_eq, not_false_eq_true, and_true]
      split <;> omega

/-! ## Detaching -/

theorem WellFormed.symbolLength_le (wf : d.WellFormed) {x c : NodeId} (h : c ∈ d.children x) :
    d.symbolLength c ≤ d.contentLength x := by
  rw [wf.length x]
  have := List.single_le_sum (l := (d.children x).map d.symbolLength) (fun _ _ => Nat.zero_le _)
    (d.symbolLength c) (List.mem_map_of_mem h)
  omega

theorem WellFormed.contentLength_le (wf : d.WellFormed) {a x : NodeId} (h : a ∈ d.ancestors x) :
    d.contentLength x ≤ d.contentLength a := by
  induction x using wf.induct_up with
  | top x hx =>
    rw [wf.ancestors_of_no_parent (lt_size_of_ancestor h) hx, List.mem_singleton] at h
    rw [h]
  | step c p hp ih =>
    rcases (wf.mem_ancestors_of_parent hp).1 h with rfl | h
    · exact le_rfl
    · have := wf.symbolLength_le (wf.mem_children.2 hp)
      have := ih h
      unfold symbolLength at *
      omega

theorem detach_of_no_parent {id : NodeId} (h : d.parent? id = none) : d.detach id = d := by
  rw [detach, h]

/-- The document with the pointers between `p` and `id` cut, and no length adjusted. -/
private def unlinked (d : Document L) (p id : NodeId) : Document L :=
  (d.modifyNode p fun node => { node with children := node.children.filter (· != id) })
    |>.modifyNode id fun node => { node with parent := none }

private theorem detach_eq {p id : NodeId} (h : d.parent? id = some p) :
    d.detach id = (unlinked d p id).resizeFrom p (· - d.symbolLength id) := by
  rw [detach, h]
  rfl

private theorem size_unlinked (p id : NodeId) : (unlinked d p id).size = d.size := by
  simp [unlinked]

private theorem parent?_unlinked (p id x : NodeId) :
    (unlinked d p id).parent? x = if x = id then none else d.parent? x := by
  rcases eq_or_ne x id with rfl | hx
  · rw [if_pos rfl, unlinked, parent?, node?_modifyNode, if_pos rfl]
    cases (d.modifyNode p fun node => { node with
      children := node.children.filter (· != x) }).node? x <;> rfl
  · rw [if_neg hx, ← parent?_modifyNode (d := d) p x (fun node => { node with
      children := node.children.filter (· != id) }) fun _ => rfl]
    simp [unlinked, parent?, node?_modifyNode id, hx]

private theorem contentLength_unlinked (p id x : NodeId) :
    (unlinked d p id).contentLength x = d.contentLength x := by
  rw [unlinked, contentLength_modifyNode, contentLength_modifyNode] <;> exact fun _ => rfl

@[simp]
theorem size_detach (id : NodeId) : (d.detach id).size = d.size := by
  cases h : d.parent? id with
  | none => rw [detach_of_no_parent h]
  | some p => rw [detach_eq h, size_resizeFrom, size_unlinked]

@[simp]
theorem payload?_detach (id x : NodeId) : (d.detach id).payload? x = d.payload? x := by
  cases h : d.parent? id with
  | none => rw [detach_of_no_parent h]
  | some p =>
    rw [detach_eq h, payload?_resizeFrom, unlinked, payload?_modifyNode, payload?_modifyNode] <;>
      exact fun _ => rfl

@[simp]
theorem kind?_detach (id x : NodeId) : (d.detach id).kind? x = d.kind? x := by simp [kind?]

@[simp]
theorem cell?_detach (id x : NodeId) : (d.detach id).cell? x = d.cell? x := by simp [cell?]

@[simp]
theorem table?_detach (id x : NodeId) : (d.detach id).table? x = d.table? x := by simp [table?]

@[simp]
theorem text?_detach (id x : NodeId) : (d.detach id).text? x = d.text? x := by simp [text?]

@[simp]
theorem ownLength_detach (id x : NodeId) : (d.detach id).ownLength x = d.ownLength x := by
  simp [ownLength]

theorem parent?_detach (id x : NodeId) :
    (d.detach id).parent? x = if x = id then none else d.parent? x := by
  cases h : d.parent? id with
  | none =>
    rw [detach_of_no_parent h]
    split
    · next hx => rw [hx, h]
    · rfl
  | some p => rw [detach_eq h, parent?_resizeFrom, parent?_unlinked]

theorem WellFormed.children_detach (wf : d.WellFormed) (id x : NodeId) :
    (d.detach id).children x = (d.children x).filter (· != id) := by
  -- Elsewhere than below the parent there is nothing to filter out.
  have other : d.parent? id ≠ some x → (d.children x).filter (· != id) = d.children x := fun h =>
    List.filter_eq_self.2 fun y hy => by
      simp only [bne_iff_ne]
      rintro rfl
      exact h (wf.mem_children.1 hy)
  cases h : d.parent? id with
  | none => rw [detach_of_no_parent h, other (by simp [h])]
  | some p =>
    rw [detach_eq h, children_resizeFrom, unlinked, children_modifyNode id x _ fun _ => by rfl]
    rcases eq_or_ne x p with rfl | hx
    · unfold children
      rw [node?_modifyNode, if_pos rfl]
      cases d.node? x <;> rfl
    · rw [other (by simpa [h] using hx.symm)]
      unfold children
      rw [node?_modifyNode, if_neg hx]

theorem WellFormed.contentLength_detach (wf : d.WellFormed) {p id : NodeId}
    (h : d.parent? id = some p) (x : NodeId) : (d.detach id).contentLength x =
      if x ∈ d.ancestors p then d.contentLength x - d.symbolLength id else d.contentLength x := by
  have same : (unlinked d p id).ancestors p = d.ancestors p := by
    unfold ancestors
    rw [size_unlinked]
    refine chain_congr (size_unlinked _ _) fun a ha => ?_
    rw [parent?_unlinked, if_neg (ne_of_mem_of_not_mem ha (wf.not_mem_ancestors_parent h))]
  rw [detach_eq h, contentLength_resizeFrom _ _ (same ▸ wf.nodup_ancestors p), same,
    contentLength_unlinked]

theorem WellFormed.detach (wf : d.WellFormed) (id : NodeId) : (d.detach id).WellFormed := by
  cases h : d.parent? id with
  | none => rwa [detach_of_no_parent h]
  | some p =>
    have hid : id ∈ d.children p := wf.mem_children.2 h
    refine ⟨?_, ?_, ?_, ?_, ?_, ?_, ?_⟩
    · rw [kind?_detach, wf.root_kind]
    · rw [parent?_detach, wf.root_parent, ite_self]
    · intro x y
      rw [wf.children_detach, parent?_detach, List.mem_filter, wf.mem_children]
      rcases eq_or_ne y id with rfl | hy
      · simp
      · simp [hy]
    · intro x
      rw [wf.children_detach]
      exact (wf.nodup x).filter _
    · obtain ⟨rank, hr⟩ := wf.ranked
      refine ⟨rank, fun c q hq => hr c q ?_⟩
      rw [parent?_detach] at hq
      split at hq
      · cases hq
      · exact hq
    · intro c q hq
      rw [parent?_detach] at hq
      split at hq
      · cases hq
      · simpa using wf.accepts hq
    · intro x
      have enough : ∀ y ∈ d.ancestors p, d.symbolLength id ≤ d.contentLength y := fun y hy =>
        (wf.symbolLength_le hid).trans (wf.contentLength_le hy)
      have sums := sum_children_of_raised wf (p := p) (f := (d.detach id).symbolLength)
        (g := d.symbolLength) (k := d.symbolLength id)
        (fun y hy => by
          have := enough y hy
          simp only [symbolLength, wf.contentLength_detach h, if_pos hy] at this ⊢
          omega)
        (fun y hy => by simp only [symbolLength, wf.contentLength_detach h, if_neg hy]) x
      have self : (d.detach id).symbolLength id = d.symbolLength id := by
        rw [symbolLength, wf.contentLength_detach h,
          if_neg (wf.not_mem_ancestors_parent h), symbolLength]
      have total := wf.length x
      rw [sums] at total
      rw [wf.contentLength_detach h, ownLength_detach, wf.children_detach]
      rcases eq_or_ne x p with rfl | hx
      · have split : ((d.children x).map (d.detach id).symbolLength).sum =
            d.symbolLength id +
              (((d.children x).filter (· != id)).map (d.detach id).symbolLength).sum := by
          have perm : (d.children x).Perm (id :: (d.children x).filter (· != id)) := by
            rw [← (wf.nodup x).erase_eq_filter]
            exact List.perm_cons_erase hid
          rw [(perm.map _).sum_eq, List.map_cons, List.sum_cons, self]
        rw [if_pos (wf.self_mem_ancestors (wf.lt_size_parent h))]
        simp at total
        omega
      · have keep : (d.children x).filter (· != id) = d.children x :=
          List.filter_eq_self.2 fun y hy => by
            simp only [bne_iff_ne]
            rintro rfl
            rw [wf.mem_children, h, Option.some.injEq] at hy
            exact hx hy.symm
        simp only [hx, ne_eq, not_false_eq_true, and_true] at total
        rw [keep]
        split_ifs at total ⊢ with hxp
        · omega
        · exact total

end RichTable.Document
