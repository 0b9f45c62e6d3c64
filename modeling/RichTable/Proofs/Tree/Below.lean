import Mathlib
import RichTable.Proofs.Tree.Caret
import RichTable.Proofs.Tree.Lines

/-!
# What is below a node

Texts, content and places for the caret are found by walking down the tree. `SameBelow d e id` says
that the walk from `id` meets the same nodes in both documents; so it finds the same
(`SameBelow.plainText`, `SameBelow.hasContent`, `SameBelow.caretless_iff`). A walk for the caret fails
only below a node that is not attached or has no place for it (`WellFormed.firstCaret?_eq_none`).
-/

namespace RichTable

theorem findSome?_congr {α β : Type} {f g : α → Option β} {l : List α} (h : ∀ a ∈ l, f a = g a) :
    l.findSome? f = l.findSome? g := by
  induction l with
  | nil => rfl
  | cons a l ih =>
    rw [List.findSome?_cons, List.findSome?_cons, h a (by simp), ih fun x hx => h x (by simp [hx])]

namespace Document

variable {L : Type} {d e : Document L} {id : NodeId}

/-- At `id` and below, `e` has the nodes and the texts of `d`. -/
def SameBelow (d e : Document L) (id : NodeId) : Prop :=
  ∀ x, id ∈ d.ancestors x →
    e.children x = d.children x ∧ e.kind? x = d.kind? x ∧ e.text? x = d.text? x

/-! ## One step down -/

theorem appendText_succ (d : Document L) (fuel : Nat) (id : NodeId) (out : List Char) :
    d.appendText (fuel + 1) id out = match d.kind? id with
      | some .inline => out ++ ((d.text? id).getD "").toList
      | some .block => (d.children id).foldl (fun out c => d.appendText fuel c out) (freshLine out)
      | some _ => (d.children id).foldl (fun out c => d.appendText fuel c out) out
      | none => out := by
  rw [appendText, kind?, text?]
  cases d.payload? id with
  | none => rfl
  | some p => cases p <;> rfl

theorem contentBelow_succ (d : Document L) (fuel : Nat) (id : NodeId) :
    d.contentBelow (fuel + 1) id = match d.kind? id with
      | some .inline => (d.text? id).getD "" != ""
      | some .table => true
      | some _ => (d.children id).any (d.contentBelow fuel)
      | none => false := by
  rw [contentBelow, kind?, text?]
  cases d.payload? id with
  | none => rfl
  | some p => cases p <;> rfl

theorem SameTree.hasContent_eq (h : SameTree d e) : e.hasContent = d.hasContent := by
  have below : ∀ fuel id, e.contentBelow fuel id = d.contentBelow fuel id := fun fuel => by
    induction fuel with
    | zero => exact fun _ => rfl
    | succ fuel ih =>
      intro id
      rw [contentBelow_succ, contentBelow_succ, h.kind, h.text, h.children, funext ih]
  exact funext fun id => by rw [hasContent, hasContent, h.size, below]

theorem WellFormed.caretHost_eq (wf : d.WellFormed) (visit : List NodeId → List NodeId)
    (mem : ∀ l x, x ∈ visit l → x ∈ l) {fuel fuel' : Nat} (h : d.size < fuel + d.depth id)
    (h' : d.size < fuel' + d.depth id) : d.caretHost visit fuel id = d.caretHost visit fuel' id := by
  refine wf.walk_eq (d.caretHost visit) (fun fuel fuel' id below => ?_) h h'
  rw [caretHost, caretHost, findSome?_congr fun c hc => below c (mem _ c hc)]

/-! ## Places for the caret -/

/-- A caret may stand neither in the node nor in one below. -/
def Caretless (d : Document L) (id : NodeId) : Prop :=
  ∀ x, id ∈ d.ancestors x → d.hostsCaret x = false

/-- A node that has no place of its own has one below if a child has one. -/
theorem WellFormed.caretless_iff_children (wf : d.WellFormed) (h : d.hostsCaret id = false) :
    d.Caretless id ↔ ∀ c ∈ d.children id, d.Caretless c := by
  constructor
  · intro none c hc x hx
    exact none x (wf.parent_mem_ancestors hx (wf.mem_children.1 hc))
  · intro none x hx
    rcases eq_or_ne id x with rfl | hne
    · exact h
    · obtain ⟨c, hc, hcx⟩ := wf.exists_child_mem_ancestors hx hne
      exact none c hc x hcx

theorem WellFormed.caretHost_fuel_eq_none (wf : d.WellFormed) {visit : List NodeId → List NodeId}
    (mem : ∀ l x, x ∈ visit l ↔ x ∈ l) {fuel : Nat} (hid : id < d.size)
    (h : d.size < fuel + d.depth id) : d.caretHost visit fuel id = none ↔ d.Caretless id := by
  induction fuel generalizing id with
  | zero =>
    have := wf.depth_le id
    omega
  | succ fuel ih =>
    rw [caretHost]
    split_ifs with host
    · refine iff_of_false (by simp) fun none => ?_
      rw [none id (wf.self_mem_ancestors hid)] at host
      cases host
    · rw [wf.caretless_iff_children (by simpa using host), List.findSome?_eq_none_iff]
      refine forall_congr' fun c => ?_
      rw [mem]
      refine forall_congr' fun hc => ?_
      have := wf.depth_of_parent (wf.mem_children.1 hc)
      exact ih (wf.lt_size_child hc) (by omega)

theorem WellFormed.caretHost_eq_none (wf : d.WellFormed) {visit : List NodeId → List NodeId}
    (mem : ∀ l x, x ∈ visit l ↔ x ∈ l) (hid : id < d.size) :
    d.caretHost visit d.size id = none ↔ d.Caretless id := by
  have := wf.depth_pos hid
  exact wf.caretHost_fuel_eq_none mem hid (by omega)

theorem WellFormed.mem_ancestors_caretHost (wf : d.WellFormed) {visit : List NodeId → List NodeId}
    (mem : ∀ l x, x ∈ visit l → x ∈ l) {fuel : Nat} {x : NodeId} (hid : id < d.size)
    (h : d.caretHost visit fuel id = some x) : id ∈ d.ancestors x := by
  induction fuel generalizing id with
  | zero => cases h
  | succ fuel ih =>
    rw [caretHost] at h
    split_ifs at h with host
    · cases h
      exact wf.self_mem_ancestors hid
    · obtain ⟨c, hc, hx⟩ := List.exists_of_findSome?_eq_some h
      have hc := mem _ c hc
      exact wf.parent_mem_ancestors (ih (wf.lt_size_child hc) hx) (wf.mem_children.1 hc)

/-- There is a first place for the caret in every node that is attached and has any. -/
theorem WellFormed.firstCaret?_eq_none (wf : d.WellFormed) (hid : id < d.size) :
    d.firstCaret? id = none ↔ root ∉ d.ancestors id ∨ d.Caretless id := by
  have mem : ∀ (l : List NodeId) x, x ∈ l ↔ x ∈ l := fun _ _ => Iff.rfl
  rw [← wf.caretHost_eq_none mem hid, firstCaret?, Option.map_eq_none_iff]
  cases host : d.caretHost (fun cs => cs) d.size id with
  | none => simp
  | some x =>
    have hx := wf.mem_ancestors_caretHost (fun _ _ h => h) hid host
    have start := wf.contentStart?_isSome (lt_size_of_ancestor hx)
    have up : root ∈ d.ancestors x ↔ root ∈ d.ancestors id := by
      refine ⟨fun hroot => ?_, fun hroot => wf.mem_ancestors_trans hroot hx⟩
      refine (wf.mem_ancestors_or hroot hx).elim (fun h => h) fun h => ?_
      rw [wf.ancestors_of_no_parent wf.root_lt_size wf.root_parent, List.mem_singleton] at h
      rw [h]
      exact wf.self_mem_ancestors wf.root_lt_size
    rw [Option.bind_some, ← up, ← start, Option.not_isSome_iff_eq_none]
    simp

namespace SameBelow

theorem of_sameTree (h : SameTree d e) (id : NodeId) : SameBelow d e id := fun x _ =>
  ⟨h.children x, h.kind x, h.text x⟩

/-- An edit that does not change the children of the node or of a node below. -/
theorem of_frame {C P : NodeId → Prop} (frame : Frame C P d e)
    (outer : ∀ x, id ∈ d.ancestors x → ¬ C x) : SameBelow d e id := fun x hx => by
  have hlt := lt_size_of_ancestor hx
  exact ⟨frame.children x hlt (outer x hx), frame.kind x hlt, frame.text x hlt⟩

variable (h : SameBelow d e id)

include h

theorem child (wf : d.WellFormed) {c : NodeId} (hc : c ∈ d.children id) : SameBelow d e c :=
  fun x hx => h x (wf.parent_mem_ancestors hx (wf.mem_children.1 hc))

theorem self (wf : d.WellFormed) (hid : id < d.size) :
    e.children id = d.children id ∧ e.kind? id = d.kind? id ∧ e.text? id = d.text? id :=
  h id (wf.self_mem_ancestors hid)

/-- Two walks down agree if they agree at the end of the fuel and in each step. -/
theorem walk_eq (wf : d.WellFormed) (hid : id < d.size) {α : Type} (walk walk' : Nat → NodeId → α)
    (stop : ∀ x, walk' 0 x = walk 0 x)
    (step : ∀ fuel x, e.children x = d.children x → e.kind? x = d.kind? x → e.text? x = d.text? x →
      (∀ c ∈ d.children x, walk' fuel c = walk fuel c) → walk' (fuel + 1) x = walk (fuel + 1) x)
    (fuel : Nat) : walk' fuel id = walk fuel id := by
  induction fuel generalizing id with
  | zero => exact stop id
  | succ fuel ih =>
    obtain ⟨children, kind, text⟩ := h.self wf hid
    exact step fuel id children kind text fun c hc => ih (h.child wf hc) (wf.lt_size_child hc)

theorem appendText (wf : d.WellFormed) (hid : id < d.size) (fuel : Nat) (out : List Char) :
    e.appendText fuel id out = d.appendText fuel id out := by
  refine congrFun (h.walk_eq wf hid d.appendText e.appendText (fun _ => rfl)
    (fun fuel x children kind text below => funext fun out => ?_) fuel) out
  have all : ∀ out, (d.children x).foldl (fun out c => e.appendText fuel c out) out =
      (d.children x).foldl (fun out c => d.appendText fuel c out) out := fun out =>
    List.foldl_ext _ _ out fun out c hc => by rw [below c hc]
  simp only [appendText_succ, children, kind, text, all]

theorem contentBelow (wf : d.WellFormed) (hid : id < d.size) (fuel : Nat) :
    e.contentBelow fuel id = d.contentBelow fuel id := by
  refine h.walk_eq wf hid d.contentBelow e.contentBelow (fun _ => rfl)
    (fun fuel x children kind text below => ?_) fuel
  have all : (d.children x).any (e.contentBelow fuel) = (d.children x).any (d.contentBelow fuel) := by
    rw [Bool.eq_iff_iff, List.any_eq_true, List.any_eq_true]
    exact exists_congr fun c => and_congr_right fun hc => by rw [below c hc]
  simp only [contentBelow_succ, children, kind, text, all]

theorem caretHost_fuel (wf : d.WellFormed) (hid : id < d.size) {visit : List NodeId → List NodeId}
    (mem : ∀ l x, x ∈ visit l → x ∈ l) (fuel : Nat) :
    e.caretHost visit fuel id = d.caretHost visit fuel id := by
  refine h.walk_eq wf hid (d.caretHost visit) (e.caretHost visit) (fun _ => rfl)
    (fun fuel x children kind _ below => ?_) fuel
  have hosts : e.hostsCaret x = d.hostsCaret x := by rw [hostsCaret, hostsCaret, kind, children]
  rw [caretHost, caretHost, hosts, children, findSome?_congr fun c hc => below c (mem _ c hc)]

/-! ## The whole walk -/

theorem plainText (wf : d.WellFormed) (hid : id < d.size) (size : d.size ≤ e.size) :
    e.plainText id = d.plainText id := by
  have hpos := wf.depth_pos hid
  rw [Document.plainText, Document.plainText, h.appendText wf hid,
    wf.appendText_eq (show d.size < e.size + d.depth id by omega)
      (show d.size < d.size + d.depth id by omega)]

theorem hasContent (wf : d.WellFormed) (hid : id < d.size) (size : d.size ≤ e.size) :
    e.hasContent id = d.hasContent id := by
  have hpos := wf.depth_pos hid
  rw [Document.hasContent, Document.hasContent, h.contentBelow wf hid,
    wf.contentBelow_eq (show d.size < e.size + d.depth id by omega)
      (show d.size < d.size + d.depth id by omega)]

theorem caretHost (wf : d.WellFormed) (hid : id < d.size) (size : d.size ≤ e.size)
    {visit : List NodeId → List NodeId} (mem : ∀ l x, x ∈ visit l → x ∈ l) :
    e.caretHost visit e.size id = d.caretHost visit d.size id := by
  have hpos := wf.depth_pos hid
  rw [h.caretHost_fuel wf hid mem,
    wf.caretHost_eq visit mem (show d.size < e.size + d.depth id by omega)
      (show d.size < d.size + d.depth id by omega)]

theorem caretless_iff (wf : d.WellFormed) (wfe : e.WellFormed) (hid : id < d.size)
    (size : d.size ≤ e.size) : e.Caretless id ↔ d.Caretless id := by
  have mem : ∀ (l : List NodeId) x, x ∈ l ↔ x ∈ l := fun _ _ => Iff.rfl
  rw [← wf.caretHost_eq_none mem hid, ← wfe.caretHost_eq_none mem (hid.trans_le size),
    h.caretHost wf hid size fun _ _ h => h]

end SameBelow

end Document

end RichTable
