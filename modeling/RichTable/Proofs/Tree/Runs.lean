import Mathlib
import RichTable.Tree.Text
import RichTable.Proofs.Grid.Table

/-!
# Runs below a node

The texts below a node, in document order, and what `hasContent` says about them. The walks are
bounded by fuel; in a well-formed document the size is always enough, which gives equations without
fuel: for a run (`texts_inline`), a paragraph (`texts_block`) and a table (`runs_table`).
-/

namespace RichTable.Document

variable {L : Type} {d d' : Document L}

/-- The texts at or below `id` in document order, down to `fuel` levels. -/
def textsBelow (d : Document L) : (fuel : Nat) → NodeId → List String
  | 0, _ => []
  | fuel + 1, id =>
    match d.payload? id with
    | some (.inline text) => [text]
    | some _ => (d.children id).flatMap (d.textsBelow fuel)
    | none => []

/-- The texts at or below a node, in document order. -/
def texts (d : Document L) (id : NodeId) : List String := d.textsBelow d.size id

/-- The texts that are not empty. -/
def runs (d : Document L) (id : NodeId) : List String := (d.texts id).filter (· != "")

namespace WellFormed

theorem textsBelow_eq (wf : d.WellFormed) {fuel fuel' : Nat} {id : NodeId}
    (h : d.size < fuel + d.depth id) (h' : d.size < fuel' + d.depth id) :
    d.textsBelow fuel id = d.textsBelow fuel' id := by
  refine wf.walk_eq d.textsBelow (fun fuel fuel' id below => ?_) h h'
  simp only [textsBelow, List.flatMap_congr below]

theorem contentBelow_eq (wf : d.WellFormed) {fuel fuel' : Nat} {id : NodeId}
    (h : d.size < fuel + d.depth id) (h' : d.size < fuel' + d.depth id) :
    d.contentBelow fuel id = d.contentBelow fuel' id := by
  refine wf.walk_eq d.contentBelow (fun fuel fuel' id below => ?_) h h'
  have any : (d.children id).any (d.contentBelow fuel) =
      (d.children id).any (d.contentBelow fuel') := by
    rw [Bool.eq_iff_iff, List.any_eq_true, List.any_eq_true]
    exact exists_congr fun c => and_congr_right fun hc => by rw [below c hc]
  simp only [contentBelow, any]

theorem texts_eq (wf : d.WellFormed) {id : NodeId} (hid : id < d.size) :
    d.texts id = match d.payload? id with
      | some (.inline text) => [text]
      | some _ => (d.children id).flatMap d.texts
      | none => [] := by
  have hpos := wf.depth_pos hid
  have below : ∀ c ∈ d.children id, d.textsBelow d.size c = d.texts c := fun _ _ => rfl
  rw [texts, wf.textsBelow_eq (by omega) (show d.size < d.size + 1 + d.depth id by omega), textsBelow,
    List.flatMap_congr below]

theorem hasContent_eq (wf : d.WellFormed) {id : NodeId} (hid : id < d.size) :
    d.hasContent id = match d.payload? id with
      | some (.inline text) => text != ""
      | some (.table _) => true
      | some _ => (d.children id).any d.hasContent
      | none => false := by
  have hpos := wf.depth_pos hid
  rw [hasContent, wf.contentBelow_eq (by omega) (show d.size < d.size + 1 + d.depth id by omega),
    contentBelow]
  rfl

theorem texts_of_kind (wf : d.WellFormed) {id : NodeId} {k : Kind} (hk : d.kind? id = some k)
    (hne : k ≠ .inline) : d.texts id = (d.children id).flatMap d.texts := by
  rw [wf.texts_eq (lt_size_of_kind? hk)]
  obtain ⟨p, hp, rfl⟩ := Option.map_eq_some_iff.1 hk
  rw [hp]
  cases p <;> first | rfl | exact absurd rfl hne

theorem hasContent_of_kind (wf : d.WellFormed) {id : NodeId} {k : Kind} (hk : d.kind? id = some k)
    (hi : k ≠ .inline) (ht : k ≠ .table) : d.hasContent id = (d.children id).any d.hasContent := by
  rw [wf.hasContent_eq (lt_size_of_kind? hk)]
  obtain ⟨p, hp, rfl⟩ := Option.map_eq_some_iff.1 hk
  rw [hp]
  cases p <;> first | rfl | exact absurd rfl hi | exact absurd rfl ht

theorem exists_text? {id : NodeId} (hk : d.kind? id = some .inline) : ∃ s, d.text? id = some s := by
  obtain ⟨p, hp, hkind⟩ := Option.map_eq_some_iff.1 hk
  cases p with
  | inline s => exact ⟨s, by rw [text?, hp]⟩
  | _ => cases hkind

theorem payload?_of_text? {id : NodeId} {s : String} (h : d.text? id = some s) :
    d.payload? id = some (.inline s) := by
  unfold text? at h
  split at h
  · next hp =>
    rw [hp, Option.some.inj h]
  · cases h

theorem texts_inline (wf : d.WellFormed) {id : NodeId} {s : String} (h : d.text? id = some s) :
    d.texts id = [s] := by
  have hp := payload?_of_text? h
  rw [wf.texts_eq (lt_size_of_kind? (k := .inline) (by rw [kind?, hp]; rfl)), hp]

theorem hasContent_inline (wf : d.WellFormed) {id : NodeId} {s : String} (h : d.text? id = some s) :
    d.hasContent id = (s != "") := by
  have hp := payload?_of_text? h
  rw [wf.hasContent_eq (lt_size_of_kind? (k := .inline) (by rw [kind?, hp]; rfl)), hp]

/-- A paragraph holds the texts of its runs. -/
theorem texts_block (wf : d.WellFormed) {b : NodeId} (hb : d.kind? b = some .block) :
    d.texts b = (d.children b).filterMap d.text? := by
  rw [wf.texts_of_kind hb (by decide), List.filterMap_eq_flatMap_toList]
  refine List.flatMap_congr fun c hc => ?_
  obtain ⟨s, hs⟩ := exists_text? (wf.kind_inline hb hc)
  rw [wf.texts_inline hs, hs]
  rfl

/-- A paragraph has content if one of its runs is not empty. -/
theorem hasContent_block (wf : d.WellFormed) {b : NodeId} (hb : d.kind? b = some .block) :
    d.hasContent b = true ↔ d.runs b ≠ [] := by
  rw [wf.hasContent_of_kind hb (by decide) (by decide), List.any_eq_true, runs,
    wf.texts_of_kind hb (by decide), Ne, List.filter_eq_nil_iff]
  push Not
  constructor
  · rintro ⟨c, hc, h⟩
    obtain ⟨s, hs⟩ := exists_text? (wf.kind_inline hb hc)
    rw [wf.hasContent_inline hs] at h
    exact ⟨s, List.mem_flatMap.2 ⟨c, hc, by simp [wf.texts_inline hs]⟩, h⟩
  · rintro ⟨s, hs, h⟩
    obtain ⟨c, hc, hsc⟩ := List.mem_flatMap.1 hs
    obtain ⟨s', hs'⟩ := exists_text? (wf.kind_inline hb hc)
    rw [wf.texts_inline hs', List.mem_singleton] at hsc
    exact ⟨c, hc, by rwa [wf.hasContent_inline hs', ← hsc]⟩

theorem runs_of_kind (wf : d.WellFormed) {id : NodeId} {k : Kind} (hk : d.kind? id = some k)
    (hne : k ≠ .inline) : d.runs id = (d.children id).flatMap d.runs := by
  rw [runs, wf.texts_of_kind hk hne, List.filter_flatMap]
  rfl

/-- A table holds the runs of its cells, in reading order. -/
theorem runs_table (wf : d.WellFormed) {t : NodeId} (ht : d.kind? t = some .table) :
    d.runs t = (d.tableCells t).flatMap d.runs := by
  rw [wf.runs_of_kind ht (by decide), tableCells, tableRows, List.flatMap_assoc, List.flatMap_assoc]
  refine List.flatMap_congr fun g hg => ?_
  rw [wf.runs_of_kind (wf.kind_group ht hg) (by decide)]
  exact List.flatMap_congr fun r hr =>
    wf.runs_of_kind (wf.kind_row (wf.kind_group ht hg) hr) (by decide)

/-- A cell of paragraphs has content if one of its runs is not empty. -/
theorem hasContent_cell (wf : d.WellFormed) {c : NodeId} (hc : d.kind? c = some .cell)
    (blocks : ∀ b ∈ d.children c, d.kind? b = some .block) :
    d.hasContent c = true ↔ d.runs c ≠ [] := by
  rw [wf.hasContent_of_kind hc (by decide) (by decide), List.any_eq_true,
    wf.runs_of_kind hc (by decide), Ne, List.flatMap_eq_nil_iff]
  push Not
  exact exists_congr fun b => and_congr_right fun hb => wf.hasContent_block (blocks b hb)

/-- The runs of a paragraph depend on its children and their texts only. -/
theorem runs_block_congr (wf : d.WellFormed) (wf' : d'.WellFormed) {b : NodeId}
    (hb : d.kind? b = some .block) (hb' : d'.kind? b = some .block)
    (children : d'.children b = d.children b)
    (text : ∀ c ∈ d.children b, d'.text? c = d.text? c) : d'.runs b = d.runs b := by
  rw [runs, runs, wf.texts_block hb, wf'.texts_block hb', children,
    List.filterMap_congr text]

end WellFormed

end RichTable.Document
