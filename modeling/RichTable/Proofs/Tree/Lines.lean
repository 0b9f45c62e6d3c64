import Mathlib
import RichTable.Proofs.Tree.Runs

/-!
# Lines of a cell

The text of a cell is joined from its paragraphs, each on a line of its own. In a `Tidy` cell either
every paragraph has a text, or the cell has one paragraph and no text. This is what all cells of a
session are like, so that a cell has content exactly if it has a text (`Tidy.hasContent_iff`), and the
text of several cells put together can be joined from the texts of these cells (`joinLines_flatten`).
-/

namespace RichTable.Document

variable {L : Type} {d e : Document L}

/-! ## Joining lines -/

/-- Joins lines, each on a line of its own. -/
def joinLines (lines : List (List Char)) : List Char :=
  lines.foldl (fun out line => freshLine out ++ line) []

theorem joinLines_cons (line : List Char) (lines : List (List Char)) :
    joinLines (line :: lines) = lines.foldl (fun out line => freshLine out ++ line) line := rfl

theorem freshLine_append {out line : List Char} (h : line ≠ []) :
    freshLine (out ++ line) = out ++ freshLine line := by
  have last : (out ++ line).getLast? = line.getLast? := by
    rw [List.getLast?_append]
    cases hl : line.getLast? with
    | none => exact absurd (List.getLast?_eq_none_iff.1 hl) h
    | some c => rfl
  simp only [freshLine, last, List.append_eq_nil_iff, h, and_false, false_or]
  split
  · rfl
  · rw [List.append_assoc]

theorem foldl_lines {lines : List (List Char)} (full : ∀ line ∈ lines, line ≠ [])
    (some : lines ≠ []) (out : List Char) :
    lines.foldl (fun out line => freshLine out ++ line) out = freshLine out ++ joinLines lines := by
  induction lines generalizing out with
  | nil => exact absurd rfl some
  | cons line lines ih =>
    have hline := full line (by simp)
    rcases lines.eq_nil_or_concat with rfl | ⟨_, _, hne⟩
    · rfl
    · have ih := ih (fun l hl => full l (by simp [hl])) (by simp [hne])
      rw [List.foldl_cons, ih, joinLines_cons, ih, freshLine_append hline, List.append_assoc]

theorem joinLines_ne_nil {lines : List (List Char)} (full : ∀ line ∈ lines, line ≠ [])
    (some : lines ≠ []) : joinLines lines ≠ [] := by
  obtain ⟨line, lines, rfl⟩ := List.exists_cons_of_ne_nil some
  have hline := full line (by simp)
  rw [joinLines_cons]
  by_cases more : lines = []
  · rwa [more]
  · rw [foldl_lines (fun l hl => full l (by simp [hl])) more]
    intro h
    obtain ⟨h, -⟩ := List.append_eq_nil_iff.1 h
    unfold freshLine at h
    split at h
    · exact hline h
    · simp at h

/-- Lines may be joined in portions. -/
theorem joinLines_flatten {portions : List (List (List Char))}
    (full : ∀ lines ∈ portions, lines ≠ [] ∧ ∀ line ∈ lines, line ≠ []) :
    joinLines portions.flatten = joinLines (portions.map joinLines) := by
  have from' : ∀ out, portions.flatten.foldl (fun out line => freshLine out ++ line) out =
      (portions.map joinLines).foldl (fun out line => freshLine out ++ line) out := by
    induction portions with
    | nil => exact fun _ => rfl
    | cons lines portions ih =>
      obtain ⟨some, hlines⟩ := full lines (by simp)
      intro out
      rw [List.flatten_cons, List.foldl_append, foldl_lines hlines some, List.map_cons,
        List.foldl_cons, ih fun l hl => full l (by simp [hl])]
  exact from' []

/-! ## The text of a cell -/

/-- The text of a paragraph. -/
def lineText (d : Document L) (b : NodeId) : List Char :=
  (d.children b).flatMap fun r => ((d.text? r).getD "").toList

/-- The text of a cell of paragraphs. -/
def cellText (d : Document L) (c : NodeId) : List Char := joinLines ((d.children c).map d.lineText)

namespace WellFormed

theorem appendText_eq (wf : d.WellFormed) {fuel fuel' : Nat} {id : NodeId}
    (h : d.size < fuel + d.depth id) (h' : d.size < fuel' + d.depth id) (out : List Char) :
    d.appendText fuel id out = d.appendText fuel' id out := by
  refine congrFun (wf.walk_eq d.appendText (fun fuel fuel' id below => ?_) h h') out
  have children : ∀ out, (d.children id).foldl (fun out c => d.appendText fuel c out) out =
      (d.children id).foldl (fun out c => d.appendText fuel' c out) out := fun out =>
    List.foldl_ext _ _ out fun out c hc => by rw [below c hc]
  funext out
  simp only [appendText, children]

theorem appendText_inline {r : NodeId} {s : String} (h : d.text? r = some s) (fuel : Nat)
    (out : List Char) : d.appendText (fuel + 1) r out = out ++ s.toList := by
  rw [appendText, payload?_of_text? h]

theorem appendText_block (wf : d.WellFormed) {b : NodeId} (hb : d.kind? b = some .block) (fuel : Nat)
    (out : List Char) : d.appendText (fuel + 2) b out = freshLine out ++ d.lineText b := by
  have runs : ∀ (l : List NodeId), (∀ r ∈ l, d.kind? r = some .inline) → ∀ out,
      l.foldl (fun out r => d.appendText (fuel + 1) r out) out =
        out ++ l.flatMap fun r => ((d.text? r).getD "").toList := by
    intro l hl
    induction l with
    | nil => exact fun out => (List.append_nil out).symm
    | cons r l ih =>
      intro out
      obtain ⟨s, hs⟩ := exists_text? (hl r (by simp))
      rw [List.foldl_cons, appendText_inline hs, ih fun x hx => hl x (by simp [hx]),
        List.flatMap_cons, hs, Option.getD_some, List.append_assoc]
  obtain ⟨p, hp, hk⟩ := Option.map_eq_some_iff.1 hb
  cases p with
  | block =>
    rw [appendText, hp]
    exact runs _ (fun r hr => wf.kind_inline hb hr) _
  | _ => cases hk

/-- The text of a cell of paragraphs, as outlines give it. -/
theorem plainText_cell (wf : d.WellFormed) {c : NodeId} (hc : d.kind? c = some .cell)
    (blocks : ∀ b ∈ d.children c, d.kind? b = some .block) :
    d.plainText c = String.ofList (d.cellText c) := by
  have hpos := wf.depth_pos (lt_size_of_kind? hc)
  have lines : ∀ (l : List NodeId), (∀ b ∈ l, d.kind? b = some .block) → ∀ out,
      l.foldl (fun out b => d.appendText (d.size + 2) b out) out =
        (l.map d.lineText).foldl (fun out line => freshLine out ++ line) out := by
    intro l hl
    induction l with
    | nil => exact fun _ => rfl
    | cons b l ih =>
      intro out
      rw [List.foldl_cons, wf.appendText_block (hl b (by simp)), ih fun x hx => hl x (by simp [hx]),
        List.map_cons, List.foldl_cons]
  obtain ⟨p, hp, hk⟩ := Option.map_eq_some_iff.1 hc
  cases p with
  | cell props =>
    rw [plainText, wf.appendText_eq (by omega) (show d.size < d.size + 3 + d.depth c by omega),
      appendText, hp]
    exact congrArg _ (lines _ blocks [])
  | _ => cases hk

theorem hasContent_block_iff (wf : d.WellFormed) {b : NodeId} (hb : d.kind? b = some .block) :
    d.hasContent b = true ↔ d.lineText b ≠ [] := by
  rw [wf.hasContent_of_kind hb (by decide) (by decide), List.any_eq_true, lineText, Ne,
    List.flatMap_eq_nil_iff]
  push Not
  refine exists_congr fun r => and_congr_right fun hr => ?_
  obtain ⟨s, hs⟩ := exists_text? (wf.kind_inline hb hr)
  rw [wf.hasContent_inline hs, hs, Option.getD_some, bne_iff_ne, Ne, Ne, String.toList_eq_nil_iff]

end WellFormed

/-! ## Tidy cells -/

/-- The cell holds paragraphs. All of them have a text, or there is a single one without. -/
structure Tidy (d : Document L) (c : NodeId) : Prop where
  blocks : ∀ b ∈ d.children c, d.kind? b = some .block
  some : d.children c ≠ []
  lines : (d.children c).map d.lineText = [[]] ∨ ∀ b ∈ d.children c, d.lineText b ≠ []

namespace Tidy

variable {c : NodeId}

theorem of_blank (h : d.Blank c) : d.Tidy c := by
  obtain ⟨b, hb, hk, he⟩ := h
  refine ⟨by simpa [hb] using hk, by simp [hb], .inl ?_⟩
  simp [hb, lineText, he]

theorem cellText_of_blank (h : d.Blank c) : d.cellText c = [] := by
  obtain ⟨b, hb, -, hempty⟩ := h
  simp [cellText, hb, lineText, hempty, joinLines, freshLine]

theorem cellText_ne_nil (h : d.Tidy c) (full : ∀ b ∈ d.children c, d.lineText b ≠ []) :
    d.cellText c ≠ [] := by
  apply joinLines_ne_nil
  · simpa using full
  · simpa using h.some

/-- A tidy cell has content exactly if it has a text. -/
theorem hasContent_iff (h : d.Tidy c) (wf : d.WellFormed) (hc : d.kind? c = Option.some .cell) :
    d.hasContent c = true ↔ d.cellText c ≠ [] := by
  rw [wf.hasContent_of_kind hc (by decide) (by decide), List.any_eq_true]
  rcases h.lines with empty | full
  · have none : d.cellText c = [] := by rw [cellText, empty]; rfl
    rw [none]
    simp only [ne_eq, not_true_eq_false, iff_false, not_exists, not_and]
    intro b hb hcontent
    have : d.lineText b ∈ (d.children c).map d.lineText := List.mem_map_of_mem hb
    rw [empty, List.mem_singleton] at this
    exact (wf.hasContent_block_iff (h.blocks b hb)).1 hcontent this
  · refine iff_of_true ?_ (h.cellText_ne_nil full)
    obtain ⟨b, hb⟩ := List.exists_mem_of_ne_nil _ h.some
    exact ⟨b, hb, (wf.hasContent_block_iff (h.blocks b hb)).2 (full b hb)⟩

/-- In a tidy cell with content every paragraph has content. -/
theorem full_of_hasContent (h : d.Tidy c) (wf : d.WellFormed) (hc : d.kind? c = Option.some .cell)
    (content : d.hasContent c = true) : ∀ b ∈ d.children c, d.lineText b ≠ [] := by
  refine h.lines.resolve_left fun empty => ?_
  apply (h.hasContent_iff wf hc).1 content
  rw [cellText, empty]
  rfl

end Tidy

/-! ## Changes outside of cells -/

/-- Going from `d` to `e`, what is inside of paragraphs and of cells has stayed, the cells in `Y` left
aside. -/
structure SameInside (Y : NodeId → Prop) (d e : Document L) : Prop where
  kind : ∀ {x k}, d.kind? x = some k → e.kind? x = some k
  text : ∀ {x s}, d.text? x = some s → e.text? x = some s
  children : ∀ {x}, d.kind? x = some .cell ∧ ¬ Y x ∨ d.kind? x = some .block →
    e.children x = d.children x

namespace SameInside

variable {Y : NodeId → Prop}

theorem of_sameTree (h : SameTree d e) : SameInside (fun _ => False) d e where
  kind hk := (h.kind _).trans hk
  text hs := (h.text _).trans hs
  children _ := h.children _

theorem of_frame {C P : NodeId → Prop} (h : Frame C P d e)
    (outer : ∀ x, C x → (d.kind? x = some .cell → Y x) ∧ d.kind? x ≠ some .block) :
    SameInside Y d e where
  kind hk := (h.kind _ (lt_size_of_kind? hk)).trans hk
  text hs := (h.text _ (lt_size_of_kind? (by rw [kind?, WellFormed.payload?_of_text? hs]; rfl))).trans hs
  children {x} hk := by
    have hlt : x < d.size := hk.elim (fun hc => lt_size_of_kind? hc.1) lt_size_of_kind?
    refine h.children x hlt fun hC => ?_
    exact hk.elim (fun hc => hc.2 ((outer x hC).1 hc.1)) (outer x hC).2

theorem lineText (h : SameInside Y d e) (wf : d.WellFormed) {b : NodeId}
    (hb : d.kind? b = some .block) : e.lineText b = d.lineText b := by
  rw [Document.lineText, Document.lineText, h.children (.inr hb)]
  refine List.flatMap_congr fun r hr => ?_
  obtain ⟨s, hs⟩ := WellFormed.exists_text? (wf.kind_inline hb hr)
  rw [hs, h.text hs]

theorem tidy (h : SameInside Y d e) (wf : d.WellFormed) {c : NodeId} (hc : d.kind? c = some .cell)
    (hY : ¬ Y c) (tidy : d.Tidy c) : e.Tidy c ∧ e.cellText c = d.cellText c := by
  have same := h.children (.inl ⟨hc, hY⟩)
  have lines : (d.children c).map e.lineText = (d.children c).map d.lineText :=
    List.map_congr_left fun b hb => h.lineText wf (tidy.blocks b hb)
  refine ⟨⟨?_, by rw [same]; exact tidy.some, ?_⟩, by rw [cellText, cellText, same, lines]⟩
  · rw [same]
    exact fun b hb => h.kind (tidy.blocks b hb)
  · rw [same, lines]
    refine tidy.lines.imp_right fun full b hb => ?_
    rw [h.lineText wf (tidy.blocks b hb)]
    exact full b hb

end SameInside

end RichTable.Document
