import Mathlib
import RichTable.Edit.Merge
import RichTable.Proofs.Tree.Below
import RichTable.Proofs.Tree.Runs
import RichTable.Proofs.Edit.Inherit

/-!
# Moving content into a cell

A merge first moves paragraphs and nested tables: those with content go from the other cells to the
end of the surviving one, in order, and a survivor without content gives up its own. `Absorbed` gives
the children of the survivor afterwards. It asks of the cells only that none is inside another one
(`Separate`). Where cells hold paragraphs, no run is lost (`WellFormed.runs_absorbed`).
-/

namespace RichTable.Document

variable {L : Type} {d d' e e' : Document L} {C P : NodeId → Prop} {survivor : NodeId}

theorem WellFormed.block_not_mem_ancestors (wf : d.WellFormed) {b c : NodeId}
    (hb : d.kind? b = some .block) (hc : d.kind? c = some .cell) : b ∉ d.ancestors c := by
  intro h
  have hbc : b ≠ c := by
    rintro rfl
    rw [hb] at hc
    cases hc
  obtain ⟨r, hr, hrc⟩ := wf.exists_child_mem_ancestors h hbc
  have hrk := wf.kind_inline hb hr
  have hrc' : r ≠ c := by
    rintro rfl
    rw [hrk] at hc
    cases hc
  obtain ⟨x, hx, -⟩ := wf.exists_child_mem_ancestors hrc hrc'
  rw [wf.children_inline hrk] at hx
  cases hx

/-- None of these nodes is below another one. -/
def Separate (d : Document L) (C : NodeId → Prop) : Prop :=
  ∀ x y, C x → C y → x ∈ d.ancestors y → x = y

/-- Cells that hold paragraphs are not inside one another. -/
theorem WellFormed.separate_of_blocks (wf : d.WellFormed) (cell : ∀ c, C c → d.kind? c = some .cell)
    (blocks : ∀ c, C c → ∀ b ∈ d.children c, d.kind? b = some .block) : d.Separate C := by
  intro x y hx hy h
  by_contra hne
  obtain ⟨b, hb, hby⟩ := wf.exists_child_mem_ancestors h hne
  exact wf.block_not_mem_ancestors (blocks x hx b hb) (cell y hy) hby

namespace Separate

theorem mono {C' : NodeId → Prop} (h : d.Separate C) (sub : ∀ x, C' x → C x) : d.Separate C' :=
  fun x y hx hy => h x y (sub x hx) (sub y hy)

/-- What one of the nodes holds is not above any of them. -/
theorem not_mem_ancestors (h : d.Separate C) (wf : d.WellFormed) {c b y : NodeId} (hc : C c)
    (hb : b ∈ d.children c) (hy : C y) : b ∉ d.ancestors y := by
  intro hby
  have hp := wf.mem_children.1 hb
  obtain rfl := h c y hc hy (wf.parent_mem_ancestors hby hp)
  exact wf.not_mem_ancestors_parent hp hby

/-- Moving what the nodes hold leaves each piece what it was. -/
theorem sameBelow (h : d.Separate C) (wf : d.WellFormed) (frame : Frame C P d e) {c b : NodeId}
    (hc : C c) (hb : b ∈ d.children c) : SameBelow d e b :=
  .of_frame frame fun _ hx hC => h.not_mem_ancestors wf hc hb hC hx

theorem hasContent (h : d.Separate C) (wf : d.WellFormed) (frame : Frame C P d e) {c b : NodeId}
    (hc : C c) (hb : b ∈ d.children c) : e.hasContent b = d.hasContent b :=
  (h.sameBelow wf frame hc hb).hasContent wf (wf.lt_size_child hb) frame.size

theorem ancestors (h : d.Separate C) (wf : d.WellFormed) (wfe : e.WellFormed) (frame : Frame C P d e)
    {c : NodeId} (hc : C c) (known : c < d.size) : e.ancestors c = d.ancestors c :=
  frame.ancestors wf wfe known fun p hp hne hC => hne (h p c hC hc hp)

theorem of_frame (h : d.Separate C) (wf : d.WellFormed) (wfe : e.WellFormed) (frame : Frame C P d e)
    (known : ∀ c, C c → c < d.size) : e.Separate C := fun x y hx hy hxy =>
  h x y hx hy (h.ancestors wf wfe frame hy (known y hy) ▸ hxy)

end Separate

theorem WellFormed.ancestors_detach (wf : d.WellFormed) {b p : NodeId} (hp : p < d.size)
    (h : b ∉ d.ancestors p) : (d.detach b).ancestors p = d.ancestors p := by
  have ne : ∀ {x}, x < d.size → b ∉ d.ancestors x → x ≠ b := by
    rintro x hx h rfl
    exact h (wf.self_mem_ancestors hx)
  induction p using wf.induct_up with
  | top p hparent =>
    rw [wf.ancestors_of_no_parent hp hparent, (wf.detach b).ancestors_of_no_parent (by simpa using hp)]
    rw [parent?_detach, if_neg (ne hp h), hparent]
  | step p q hparent ih =>
    have hq := wf.lt_size_parent hparent
    have hbq : b ∉ d.ancestors q := fun hq => h ((wf.mem_ancestors_of_parent hparent).2 (.inr hq))
    have hparent' : (d.detach b).parent? p = some q := by
      rw [parent?_detach, if_neg (ne hp h), hparent]
    rw [wf.ancestors_of_parent hparent, (wf.detach b).ancestors_of_parent hparent', ih hq hbq]

/-- What one cell holds can be moved to another one. -/
theorem WellFormed.attachable_move (wf : d.WellFormed) {b c p : NodeId}
    (hc : d.kind? c = some .cell) (hb : b ∈ d.children c) (hp : d.kind? p = some .cell)
    (acyclic : b ∉ d.ancestors p) : (d.detach b).Attachable p b where
  accepts := by
    obtain ⟨kp, kb, hkp, hkb, accepts⟩ := wf.accepts (wf.mem_children.1 hb)
    cases hc.symm.trans hkp
    exact ⟨.cell, kb, by simpa using hp, by simpa using hkb, accepts⟩
  free := by simp [parent?_detach]
  not_root := wf.ne_root_of_parent (wf.mem_children.1 hb)
  acyclic := by rwa [wf.ancestors_detach (lt_size_of_kind? hp) acyclic]

/-- Moving a node changes the children of its parents, the old and the new one. -/
theorem Frame.of_move (wf : d.WellFormed) {c p q : NodeId} {i : Nat} (hq : d.parent? c = some q)
    (hCq : C q) (hCp : C p) (ha : (d.detach c).Attachable p c) :
    Frame C P d ((d.detach c).attach p i c) where
  size := by simp
  kind := by simp
  text := by simp
  table := by simp
  children x hx hn := by
    rw [children_attach ha.parent_lt_size, if_neg fun e : x = p => hn (e ▸ hCp), wf.children_detach,
      List.filter_eq_self]
    intro y hy
    simp only [bne_iff_ne]
    rintro rfl
    exact hn (Option.some.inj (hq.symm.trans (wf.mem_children.1 hy)) ▸ hCq)
  cell := by simp
  parent x hx hn := by
    have hxc : x ≠ c := by
      rintro rfl
      exact hn q hq hCq
    rw [parent?_attach ha.child_lt_size, if_neg hxc, parent?_detach, if_neg hxc]

/-- The cells whose content a merge moves. -/
def donors (d : Document L) (survivor : NodeId) (cells : List NodeId) : List NodeId :=
  cells.filter fun c => c != survivor && d.hasContent c

/-- The children of a merged cell. -/
def absorbed (d : Document L) (survivor : NodeId) (cells : List NodeId) : List NodeId :=
  if d.donors survivor cells = [] then d.children survivor
  else (if d.hasContent survivor then d.children survivor else []) ++
    (d.donors survivor cells).flatMap fun c => (d.children c).filter d.hasContent

/-- Going from `d` to `d'`, the content of the cells has moved to one of them, and nothing else has
changed. -/
structure Absorbed (d d' : Document L) (survivor : NodeId) (cells : List NodeId) : Prop where
  wf : d'.WellFormed
  frame : Frame (fun x => x = survivor ∨ x ∈ cells) (fun _ => False) d d'
  children : d'.children survivor = d.absorbed survivor cells

section Absorbed

variable {cells : List NodeId}

theorem mem_absorbed {b : NodeId} (h : b ∈ d.absorbed survivor cells) :
    b ∈ d.children survivor ∨ ∃ c ∈ cells, b ∈ d.children c := by
  unfold absorbed at h
  split at h
  · exact .inl h
  · rcases List.mem_append.1 h with h | h
    · split at h
      · exact .inl h
      · cases h
    · obtain ⟨c, hc, hb⟩ := List.mem_flatMap.1 h
      exact .inr ⟨c, (List.mem_filter.1 hc).1, (List.mem_filter.1 hb).1⟩

/-- A merged cell is not left empty. -/
theorem WellFormed.absorbed_ne_nil (wf : d.WellFormed) (hs : d.children survivor ≠ [])
    (cell : ∀ c ∈ cells, d.kind? c = some .cell) : d.absorbed survivor cells ≠ [] := by
  unfold absorbed
  split
  · exact hs
  · next h =>
    obtain ⟨c, hc⟩ := List.exists_mem_of_ne_nil _ h
    obtain ⟨hcells, hcontent⟩ := List.mem_filter.1 hc
    simp only [Bool.and_eq_true] at hcontent
    rw [wf.hasContent_of_kind (cell c hcells) (by decide) (by decide), List.any_eq_true] at hcontent
    obtain ⟨-, b, hb, hbc⟩ := hcontent
    refine List.ne_nil_of_mem (a := b) (List.mem_append_right _ ?_)
    exact List.mem_flatMap.2 ⟨c, hc, List.mem_filter.2 ⟨hb, hbc⟩⟩

/-- What has no content has no runs, so leaving it behind loses none. -/
theorem WellFormed.runs_absorbed (wf : d.WellFormed) (hs : d.kind? survivor = some .cell)
    (cell : ∀ c ∈ cells, d.kind? c = some .cell)
    (blocks : ∀ c, c = survivor ∨ c ∈ cells → ∀ b ∈ d.children c, d.kind? b = some .block) :
    (d.absorbed survivor cells).flatMap d.runs =
      d.runs survivor ++ (cells.filter (· != survivor)).flatMap d.runs := by
  have empty : ∀ c, c = survivor ∨ c ∈ cells → d.hasContent c = false → d.runs c = [] := by
    intro c hc h
    have hk : d.kind? c = some .cell := hc.elim (fun e => e ▸ hs) (cell c)
    by_contra hne
    rw [(wf.hasContent_cell hk (blocks c hc)).2 hne] at h
    cases h
  have kept : ∀ c ∈ cells, ((d.children c).filter d.hasContent).flatMap d.runs = d.runs c := by
    intro c hc
    have drop : ∀ l : List NodeId, (∀ b ∈ l, d.kind? b = some .block) →
        (l.filter d.hasContent).flatMap d.runs = l.flatMap d.runs := by
      intro l hl
      induction l with
      | nil => rfl
      | cons b l ih =>
        have ih := ih fun x hx => hl x (by simp [hx])
        by_cases hb : d.hasContent b = true
        · rw [List.filter_cons_of_pos hb, List.flatMap_cons, List.flatMap_cons, ih]
        · have none : d.runs b = [] := not_not.1 fun h => hb ((wf.hasContent_block (hl b (by simp))).2 h)
          rw [List.filter_cons_of_neg hb, ih, List.flatMap_cons, none, List.nil_append]
    rw [drop _ (blocks c (.inr hc)), wf.runs_of_kind (cell c hc) (by decide)]
  have moved : (d.donors survivor cells).flatMap d.runs =
      (cells.filter (· != survivor)).flatMap d.runs := by
    have drop : ∀ l : List NodeId, (∀ c ∈ l, c ∈ cells) →
        (l.filter fun c => c != survivor && d.hasContent c).flatMap d.runs =
          (l.filter (· != survivor)).flatMap d.runs := by
      intro l hl
      induction l with
      | nil => rfl
      | cons c l ih =>
        have ih := ih fun x hx => hl x (by simp [hx])
        by_cases hc : c = survivor
        · rw [List.filter_cons_of_neg (by simp [hc]), List.filter_cons_of_neg (by simp [hc]), ih]
        · rw [List.filter_cons_of_pos (p := (· != survivor)) (by simpa using hc), List.flatMap_cons]
          by_cases hcontent : d.hasContent c = true
          · rw [List.filter_cons_of_pos (by simp [hc, hcontent]), List.flatMap_cons, ih]
          · rw [List.filter_cons_of_neg (by simp [hcontent]), ih,
              empty c (.inr (hl c (by simp))) (by simpa using hcontent), List.nil_append]
    exact drop cells fun _ => id
  unfold absorbed
  split
  · next h => rw [← moved, h, wf.runs_of_kind hs (by decide), List.flatMap_nil, List.append_nil]
  · rw [List.flatMap_append, ← moved, List.flatMap_assoc]
    congr 1
    · split
      · rw [wf.runs_of_kind hs (by decide)]
      · next h => rw [empty survivor (.inl rfl) (by simpa using h), List.flatMap_nil]
    · exact List.flatMap_congr fun c hc => kept c (List.mem_filter.1 hc).1

end Absorbed

end RichTable.Document

namespace RichTable.Action

open Document

variable {L : Type} {d e : Document L} {survivor donor : NodeId}

/-- Moving the content of one cell. -/
theorem ensures_moveContents (wf : d.WellFormed) (hs : d.kind? survivor = some .cell)
    (hd : d.kind? donor = some .cell) (hne : donor ≠ survivor)
    (separate : d.Separate fun x => x = donor ∨ x = survivor) :
    Ensures ((d.children donor).forM (moveContent survivor)) d fun _ d' => d'.WellFormed ∧
      Frame (fun x => x = donor ∨ x = survivor) (fun _ => False) d d' ∧
      d'.children survivor = d.children survivor ++ (d.children donor).filter d.hasContent := by
  refine (Ensures.forM
    (I := fun rest e => e.WellFormed ∧
      Frame (fun x => x = donor ∨ x = survivor) (fun _ => False) d e ∧
      ∃ done, d.children donor = done ++ rest ∧ (∀ b ∈ rest, b ∈ e.children donor) ∧
        e.children survivor = d.children survivor ++ done.filter d.hasContent)
    (fun b rest e ⟨wfe, frame, done, hsplit, hrest, hchildren⟩ => ?_) _ d
    ⟨wf, .refl d, [], rfl, fun _ => id, by simp⟩).mono ?_
  · have hb : b ∈ d.children donor := by simp [hsplit]
    have hse : e.kind? survivor = some .cell := (frame.kind _ (lt_size_of_kind? hs)).trans hs
    have hde : e.kind? donor = some .cell := (frame.kind _ (lt_size_of_kind? hd)).trans hd
    have content : e.hasContent b = d.hasContent b := separate.hasContent wf frame (.inl rfl) hb
    have hbe := hrest b (by simp)
    have hparent := wfe.mem_children.1 hbe
    have nodup : (done ++ b :: rest).Nodup := hsplit ▸ wf.nodup donor
    have hbrest : b ∉ rest := (List.nodup_cons.1 (List.nodup_append.1 nodup).2.1).1
    simp only [moveContent, ensures_bind, ensures_get, content]
    by_cases full : d.hasContent b = true
    · rw [if_pos full]
      have up : b ∉ e.ancestors survivor := by
        rw [separate.ancestors wf wfe frame (.inr rfl) (lt_size_of_kind? hs)]
        exact separate.not_mem_ancestors wf (.inl rfl) hb (.inr rfl)
      have ha := wfe.attachable_move hde hbe hse up
      simp only [ensures_bind, ensures_detach, ensures_appendChild ha]
      have same : (e.detach b).children survivor = e.children survivor := by
        rw [wfe.children_detach, List.filter_eq_self]
        intro y hy
        simp only [bne_iff_ne]
        rintro rfl
        exact hne (wfe.parent_unique (wfe.mem_children.2 hparent) hy)
      refine ⟨(wfe.detach b).attach ha _, ?_, done ++ [b], by simp [hsplit], fun x hx => ?_, ?_⟩
      · exact frame.trans (Frame.of_move wfe hparent (.inl rfl) (.inr rfl) ha)
      · rw [children_attach ha.parent_lt_size, if_neg hne, wfe.children_detach, List.mem_filter]
        refine ⟨hrest x (by simp [hx]), ?_⟩
        simpa using fun e : x = b => hbrest (e ▸ hx)
      · rw [children_attach ha.parent_lt_size, if_pos rfl, same, min_self,
          List.insertIdx_length_self, hchildren]
        simp [full]
    · rw [if_neg full, ensures_pure]
      exact ⟨wfe, frame, done ++ [b], by simp [hsplit], fun x hx => hrest x (by simp [hx]),
        by simp [hchildren, full]⟩
  · rintro _ e ⟨wfe, frame, done, hsplit, -, hchildren⟩
    rw [List.append_nil] at hsplit
    exact ⟨wfe, frame, hsplit ▸ hchildren⟩

/-- Moving the content of the cells of a merge. -/
theorem ensures_absorbContent {cells : List NodeId} (wf : d.WellFormed)
    (hs : d.kind? survivor = some .cell) (nodup : cells.Nodup)
    (cell : ∀ c ∈ cells, d.kind? c = some .cell)
    (separate : d.Separate fun x => x = survivor ∨ x ∈ cells) :
    Ensures (absorbContent survivor cells) d fun _ d' => Absorbed d d' survivor cells := by
  simp only [absorbContent, ensures_bind, ensures_get]
  rw [show (cells.filter fun c => c != survivor && d.hasContent c) = d.donors survivor cells from rfl]
  split
  · next none =>
    rw [ensures_pure]
    exact ⟨wf, .refl d, by rw [absorbed, if_pos (List.isEmpty_iff.1 none)]⟩
  next donors =>
  have donors : d.donors survivor cells ≠ [] := fun h => donors (by rw [h]; rfl)
  have member : ∀ c ∈ d.donors survivor cells, c ∈ cells ∧ c ≠ survivor := fun c hc => by
    obtain ⟨hc, h⟩ := List.mem_filter.1 hc
    exact ⟨hc, by simpa using (Bool.and_eq_true_iff.1 h).1⟩
  have known : ∀ x, x = survivor ∨ x ∈ cells → x < d.size := by
    rintro x (rfl | hx)
    · exact lt_size_of_kind? hs
    · exact lt_size_of_kind? (cell x hx)
  -- the loop over the donors, on a document where the survivor may have lost its children
  have loop : ∀ d₁ : Document L, d₁.WellFormed → Frame (· = survivor) (fun _ => False) d d₁ →
      Ensures ((d.donors survivor cells).forM fun donor => do
        ((← get).children donor).forM (moveContent survivor)) d₁ fun _ d' => d'.WellFormed ∧
          Frame (fun x => x = survivor ∨ x ∈ cells) (fun _ => False) d d' ∧
          d'.children survivor = d₁.children survivor ++
            (d.donors survivor cells).flatMap fun c => (d.children c).filter d.hasContent := by
    intro d₁ wf₁ frame₁
    refine (Ensures.forM
      (I := fun rest e => e.WellFormed ∧
        Frame (fun x => x = survivor ∨ x ∈ cells) (fun _ => False) d e ∧
        ∃ done, d.donors survivor cells = done ++ rest ∧
          (∀ c ∈ rest, e.children c = d.children c) ∧
          e.children survivor = d₁.children survivor ++
            done.flatMap fun c => (d.children c).filter d.hasContent)
      (fun c rest e ⟨wfe, frame, done, hsplit, hrest, hchildren⟩ => ?_) _ d₁
      ⟨wf₁, frame₁.mono (fun _ _ => .inl) (fun _ _ => id) wf, [], rfl, fun c hc => ?_, by simp⟩).mono
      ?_
    · have hc : c ∈ d.donors survivor cells := by simp [hsplit]
      obtain ⟨hcells, hne⟩ := member c hc
      have kind : ∀ {x k}, d.kind? x = some k → e.kind? x = some k := fun hx =>
        (frame.kind _ (lt_size_of_kind? hx)).trans hx
      have same := hrest c (by simp)
      have hnodup : (done ++ c :: rest).Nodup := hsplit ▸ nodup.filter _
      have hcrest : c ∉ rest := (List.nodup_cons.1 (List.nodup_append.1 hnodup).2.1).1
      simp only [ensures_bind, ensures_get]
      have separate' : e.Separate fun x => x = c ∨ x = survivor :=
        (separate.of_frame wf wfe frame known).mono fun x hx =>
          hx.elim (fun hx => .inr (hx ▸ hcells)) .inl
      refine (ensures_moveContents wfe (kind hs) (kind (cell c hcells)) hne separate').mono
        fun _ e' ⟨wfe', frame', hchildren'⟩ => ?_
      refine ⟨wfe', frame.trans (frame'.mono ?_ (fun _ _ => id) wfe), done ++ [c], by simp [hsplit],
        fun x hx => ?_, ?_⟩
      · rintro x - (rfl | rfl)
        · exact .inr hcells
        · exact .inl rfl
      · obtain ⟨hxc, hxs⟩ := member x (by simp [hsplit, hx])
        rw [frame'.children x (lt_size_of_kind? (kind (cell x hxc))) ?_, hrest x (by simp [hx])]
        rintro (rfl | rfl)
        · exact hcrest hx
        · exact hxs rfl
      · have content : (d.children c).filter e.hasContent = (d.children c).filter d.hasContent :=
          List.filter_congr fun b hb => separate.hasContent wf frame (.inr hcells) hb
        rw [hchildren', hchildren, same, content]
        simp
    · obtain ⟨hcells, hne⟩ := member c hc
      exact frame₁.children c (lt_size_of_kind? (cell c hcells)) hne
    · rintro _ e ⟨wfe, frame, done, hsplit, -, hchildren⟩
      rw [List.append_nil] at hsplit
      exact ⟨wfe, frame, hsplit ▸ hchildren⟩
  by_cases content : d.hasContent survivor = true
  · simp only [content, Bool.not_true, Bool.false_eq_true, if_false]
    refine (loop d wf (.refl d)).mono fun _ d' ⟨wf', frame, children⟩ => ⟨wf', frame, ?_⟩
    rw [children, absorbed, if_neg donors, if_pos content]
  · have content' : (!d.hasContent survivor) = true := by simpa using content
    simp only [content', if_true, ensures_bind]
    refine (ensures_forM_detach wf _).mono fun _ d₁ detached => ?_
    have frame₁ : Frame (· = survivor) (fun _ => False) d d₁ := detached.frame wf fun x hx p hp =>
      wf.parent_unique (wf.mem_children.2 hp) hx
    refine (loop d₁ detached.wf frame₁).mono fun _ d' ⟨wf', frame, children⟩ => ⟨wf', frame, ?_⟩
    have gone : d₁.children survivor = [] := by
      rw [detached.children, List.filter_eq_nil_iff]
      exact fun x hx => by simpa using hx
    rw [children, gone, absorbed, if_neg donors, if_neg content]

end RichTable.Action
