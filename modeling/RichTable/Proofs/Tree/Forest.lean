import Mathlib
import RichTable.Tree.Document

/-!
# Well-formed documents

A document is well-formed if its arena is a forest that fits the schema and if the cached lengths are
right. In a well-formed document the way up from a node ends, so the fuel of `chain` never runs out:
`ancestors_eq` is the recursion that `ancestors` stands for. Facts about nodes go from parents to
children by `WellFormed.induct_up`. The number of nodes on the way up is the `depth` of a node.
-/

namespace RichTable.Document

variable {L : Type} {d : Document L}

/-- The number of symbols that a node contributes by itself. -/
def ownLength (d : Document L) (id : NodeId) : Nat := ((d.payload? id).map (·.ownLength)).getD 0

/-- The arena is a forest that fits the schema, and every cached length is right. -/
structure WellFormed (d : Document L) : Prop where
  root_kind : d.kind? root = some .other
  root_parent : d.parent? root = none
  mem_children : ∀ {p c : NodeId}, c ∈ d.children p ↔ d.parent? c = some p
  nodup : ∀ p, (d.children p).Nodup
  ranked : ∃ rank : NodeId → Nat, ∀ c p, d.parent? c = some p → rank p < rank c
  accepts : ∀ {c p : NodeId}, d.parent? c = some p →
    ∃ kp kc, d.kind? p = some kp ∧ d.kind? c = some kc ∧ kp.accepts kc
  length : ∀ id, d.contentLength id = d.ownLength id + ((d.children id).map d.symbolLength).sum

/-! ## Known nodes -/

theorem node?_eq_none {id : NodeId} : d.node? id = none ↔ d.size ≤ id := by
  simp [node?, size]

theorem node?_isSome {id : NodeId} : (d.node? id).isSome ↔ id < d.size := by
  simp [node?, size]

theorem payload?_isSome {id : NodeId} : (d.payload? id).isSome ↔ id < d.size := by
  simp [payload?, node?_isSome]

theorem kind?_isSome {id : NodeId} : (d.kind? id).isSome ↔ id < d.size := by
  simp [kind?, payload?_isSome]

theorem lt_size_of_kind? {id : NodeId} {k : Kind} (h : d.kind? id = some k) : id < d.size :=
  kind?_isSome.1 (by simp [h])

theorem lt_size_of_parent? {c p : NodeId} (h : d.parent? c = some p) : c < d.size := by
  rw [← node?_isSome]
  unfold parent? at h
  obtain ⟨node, hn, -⟩ := Option.bind_eq_some_iff.1 h
  simp [hn]

theorem lt_size_of_mem_children {p c : NodeId} (h : c ∈ d.children p) : p < d.size := by
  rw [← node?_isSome]
  cases hn : d.node? p with
  | none => simp [children, hn] at h
  | some node => rfl

@[simp]
theorem isKind_iff {id : NodeId} {k : Kind} : d.isKind id k = true ↔ d.kind? id = some k := by
  simp [isKind]

/-! ## The way up -/

theorem chain_succ {fuel : Nat} {id : NodeId} (h : id < d.size) :
    d.chain (fuel + 1) id = id :: ((d.parent? id).map (d.chain fuel)).getD [] := by
  obtain ⟨node, hn⟩ := Option.isSome_iff_exists.1 (node?_isSome.2 h)
  rw [chain, hn]
  cases hp : node.parent <;> simp [parent?, hn, hp]

theorem chain_unknown {fuel : Nat} {id : NodeId} (h : d.size ≤ id) : d.chain fuel id = [] := by
  cases fuel with
  | zero => rfl
  | succ fuel => rw [chain, node?_eq_none.2 h]

theorem chain_eq_take (fuel : Nat) (id : NodeId) :
    d.chain fuel id = (d.chain (fuel + 1) id).take fuel := by
  induction fuel generalizing id with
  | zero => rfl
  | succ fuel ih =>
    rcases Nat.lt_or_ge id d.size with h | h
    · rw [chain_succ h, chain_succ h, List.take_succ_cons]
      cases d.parent? id with
      | none => simp
      | some p => simp [← ih p]
    · simp [chain_unknown h]

theorem lt_size_of_mem_chain {fuel : Nat} {id a : NodeId} (h : a ∈ d.chain fuel id) :
    a < d.size := by
  induction fuel generalizing id with
  | zero => cases h
  | succ fuel ih =>
    rcases Nat.lt_or_ge id d.size with hid | hid
    · rw [chain_succ hid, List.mem_cons] at h
      rcases h with rfl | h
      · exact hid
      · cases hp : d.parent? id with
        | none => simp [hp] at h
        | some p => exact ih (by simpa [hp] using h)
    · simp [chain_unknown hid] at h

/-- A chain only looks at the parents of the nodes that it visits. -/
theorem chain_congr {e : Document L} (hs : e.size = d.size) {fuel : Nat} {id : NodeId}
    (h : ∀ a ∈ d.chain fuel id, e.parent? a = d.parent? a) : e.chain fuel id = d.chain fuel id := by
  induction fuel generalizing id with
  | zero => rfl
  | succ fuel ih =>
    rcases Nat.lt_or_ge id d.size with hid | hid
    · rw [chain_succ hid] at h ⊢
      rw [chain_succ (hs ▸ hid), h id (by simp)]
      cases hp : d.parent? id with
      | none => rfl
      | some p => simpa using ih fun a ha => h a (by simp [hp, ha])
    · rw [chain_unknown hid, chain_unknown (hs ▸ hid)]

theorem lt_size_of_mem_ancestors {id a : NodeId} (h : a ∈ d.ancestors id) : a < d.size :=
  lt_size_of_mem_chain h

theorem ancestors_unknown {id : NodeId} (h : d.size ≤ id) : d.ancestors id = [] :=
  chain_unknown h

theorem lt_size_of_ancestor {id a : NodeId} (h : a ∈ d.ancestors id) : id < d.size := by
  by_contra hge
  rw [ancestors_unknown (Nat.le_of_not_lt hge)] at h
  cases h

namespace WellFormed

theorem lt_size_parent (wf : d.WellFormed) {c p : NodeId} (h : d.parent? c = some p) :
    p < d.size :=
  lt_size_of_mem_children (wf.mem_children.2 h)

theorem lt_size_child (wf : d.WellFormed) {c p : NodeId} (h : c ∈ d.children p) : c < d.size :=
  lt_size_of_parent? (wf.mem_children.1 h)

theorem root_lt_size (wf : d.WellFormed) : root < d.size := lt_size_of_kind? wf.root_kind

theorem pairwise_chain (wf : d.WellFormed) (fuel : Nat) (id : NodeId) :
    (d.chain fuel id).Nodup := by
  obtain ⟨rank, hr⟩ := wf.ranked
  -- Ranks fall on the way up, so no node is met twice.
  have below : ∀ fuel id, ∀ a ∈ d.chain fuel id, rank a ≤ rank id := by
    intro fuel
    induction fuel with
    | zero => intro id a ha; cases ha
    | succ fuel ih =>
      intro id a ha
      rcases Nat.lt_or_ge id d.size with hid | hid
      · rw [chain_succ hid, List.mem_cons] at ha
        rcases ha with rfl | ha
        · exact le_rfl
        · cases hp : d.parent? id with
          | none => simp [hp] at ha
          | some p => exact (ih p a (by simpa [hp] using ha)).trans (hr id p hp).le
      · simp [chain_unknown hid] at ha
  induction fuel generalizing id with
  | zero => exact List.nodup_nil
  | succ fuel ih =>
    rcases Nat.lt_or_ge id d.size with hid | hid
    · rw [chain_succ hid]
      cases hp : d.parent? id with
      | none => simp
      | some p =>
        refine List.nodup_cons.2 ⟨fun h => ?_, by simpa using ih p⟩
        exact absurd (below fuel p id (by simpa [hp] using h)) (Nat.not_le.2 (hr id p hp))
    · simp [chain_unknown hid]

theorem length_chain_le (wf : d.WellFormed) (fuel : Nat) (id : NodeId) :
    (d.chain fuel id).length ≤ d.size := by
  have sub : d.chain fuel id ⊆ List.range d.size := fun a ha =>
    List.mem_range.2 (lt_size_of_mem_chain ha)
  simpa using ((wf.pairwise_chain fuel id).subperm sub).length_le

/-- The recursion behind `ancestors`. -/
theorem ancestors_eq (wf : d.WellFormed) {id : NodeId} (h : id < d.size) :
    d.ancestors id = id :: ((d.parent? id).map d.ancestors).getD [] := by
  have full : d.chain d.size id = d.chain (d.size + 1) id := by
    rw [chain_eq_take d.size id, List.take_of_length_le (wf.length_chain_le _ _)]
  rw [ancestors, full, chain_succ h]
  rfl

theorem nodup_ancestors (wf : d.WellFormed) (id : NodeId) : (d.ancestors id).Nodup :=
  wf.pairwise_chain _ _

theorem ancestors_of_parent (wf : d.WellFormed) {c p : NodeId} (h : d.parent? c = some p) :
    d.ancestors c = c :: d.ancestors p := by
  rw [wf.ancestors_eq (lt_size_of_parent? h), h]
  rfl

theorem ancestors_of_no_parent (wf : d.WellFormed) {id : NodeId} (hs : id < d.size)
    (h : d.parent? id = none) : d.ancestors id = [id] := by
  rw [wf.ancestors_eq hs, h]
  rfl

theorem self_mem_ancestors (wf : d.WellFormed) {id : NodeId} (h : id < d.size) :
    id ∈ d.ancestors id := by
  rw [wf.ancestors_eq h]
  exact List.mem_cons_self

end WellFormed

/-- The number of nodes on the way up from a node, itself included. -/
def depth (d : Document L) (id : NodeId) : Nat := (d.ancestors id).length

namespace WellFormed

theorem depth_le (wf : d.WellFormed) (id : NodeId) : d.depth id ≤ d.size := wf.length_chain_le _ _

theorem depth_of_parent (wf : d.WellFormed) {c p : NodeId} (h : d.parent? c = some p) :
    d.depth c = d.depth p + 1 := by
  rw [depth, depth, wf.ancestors_of_parent h, List.length_cons]

theorem depth_pos (wf : d.WellFormed) {id : NodeId} (h : id < d.size) : 0 < d.depth id := by
  rw [depth, wf.ancestors_eq h]
  exact Nat.succ_pos _

/-- A walk down from a node whose steps depend on the children only: fuel that reaches below the
deepest node does not show. -/
theorem walk_eq (wf : d.WellFormed) {α : Type} (walk : Nat → NodeId → α)
    (step : ∀ fuel fuel' id, (∀ c ∈ d.children id, walk fuel c = walk fuel' c) →
      walk (fuel + 1) id = walk (fuel' + 1) id) {fuel fuel' : Nat} {id : NodeId}
    (h : d.size < fuel + d.depth id) (h' : d.size < fuel' + d.depth id) :
    walk fuel id = walk fuel' id := by
  have hle := wf.depth_le id
  induction fuel generalizing fuel' id with
  | zero => omega
  | succ fuel ih =>
    cases fuel' with
    | zero => omega
    | succ fuel' =>
      refine step fuel fuel' id fun c hc => ?_
      have := wf.depth_of_parent (wf.mem_children.1 hc)
      exact ih (by omega) (by omega) (wf.depth_le c)

/-- From parents to children. -/
theorem induct_up (wf : d.WellFormed) {P : NodeId → Prop}
    (top : ∀ id, d.parent? id = none → P id)
    (step : ∀ c p, d.parent? c = some p → P p → P c) (id : NodeId) : P id := by
  obtain ⟨rank, hr⟩ := wf.ranked
  induction hn : rank id using Nat.strong_induction_on generalizing id with
  | _ n ih =>
    cases hp : d.parent? id with
    | none => exact top id hp
    | some p => exact step id p hp (ih (rank p) (hn ▸ hr id p hp) p rfl)

/-! ## Ancestors of ancestors -/

theorem ancestors_suffix (wf : d.WellFormed) {a id : NodeId} (h : a ∈ d.ancestors id) :
    ∃ below, d.ancestors id = below ++ d.ancestors a ∧ a ∉ below := by
  induction id using wf.induct_up with
  | top id hp =>
    rw [wf.ancestors_of_no_parent (lt_size_of_ancestor h) hp, List.mem_singleton] at h
    exact ⟨[], by simp [h], by simp⟩
  | step c p hp ih =>
    rcases eq_or_ne a c with rfl | hne
    · exact ⟨[], by simp, by simp⟩
    · rw [wf.ancestors_of_parent hp, List.mem_cons] at h
      obtain ⟨below, hb, hn⟩ := ih (h.resolve_left hne)
      exact ⟨c :: below, by rw [wf.ancestors_of_parent hp, hb, List.cons_append],
        by simp [hne, hn]⟩

theorem mem_ancestors_trans (wf : d.WellFormed) {a b c : NodeId} (hab : a ∈ d.ancestors b)
    (hbc : b ∈ d.ancestors c) : a ∈ d.ancestors c := by
  obtain ⟨below, hb, -⟩ := wf.ancestors_suffix hbc
  rw [hb]
  exact List.mem_append_right _ hab

theorem mem_ancestors_of_parent (wf : d.WellFormed) {a c p : NodeId} (h : d.parent? c = some p) :
    a ∈ d.ancestors c ↔ a = c ∨ a ∈ d.ancestors p := by
  rw [wf.ancestors_of_parent h, List.mem_cons]

theorem parent_mem_ancestors (wf : d.WellFormed) {a b p : NodeId} (h : a ∈ d.ancestors b)
    (hp : d.parent? a = some p) : p ∈ d.ancestors b :=
  wf.mem_ancestors_trans ((wf.mem_ancestors_of_parent hp).2
    (.inr (wf.self_mem_ancestors (wf.lt_size_parent hp)))) h

theorem depth_le_of_mem_ancestors (wf : d.WellFormed) {a b : NodeId} (h : a ∈ d.ancestors b) :
    d.depth a ≤ d.depth b := by
  obtain ⟨below, hb, -⟩ := wf.ancestors_suffix h
  simp [depth, hb]

/-- On the way up every depth is met once. -/
theorem eq_of_depth_eq (wf : d.WellFormed) {a b id : NodeId} (ha : a ∈ d.ancestors id)
    (hb : b ∈ d.ancestors id) (h : d.depth a = d.depth b) : a = b := by
  obtain ⟨u, hu, -⟩ := wf.ancestors_suffix ha
  obtain ⟨v, hv, -⟩ := wf.ancestors_suffix hb
  have suffix : d.ancestors a = d.ancestors b :=
    (List.append_inj' (hu.symm.trans hv) h).2
  rw [wf.ancestors_eq (lt_size_of_mem_ancestors ha),
    wf.ancestors_eq (lt_size_of_mem_ancestors hb)] at suffix
  exact (List.cons.inj suffix).1

theorem ancestors_antisymm (wf : d.WellFormed) {a b : NodeId} (hab : a ∈ d.ancestors b)
    (hba : b ∈ d.ancestors a) : a = b :=
  wf.eq_of_depth_eq hab (wf.self_mem_ancestors (lt_size_of_mem_ancestors hba))
    (le_antisymm (wf.depth_le_of_mem_ancestors hab) (wf.depth_le_of_mem_ancestors hba))

/-- Of two nodes on one way up, one is an ancestor of the other. -/
theorem mem_ancestors_or (wf : d.WellFormed) {a b id : NodeId} (ha : a ∈ d.ancestors id)
    (hb : b ∈ d.ancestors id) : a ∈ d.ancestors b ∨ b ∈ d.ancestors a := by
  induction id using wf.induct_up with
  | top id hp =>
    have hid := lt_size_of_ancestor ha
    rw [wf.ancestors_of_no_parent hid hp, List.mem_singleton] at ha hb
    subst ha hb
    exact .inl (wf.self_mem_ancestors hid)
  | step c p hp ih =>
    rcases (wf.mem_ancestors_of_parent hp).1 ha with rfl | hap
    · exact .inr hb
    · rcases (wf.mem_ancestors_of_parent hp).1 hb with rfl | hbp
      · exact .inl ha
      · exact ih hap hbp

theorem not_mem_ancestors_parent (wf : d.WellFormed) {c p : NodeId} (h : d.parent? c = some p) :
    c ∉ d.ancestors p := by
  intro hc
  have := wf.depth_le_of_mem_ancestors hc
  have := wf.depth_of_parent h
  omega

/-- A proper ancestor is reached through exactly one of its children. -/
theorem exists_child_mem_ancestors (wf : d.WellFormed) {a id : NodeId} (h : a ∈ d.ancestors id)
    (hne : a ≠ id) : ∃ c ∈ d.children a, c ∈ d.ancestors id := by
  induction id using wf.induct_up with
  | top id hp =>
    rw [wf.ancestors_of_no_parent (lt_size_of_ancestor h) hp, List.mem_singleton] at h
    exact absurd h hne
  | step c p hp ih =>
    rw [wf.mem_ancestors_of_parent hp] at h
    rcases eq_or_ne a p with rfl | hap
    · exact ⟨c, wf.mem_children.2 hp, wf.self_mem_ancestors (lt_size_of_parent? hp)⟩
    · obtain ⟨x, hx, hxp⟩ := ih (h.resolve_left hne) hap
      exact ⟨x, hx, (wf.mem_ancestors_of_parent hp).2 (.inr hxp)⟩

/-! ## Kinds -/

theorem accepts_child (wf : d.WellFormed) {p c : NodeId} {kp : Kind} (hp : d.kind? p = some kp)
    (hc : c ∈ d.children p) : ∃ kc, d.kind? c = some kc ∧ kp.accepts kc := by
  obtain ⟨kp', kc, h, hk, ha⟩ := wf.accepts (wf.mem_children.1 hc)
  rw [hp, Option.some.injEq] at h
  exact ⟨kc, hk, h ▸ ha⟩

theorem kind_group (wf : d.WellFormed) {t g : NodeId} (ht : d.kind? t = some .table)
    (hg : g ∈ d.children t) : d.kind? g = some .rowGroup := by
  obtain ⟨k, hk, ha⟩ := wf.accepts_child ht hg
  cases k <;> first | exact hk | cases ha

theorem kind_row (wf : d.WellFormed) {g r : NodeId} (hg : d.kind? g = some .rowGroup)
    (hr : r ∈ d.children g) : d.kind? r = some .row := by
  obtain ⟨k, hk, ha⟩ := wf.accepts_child hg hr
  cases k <;> first | exact hk | cases ha

theorem kind_cell (wf : d.WellFormed) {r c : NodeId} (hr : d.kind? r = some .row)
    (hc : c ∈ d.children r) : d.kind? c = some .cell := by
  obtain ⟨k, hk, ha⟩ := wf.accepts_child hr hc
  cases k <;> first | exact hk | cases ha

theorem kind_inline (wf : d.WellFormed) {b r : NodeId} (hb : d.kind? b = some .block)
    (hr : r ∈ d.children b) : d.kind? r = some .inline := by
  obtain ⟨k, hk, ha⟩ := wf.accepts_child hb hr
  cases k <;> first | exact hk | cases ha

theorem children_inline (wf : d.WellFormed) {r : NodeId} (hr : d.kind? r = some .inline) :
    d.children r = [] := by
  rw [List.eq_nil_iff_forall_not_mem]
  intro c hc
  obtain ⟨k, -, ha⟩ := wf.accepts_child hr hc
  rw [Kind.inline_accepts] at ha
  cases ha

end WellFormed

end RichTable.Document
