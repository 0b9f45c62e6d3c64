import Mathlib
import RichTable.Proofs.Editor.Count
import RichTable.Proofs.Editor.Load
import RichTable.Proofs.Grid.Greedy

/-!
# Running scripts

Whatever edits a script holds, running it on a table without a fault succeeds, and each of its edits
leaves a regular table (`Script.run_regular`).

A session that is fed with the edits of a script one by one gives the same answers and ends with the
same table, as long as there is a table (`Script.run_eq_feed`). Once all rows have been deleted they part:
the session answers `false`, while the script goes on with the table that has been taken out of the
document (`Script.run_ne_feed`).
-/

namespace RichTable.Script

open EditorAction

variable {L : Type} [Length L]

/-- Once the table has been built, the answer is up to the edits. -/
theorem run_eq {s : Script L} {t : NodeId} {e : Editor L}
    (build : (insertTable s.table).run.run { config := s.config } = (.ok t, e)) :
    s.run = match (s.edits.mapM (apply t)).run.run e with
      | (.ok applied, e') => .ok { applied, revision := e'.revision, table := e'.outline? t }
      | (.error err, _) => .error err := by
  rw [run, runIn, run_bind_eq, build]
  dsimp only
  rw [run_bind_eq]
  rcases (s.edits.mapM (apply t)).run.run e with ⟨_ | _, _⟩ <;> rfl

/-- Edits of any kind keep a table sound. -/
theorem ensures_mapM_apply {t : NodeId} {e : Editor L} (sound : e.doc.Sound t)
    (edits : List (Edit L)) : Ensures (edits.mapM (apply t)) e fun _ e' => e'.doc.Sound t := by
  apply Ensures.mapM (I := fun _ _ e' => e'.doc.Sound t) _ edits e sound
  intro edit _ _ e sound
  exact (ensures_apply sound edit).mono fun _ _ h => h.1

/-- A script whose table has no fault runs to its end. Its outcome is read from the state that its edits
lead to, and the states on the way are those after some of the edits, from which the others lead there.
In each of them the table is regular, placing it again changes nothing, and its grid has no fault. -/
theorem run_regular (s : Script L) {t : NodeId} {e : Editor L}
    (build : (insertTable s.table).run.run { config := s.config } = (.ok t, e))
    (grid : (Action.checkGrid t).run.run e.doc = (.ok (), e.doc)) :
    ∃ applied e', (s.edits.mapM (apply t)).run.run e = (.ok applied, e') ∧
      s.run = .ok { applied, revision := e'.revision, table := e'.outline? t } ∧
      ∀ edits rest, s.edits = edits ++ rest →
        ∃ done e₁ others, (edits.mapM (apply t)).run.run e = (.ok done, e₁) ∧
          (rest.mapM (apply t)).run.run e₁ = (.ok others, e') ∧ applied = done ++ others ∧
          e₁.doc.Regular t ∧
          (Action.place t).run.run e₁.doc = (.ok (e₁.doc.columnCount t), e₁.doc) ∧
          (Action.checkGrid t).run.run e₁.doc = (.ok (), e₁.doc) := by
  obtain ⟨t', e', build', loaded, -⟩ := ensures_insertTable s.config s.table
  cases build.symm.trans build'
  have sound := loaded.sound (Action.checkGrid_run_eq_ok.1 grid).1
  obtain ⟨applied, e', all, -⟩ := ensures_mapM_apply sound s.edits
  refine ⟨applied, e', all, by rw [run_eq build, all], fun edits rest split => ?_⟩
  obtain ⟨done, e₁, begun, sound₁⟩ := ensures_mapM_apply sound edits
  obtain ⟨others, e₂, last, -⟩ := ensures_mapM_apply sound₁ rest
  have both : (s.edits.mapM (apply t)).run.run e = (.ok (done ++ others), e₂) := by
    rw [split, List.mapM_append, run_bind_eq, begun]
    dsimp only
    rw [run_bind_eq, last]
    rfl
  cases all.symm.trans both
  have reg := sound₁.regular
  refine ⟨done, e₁, others, begun, last, rfl, reg, ?_, ?_⟩
  · rw [Action.place_run reg.wf reg.kind, reg.settled,
      ← ((reg.wf.settled_iff reg.kind).1 reg.settled).2.2]
  · have fault := (reg.wf.gridFault?_eq_none_iff reg.kind reg.settled).2 reg.tiled
    exact Action.checkGrid_run_eq_ok.2 ⟨fault, rfl⟩

/-- A tall cell and a wide one, and edits that cut both. -/
def cuts : Script Int where
  config := .standard
  table := { groups := [[[{ text := "tall", rowSpan := 2 }, { text := "wide", columnSpan := 2 }],
    [{ text := "x" }, { text := "y" }]]] }
  edits := [.deleteRows 0 0, .insertColumns 1 1 .after, .deleteColumns 0 1]

/-- What building the table of `cuts` leads to. -/
def cutsStart : Except EditError NodeId × Editor Int :=
  (insertTable cuts.table).run.run { config := cuts.config }

theorem run_regular_cuts :
    cutsStart = (.ok 1, cutsStart.2) ∧
      (Action.checkGrid 1).run.run cutsStart.2.doc = (.ok (), cutsStart.2.doc) ∧
      ∃ done e₁ others e', (([.deleteRows 0 0] : List (Edit Int)).mapM (apply 1)).run.run cutsStart.2 =
          (.ok done, e₁) ∧ e₁.doc.Regular 1 ∧
        (([.insertColumns 1 1 .after, .deleteColumns 0 1] : List (Edit Int)).mapM
          (apply 1)).run.run e₁ = (.ok others, e') ∧
        cuts.run = .ok ⟨done ++ others, e'.revision, e'.outline? 1⟩ := by
  have first : cutsStart.1 = .ok 1 := by cbv
  have built : cutsStart = (.ok 1, cutsStart.2) := Prod.fst_eq_iff.1 first
  have grid : (Action.checkGrid 1).run.run cutsStart.2.doc = (.ok (), cutsStart.2.doc) :=
    Action.checkGrid_run_eq_ok.2 ⟨by decide +kernel, rfl⟩
  obtain ⟨applied, e', -, run, states⟩ := run_regular cuts built grid
  obtain ⟨done, e₁, others, begun, last, rfl, reg, -⟩ :=
    states [.deleteRows 0 0] [.insertColumns 1 1 .after, .deleteColumns 0 1] rfl
  exact ⟨built, grid, done, e₁, others, e', begun, reg, last, run⟩

end RichTable.Script

namespace RichTable

variable {L : Type}

/-- A session has the table, the document, the settings and the count of an editor. -/
structure Editor.Drives (e : Editor L) (t : NodeId) (s : Session L) : Prop where
  table : s.table = some t
  doc : s.editor.doc = e.doc
  config : s.editor.config = e.config
  revision : s.editor.revision = e.revision

theorem Editor.Drives.outline? {e : Editor L} {t : NodeId} {s : Session L} (h : e.Drives t s) :
    s.outline? = e.outline? t := by
  rw [Session.outline?, Session.liveTable?, h.table, h.doc, Option.filter_some, Editor.outline?]
  split <;> rfl

variable [Length L]

namespace Session

/-- Applies edits one by one up to the first failure, and collects the answers. -/
def feed (s : Session L) : List (Edit L) → Except EditError (List Bool) × Session L
  | [] => (.ok [], s)
  | edit :: edits =>
    match s.apply edit with
    | (.error err, s') => (.error err, s')
    | (.ok done, s') => ((s'.feed edits).1.map (done :: ·), (s'.feed edits).2)

/-- Whether there is a table whenever one of the edits is applied. -/
def staysLive (s : Session L) : List (Edit L) → Bool
  | [] => true
  | edit :: edits => s.liveTable?.isSome &&
    match s.apply edit with
    | (.error _, _) => true
    | (.ok _, s') => s'.staysLive edits

end Session

namespace Editor.Drives

variable {e : Editor L} {t : NodeId} {s : Session L}

/-- While there is a table, an edit does the same to both. -/
theorem apply (h : e.Drives t s) (live : s.liveTable?.isSome = true) (edit : Edit L) :
    ∃ result e' s', (EditorAction.apply t edit).run.run e = (result, e') ∧
      s.apply edit = (result, s') ∧ e'.Drives t s' := by
  have live : s.liveTable? = some t := by
    rw [Session.liveTable?, h.table, Option.filter_some] at live ⊢
    split_ifs at live ⊢ with attached
    · rfl
    · cases live
  obtain ⟨result, d', t', run⟩ := EditorAction.counted_apply e.doc e.config t edit
  refine ⟨result, _, { s with editor := s.editor.tally (tookEffect id result) d' t' },
    run e rfl rfl, ?_, ?_⟩
  · rw [Session.apply_of_live live, run s.editor h.doc h.config]
  · refine ⟨h.table, ?_, ?_, ?_⟩
    · rw [doc_tally, doc_tally]
    · rw [config_tally, config_tally, h.config]
    · rw [revision_tally, revision_tally, h.revision]

theorem feed (h : e.Drives t s) (edits : List (Edit L)) (live : s.staysLive edits = true) :
    ∃ result e' s', (edits.mapM (EditorAction.apply t)).run.run e = (result, e') ∧
      s.feed edits = (result, s') ∧ e'.Drives t s' := by
  induction edits generalizing e s with
  | nil => exact ⟨.ok [], e, s, rfl, rfl, h⟩
  | cons edit edits ih =>
    rw [Session.staysLive, Bool.and_eq_true] at live
    obtain ⟨result, e', s', run, answer, h'⟩ := h.apply live.1 edit
    rw [answer] at live
    rw [List.mapM_cons, run_bind_eq, run, Session.feed, answer]
    cases result with
    | error err => exact ⟨.error err, e', s', rfl, rfl, h'⟩
    | ok done =>
      obtain ⟨rest, e'', s'', run', answers, h''⟩ := ih h' live.2
      dsimp only
      rw [run_bind_eq, run', answers]
      cases rest with
      | error err => exact ⟨.error err, e'', s'', rfl, rfl, h''⟩
      | ok applied => exact ⟨.ok (done :: applied), e'', s'', rfl, rfl, h''⟩

end Editor.Drives

namespace Script

/-- As long as there is a table, running a script and feeding its edits to a session that has loaded its
table give the same answers, the same count and the same table, or fail in the same way. -/
theorem run_eq_feed (s : Script L) {session : Session L}
    (load : (Session.ofConfig s.config).load s.table = (.ok (), session))
    (live : session.staysLive s.edits = true) :
    ∃ answers session', session.feed s.edits = (answers, session') ∧
      s.run = answers.map fun applied =>
        { applied, revision := session'.editor.revision, table := session'.outline? } := by
  obtain ⟨t, e, build, loaded, -⟩ := EditorAction.ensures_insertTable s.config s.table
  have start : e.Drives t session := by
    simp only [Session.load, Session.ofConfig, build] at load
    cases load
    exact ⟨rfl, rfl, rfl, rfl⟩
  obtain ⟨result, e', session', edits, answers, h⟩ := start.feed s.edits live
  refine ⟨result, session', answers, ?_⟩
  rw [run_eq build, edits]
  cases result with
  | error err => rfl
  | ok applied => simp only [Except.map, h.outline?, h.revision]

/-- The session that has loaded the table of a script. -/
def session (s : Script L) : Except EditError Unit × Session L :=
  (Session.ofConfig s.config).load s.table

theorem run_eq_feed_cuts :
    cuts.session = (.ok (), cuts.session.2) ∧ cuts.session.2.staysLive cuts.edits = true ∧
      ∃ answers session', cuts.session.2.feed cuts.edits = (answers, session') ∧
        cuts.run = answers.map fun applied =>
          { applied, revision := session'.editor.revision, table := session'.outline? } := by
  have first : cuts.session.1 = .ok () := by decide +kernel
  have load : cuts.session = (.ok (), cuts.session.2) := Prod.fst_eq_iff.1 first
  have live : cuts.session.2.staysLive cuts.edits = true := by decide +kernel
  exact ⟨load, live, run_eq_feed cuts load live⟩

/-- All rows are deleted, and then a row is to be inserted. -/
def emptied : Script Int where
  config := .standard
  table := { groups := [[[{ text := "a" }]]] }
  edits := [.deleteRows 0 0, .insertRows 0 1 .after]

/-- A script goes on editing a table that has been deleted; a session does not. -/
theorem run_ne_feed :
    emptied.run = .ok { applied := [true, true], revision := 3, table := none } ∧
      (emptied.session.2.feed emptied.edits).1 = .ok [true, false] ∧
      (emptied.session.2.feed emptied.edits).2.editor.revision = 2 := by
  decide +kernel

end Script

end RichTable
