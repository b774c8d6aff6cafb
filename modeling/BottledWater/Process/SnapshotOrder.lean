/-
# BottledWater.Process.SnapshotOrder — what the order of the phases says about a run.

`Process.Phases` shows that the log of every run is a path of the phase automaton.  Here a path is read:
the begin callback comes before any row, the rows reach `parse_frame` in their order and each once, the
commit callback follows the end of the query and its `COMMIT`, and the stream starts after that.  A
result with an error status or a row that cannot be parsed ends the path, so no commit callback follows.
-/
import BottledWater.Process.Phases
import BottledWater.Process.Slot
import Mathlib.Data.List.TakeWhile

namespace BottledWater.Process

open BottledWater.Lib BottledWater.Client BottledWater.Kafka

/-! ## §1 — the transitions -/

/-- The steps that `Phase.next` allows, one constructor a transition. -/
inductive Next : Phase → Step → Phase → Prop
  | found : Next .connecting (.slotExists true) .resuming
  | absent : Next .connecting (.slotExists false) .absent
  | resuming {step : Step} (h : ∀ found, step ≠ .slotExists found) : Next .resuming step .resuming
  | beginTxn : Next .absent .beginTxn (.reading [])
  | result {res : PGresult} (h : ResultOk res) :
    Next (.reading []) (.result (some res)) (.reading res.values)
  | badResult {res : PGresult} (h : ¬ ResultOk res) : Next (.reading []) (.result (some res)) .failed
  | row {row : Row} {rows : List Row} {buf : List UInt8} (h : row.frame = some buf) :
    Next (.reading (row :: rows)) (.parseFrame buf true) (.reading rows)
  | badRow {row : Row} {rows : List Row} {buf : List UInt8} (h : row.frame = some buf) :
    Next (.reading (row :: rows)) (.parseFrame buf false) .failed
  | queryEnd : Next (.reading []) (.result none) .readToEnd
  | commit : Next .readToEnd (.commit true) .committed
  | badCommit : Next .readToEnd (.commit false) .failed
  | commitTxn : Next .committed .commitTxn .reported
  | streamStart : Next .reported .streamStart .streaming
  | streamRead : Next .streaming .streamRead .streaming
  | streamFrame {buf : List UInt8} {parsed : Bool} : Next .streaming (.parseFrame buf parsed) .streaming

theorem next_of_eq_some {phase phase' : Phase} {step : Step} (h : phase.next step = some phase') :
    Next phase step phase' := by
  unfold Phase.next at h
  split at h
  case h_1 found =>
    obtain rfl := Option.some.inj h
    cases found
    · exact .absent
    · exact .found
  case h_2 => simp at h
  case h_3 hne =>
    obtain rfl := Option.some.inj h
    exact .resuming hne
  case h_6 res =>
    obtain rfl := Option.some.inj h
    split
    · exact .result ‹_›
    · exact .badResult ‹_›
  case h_7 row rows buf parsed =>
    split at h
    · obtain rfl := Option.some.inj h
      cases parsed
      · exact .badRow ‹_›
      · exact .row ‹_›
    · simp at h
  case h_8 ok =>
    obtain rfl := Option.some.inj h
    cases ok
    · exact .badCommit
    · exact .commit
  case h_13 => simp at h
  all_goals
    obtain rfl := Option.some.inj h
    constructor

/-- Nothing leads away from a slot that existed. -/
theorem run_resuming {steps : List Step} {phase : Phase} (h : run Phase.next .resuming steps = some phase) :
    phase = .resuming ∧ ∀ found, .slotExists found ∉ steps := by
  refine run_rule (P := fun steps phase => phase = .resuming ∧ ∀ found, .slotExists found ∉ steps)
    ⟨rfl, by simp⟩ ?_ h
  rintro steps _ step phase - ⟨rfl, hnone⟩ hnext
  cases next_of_eq_some hnext with
  | resuming hne => exact ⟨rfl, fun found => by simpa using ⟨hnone found, (hne found).symm⟩⟩

/-- If there was no slot, the answer about it is the first step, and the rest is a path from there. -/
theorem run_absent {steps : List Step} {phase : Phase} (h : run Phase.next .connecting steps = some phase)
    (habsent : .slotExists false ∈ steps) :
    ∃ rest, steps = .slotExists false :: rest ∧ run Phase.next .absent rest = some phase := by
  cases steps with
  | nil => simp at habsent
  | cons step rest =>
    rw [run_cons] at h
    obtain ⟨phase', hnext, hrest⟩ := Option.bind_eq_some_iff.mp h
    cases next_of_eq_some hnext with
    | absent => exact ⟨rest, rfl, hrest⟩
    | found => exact absurd (by simpa using habsent) ((run_resuming hrest).2 false)

/-! ## §2 — callbacks, `COMMIT` and the start of the stream -/

/-- The query was read to its end, and the transaction then committed. -/
def QueryCommitted (steps : List Step) : Prop :=
  ∃ before after, steps = before ++ .result none :: after ∧ .commit true ∈ after

theorem QueryCommitted.snoc {steps : List Step} (h : QueryCommitted steps) (step : Step) :
    QueryCommitted (steps ++ [step]) := by
  obtain ⟨before, after, rfl, hmem⟩ := h
  exact ⟨before, after ++ [step], by simp, by simp [hmem]⟩

/-- Which steps a path to `phase` has made. -/
structure Made (steps : List Step) (phase : Phase) : Prop where
  live : phase ≠ .connecting ∧ phase ≠ .resuming
  beginTxn : .beginTxn ∈ steps ↔ phase ≠ .absent
  queryEnd : phase = .readToEnd → .result none ∈ steps
  commit : phase = .committed ∨ phase = .reported ∨ phase = .streaming → QueryCommitted steps
  commitTxn : .commitTxn ∈ steps ↔ phase = .reported ∨ phase = .streaming
  streamStart : .streamStart ∈ steps ↔ phase = .streaming
  streamRead : .streamRead ∈ steps → phase = .streaming

/-- A step that no field speaks about. -/
theorem Made.snoc {steps : List Step} {phase phase' : Phase} (h : Made steps phase) {step : Step}
    (hlive : phase' ≠ .connecting ∧ phase' ≠ .resuming) (hbegin : step ≠ .beginTxn)
    (hcommit : step ≠ .commitTxn) (hstart : step ≠ .streamStart) (hread : step ≠ .streamRead)
    (habsent : phase = .absent ↔ phase' = .absent) (hreported : phase = .reported ↔ phase' = .reported)
    (hstreaming : phase = .streaming ↔ phase' = .streaming)
    (hend : phase' = .readToEnd → .result none ∈ steps ++ [step])
    (hcommitted : phase' = .committed → QueryCommitted (steps ++ [step])) :
    Made (steps ++ [step]) phase' where
  live := hlive
  beginTxn := by simp [h.beginTxn, habsent, hbegin.symm]
  queryEnd := hend
  commit := by
    rintro (heq | heq)
    · exact hcommitted heq
    · rw [← hreported, ← hstreaming] at heq
      exact (h.commit (Or.inr heq)).snoc step
  commitTxn := by simp [h.commitTxn, hreported, hstreaming, hcommit.symm]
  streamStart := by simp [h.streamStart, hstreaming, hstart.symm]
  streamRead := by simpa [hread.symm, hstreaming] using h.streamRead

theorem made_of_run {steps : List Step} {phase : Phase} (h : run Phase.next .absent steps = some phase) :
    Made steps phase := by
  refine run_rule (P := Made) ⟨by simp, by simp, by simp, by simp, by simp, by simp, by simp⟩ ?_ h
  intro steps phase step phase' _ ih hnext
  cases next_of_eq_some hnext with
  | found => exact absurd rfl ih.live.1
  | absent => exact absurd rfl ih.live.1
  | resuming _ => exact absurd rfl ih.live.2
  | beginTxn =>
    have hno := ih.commitTxn
    have hno' := ih.streamStart
    have hno'' := ih.streamRead
    constructor <;> simp_all
  | result _ => apply ih.snoc <;> simp
  | badResult _ => apply ih.snoc <;> simp
  | row _ => apply ih.snoc <;> simp
  | badRow _ => apply ih.snoc <;> simp
  | queryEnd => apply ih.snoc <;> simp
  | commit =>
    obtain ⟨before, after, rfl⟩ := List.append_of_mem (ih.queryEnd rfl)
    refine ih.snoc (by simp) (by simp) (by simp) (by simp) (by simp) (by simp) (by simp) (by simp)
      (by simp) fun _ => ?_
    exact ⟨before, after ++ [.commit true], by simp, by simp⟩
  | badCommit => apply ih.snoc <;> simp
  | commitTxn =>
    have hcommit := (ih.commit (Or.inl rfl)).snoc .commitTxn
    have hbegin := ih.beginTxn
    have hstart := ih.streamStart
    have hread := ih.streamRead
    constructor <;> simp_all
  | streamStart =>
    have hcommit := (ih.commit (Or.inr (Or.inl rfl))).snoc .streamStart
    have hbegin := ih.beginTxn
    have hreported := ih.commitTxn
    have hread := ih.streamRead
    constructor <;> simp_all
  | streamRead =>
    have hcommit := (ih.commit (Or.inr (Or.inr rfl))).snoc .streamRead
    have hbegin := ih.beginTxn
    have hreported := ih.commitTxn
    have hstart := ih.streamStart
    constructor <;> simp_all
  | streamFrame => apply ih.snoc <;> simp

/-! ## §3 — the rows -/

/-- The steps before the stream. -/
def snapshotSteps (steps : List Step) : List Step := steps.takeWhile (· ≠ .streamStart)

theorem snapshotSteps_of_not_mem {steps : List Step} (h : .streamStart ∉ steps) :
    snapshotSteps steps = steps := by
  rw [snapshotSteps, List.takeWhile_eq_self_iff]
  intro step hmem
  exact decide_eq_true fun heq => h (heq ▸ hmem)

theorem snapshotSteps_snoc {steps : List Step} (h : .streamStart ∉ steps) (step : Step) :
    snapshotSteps (steps ++ [step]) = snapshotSteps steps ++ snapshotSteps [step] := by
  have hself := snapshotSteps_of_not_mem h
  rw [hself]
  rw [snapshotSteps] at hself
  rw [snapshotSteps, List.takeWhile_append, if_pos (congrArg List.length hself)]
  rfl

/-- Once the stream has started, the steps of the snapshot do not change. -/
theorem snapshotSteps_append {steps : List Step} (h : .streamStart ∈ steps) (more : List Step) :
    snapshotSteps (steps ++ more) = snapshotSteps steps := by
  rw [snapshotSteps, List.takeWhile_append, if_neg]
  · rfl
  · intro hlength
    have hself := List.IsPrefix.eq_of_length (List.takeWhile_prefix _) hlength
    rw [List.takeWhile_eq_self_iff] at hself
    exact absurd (hself _ h) (by simp)

/-- What was passed to `parse_frame`. -/
def framesPassed (steps : List Step) : List (List UInt8) :=
  steps.filterMap fun
    | .parseFrame buf _ => some buf
    | _ => none

/-- The rows of all results. -/
def resultRows (steps : List Step) : List Row :=
  steps.flatMap fun
    | .result (some res) => res.values
    | _ => []

/-- The rows that still have to be parsed. -/
def Phase.pending : Phase → List Row
  | .reading rows => rows
  | _ => []

/-- What has become of the rows on a path to `phase`. -/
structure Parsed (steps : List Step) (phase : Phase) : Prop where
  rows : ∃ pending, (resultRows steps).map Row.frame =
      (framesPassed (snapshotSteps steps)).map some ++ pending.map Row.frame ∧
    (phase ≠ .failed → pending = phase.pending)
  results : phase ≠ .failed → ∀ res, .result (some res) ∈ steps → ResultOk res
  frames : phase ≠ .failed → ∀ buf, .parseFrame buf false ∉ snapshotSteps steps

/-- A step before the stream: what it adds to the rows, it adds to the frames or to what is pending. -/
theorem Parsed.snoc {steps : List Step} {phase phase' : Phase} (h : Parsed steps phase) {step : Step}
    (pending : List Row) (hstart : .streamStart ∉ steps) (hlive : phase ≠ .failed)
    (hrows : (phase.pending ++ resultRows [step]).map Row.frame =
      (framesPassed (snapshotSteps [step])).map some ++ pending.map Row.frame)
    (hpending : phase' ≠ .failed → pending = phase'.pending)
    (hres : phase' ≠ .failed → ∀ res, step = .result (some res) → ResultOk res)
    (hframe : phase' ≠ .failed → ∀ buf, step ≠ .parseFrame buf false) :
    Parsed (steps ++ [step]) phase' := by
  obtain ⟨pending', hold, heq⟩ := h.rows
  obtain rfl := heq hlive
  refine ⟨⟨pending, ?_, hpending⟩, ?_, ?_⟩
  · have hresult : resultRows (steps ++ [step]) = resultRows steps ++ resultRows [step] := by
      simp [resultRows]
    have hpassed : framesPassed (snapshotSteps (steps ++ [step])) =
        framesPassed (snapshotSteps steps) ++ framesPassed (snapshotSteps [step]) := by
      rw [snapshotSteps_snoc hstart]
      simp [framesPassed]
    rw [hresult, hpassed, List.map_append, hold, List.map_append, List.append_assoc, List.append_assoc,
      ← hrows, List.map_append]
  · intro hne res hmem
    rcases List.mem_append.mp hmem with hold | hnew
    · exact h.results hlive res hold
    · exact hres hne res (List.mem_singleton.mp hnew).symm
  · intro hne buf hmem
    rw [snapshotSteps_snoc hstart] at hmem
    rcases List.mem_append.mp hmem with hold | hnew
    · exact h.frames hlive buf hold
    · have hself := (List.takeWhile_sublist _).mem hnew
      exact hframe hne buf (List.mem_singleton.mp hself).symm

/-- A step of the stream. -/
theorem Parsed.stream {steps : List Step} (h : Parsed steps .streaming) (hstart : .streamStart ∈ steps)
    {step : Step} (hrows : resultRows [step] = []) (hres : ∀ res, step ≠ .result (some res)) :
    Parsed (steps ++ [step]) .streaming := by
  obtain ⟨pending, hold, heq⟩ := h.rows
  refine ⟨⟨pending, ?_, heq⟩, ?_, ?_⟩
  · have hresult : resultRows (steps ++ [step]) = resultRows steps ++ resultRows [step] := by
      simp [resultRows]
    rw [hresult, hrows, List.append_nil, snapshotSteps_append hstart, hold]
  · intro hne res hmem
    rcases List.mem_append.mp hmem with hold | hnew
    · exact h.results hne res hold
    · exact absurd (List.mem_singleton.mp hnew).symm (hres res)
  · intro hne buf
    rw [snapshotSteps_append hstart]
    exact h.frames hne buf

theorem parsed_of_run {steps : List Step} {phase : Phase} (h : run Phase.next .absent steps = some phase) :
    Parsed steps phase := by
  refine run_rule (P := Parsed) ⟨⟨[], rfl, fun _ => rfl⟩, by simp, by simp [snapshotSteps]⟩ ?_ h
  intro steps phase step phase' hrun ih hnext
  have hmade := made_of_run hrun
  have hstart : phase ≠ .streaming → .streamStart ∉ steps := fun hne hmem =>
    hne (hmade.streamStart.mp hmem)
  cases next_of_eq_some hnext with
  | found => exact absurd rfl hmade.live.1
  | absent => exact absurd rfl hmade.live.1
  | resuming _ => exact absurd rfl hmade.live.2
  | beginTxn => exact ih.snoc [] (hstart (by simp)) (by simp) rfl (fun _ => rfl) (by simp) (by simp)
  | result hok =>
    refine ih.snoc _ (hstart (by simp)) (by simp) ?_ (fun _ => rfl) ?_ (by simp)
    · simp [Phase.pending, resultRows, framesPassed, snapshotSteps]
    · rintro - res heq
      obtain rfl : _ = res := by simpa using heq
      exact hok
  | @badResult res _ =>
    refine ih.snoc res.values (hstart (by simp)) (by simp) ?_ (by simp) (by simp) (by simp)
    simp [Phase.pending, resultRows, framesPassed, snapshotSteps]
  | row hrow =>
    refine ih.snoc _ (hstart (by simp)) (by simp) ?_ (fun _ => rfl) (by simp) (by simp)
    simp [Phase.pending, resultRows, framesPassed, snapshotSteps, hrow]
  | @badRow row rows buf hrow =>
    refine ih.snoc rows (hstart (by simp)) (by simp) ?_ (by simp) (by simp) (by simp)
    simp [Phase.pending, resultRows, framesPassed, snapshotSteps, hrow]
  | queryEnd => exact ih.snoc [] (hstart (by simp)) (by simp) rfl (fun _ => rfl) (by simp) (by simp)
  | commit => exact ih.snoc [] (hstart (by simp)) (by simp) rfl (fun _ => rfl) (by simp) (by simp)
  | badCommit => exact ih.snoc [] (hstart (by simp)) (by simp) rfl (by simp) (by simp) (by simp)
  | commitTxn => exact ih.snoc [] (hstart (by simp)) (by simp) rfl (fun _ => rfl) (by simp) (by simp)
  | streamStart => exact ih.snoc [] (hstart (by simp)) (by simp) rfl (fun _ => rfl) (by simp) (by simp)
  | streamRead => exact ih.stream (hmade.streamStart.mpr rfl) rfl (by simp)
  | streamFrame => exact ih.stream (hmade.streamStart.mpr rfl) rfl (by simp)

/-! ## §4 — the order -/

/-- **`SnapshotFirst steps`** — the order of a run in which there was no slot. -/
structure SnapshotFirst (steps : List Step) : Prop where
  beginOnce : steps.count .beginTxn ≤ 1
  beginFirst : ∀ before buf parsed after, steps = before ++ .parseFrame buf parsed :: after →
    .beginTxn ∈ before
  /-- The rows reach `parse_frame` in their order, each once, without a gap. -/
  rows : (framesPassed (snapshotSteps steps)).map some <+: (resultRows steps).map Row.frame
  commitOnce : steps.count .commitTxn ≤ 1
  /-- At the commit callback the query has ended, no result had an error status, every row has been
  passed to `parse_frame`, and `COMMIT` has succeeded. -/
  commitAfter : ∀ before after, steps = before ++ .commitTxn :: after →
    QueryCommitted before ∧ (∀ res, .result (some res) ∈ before → ResultOk res) ∧
      (framesPassed before).map some = (resultRows before).map Row.frame
  startOnce : steps.count .streamStart ≤ 1
  startAfter : ∀ before after, steps = before ++ .streamStart :: after → .commitTxn ∈ before
  readAfter : ∀ before after, steps = before ++ .streamRead :: after → .streamStart ∈ before
  /-- After a failure there is no commit callback. -/
  failure : (∃ res, .result (some res) ∈ steps ∧ ¬ ResultOk res) ∨
    (∃ buf, .parseFrame buf false ∈ snapshotSteps steps) → .commitTxn ∉ steps

section Order

variable {steps : List Step} {phase : Phase}

/-- Before a step that is not about the slot, the path has come from `absent`. -/
theorem exists_next (h : run Phase.next .absent steps = some phase) {step : Step}
    {before after : List Step} (hstep : step ≠ .slotExists false)
    (hsplit : .slotExists false :: steps = before ++ step :: after) :
    ∃ before' phase' phase'', before = .slotExists false :: before' ∧
      run Phase.next .absent before' = some phase' ∧ Next phase' step phase'' := by
  cases before with
  | nil => exact absurd (List.cons.inj hsplit).1.symm hstep
  | cons first before' =>
    obtain ⟨rfl, rfl⟩ := List.cons.inj hsplit
    obtain ⟨phase', phase'', hbefore, hnext⟩ := run_split h
    exact ⟨before', phase', phase'', rfl, hbefore, next_of_eq_some hnext⟩

/-- A step that is not allowed after itself. -/
theorem count_le_one (h : run Phase.next .absent steps = some phase) {step : Step}
    (hstep : step ≠ .slotExists false)
    (honce : ∀ {before phase' phase''}, Made before phase' → Next phase' step phase'' → step ∉ before) :
    (Step.slotExists false :: steps).count step ≤ 1 := by
  refine count_le_one_of_split fun before after hsplit hmem => ?_
  obtain ⟨before, phase', phase'', rfl, hbefore, hnext⟩ := exists_next h hstep hsplit
  exact honce (made_of_run hbefore) hnext (List.mem_of_ne_of_mem hstep hmem)

/-- A step that is only allowed after another. -/
theorem mem_before (h : run Phase.next .absent steps = some phase) {first step : Step}
    {before after : List Step} (hsplit : .slotExists false :: steps = before ++ step :: after)
    (hstep : step ≠ .slotExists false)
    (hfirst : ∀ {before phase' phase''}, Made before phase' → Next phase' step phase'' → first ∈ before) :
    first ∈ before := by
  obtain ⟨before, phase', phase'', rfl, hbefore, hnext⟩ := exists_next h hstep hsplit
  exact List.mem_cons_of_mem _ (hfirst (made_of_run hbefore) hnext)

theorem Made.not_beginTxn {phase' : Phase} (h : Made steps phase) (hnext : Next phase .beginTxn phase') :
    .beginTxn ∉ steps := by
  cases hnext with
  | resuming _ => exact absurd rfl h.live.2
  | beginTxn => simp [h.beginTxn]

theorem Made.beginTxn_of_frame {phase' : Phase} {buf : List UInt8} {parsed : Bool} (h : Made steps phase)
    (hnext : Next phase (.parseFrame buf parsed) phase') : .beginTxn ∈ steps := by
  cases hnext with
  | resuming _ => exact absurd rfl h.live.2
  | _ => simp [h.beginTxn]

theorem Made.committed_of_commitTxn {phase' : Phase} (h : Made steps phase)
    (hnext : Next phase .commitTxn phase') : phase = .committed := by
  cases hnext with
  | resuming _ => exact absurd rfl h.live.2
  | commitTxn => rfl

theorem Made.reported_of_streamStart {phase' : Phase} (h : Made steps phase)
    (hnext : Next phase .streamStart phase') : phase = .reported := by
  cases hnext with
  | resuming _ => exact absurd rfl h.live.2
  | streamStart => rfl

theorem Made.streaming_of_streamRead {phase' : Phase} (h : Made steps phase)
    (hnext : Next phase .streamRead phase') : phase = .streaming := by
  cases hnext with
  | resuming _ => exact absurd rfl h.live.2
  | streamRead => rfl

/-- Where nothing has failed, the frames are the rows that are not pending. -/
theorem Parsed.rows_eq (h : Parsed steps phase) (hlive : phase ≠ .failed) (hpending : phase.pending = []) :
    (framesPassed (snapshotSteps steps)).map some = (resultRows steps).map Row.frame := by
  obtain ⟨pending, hrows, heq⟩ := h.rows
  rw [hrows, heq hlive, hpending]
  simp

theorem snapshotFirst_of_run (h : run Phase.next .absent steps = some phase) :
    SnapshotFirst (.slotExists false :: steps) := by
  have hparsed := parsed_of_run h
  have hsnapshot : snapshotSteps (.slotExists false :: steps) = .slotExists false :: snapshotSteps steps := by
    simp [snapshotSteps]
  constructor
  case beginOnce => exact count_le_one h (by simp) Made.not_beginTxn
  case beginFirst => exact fun _ _ _ _ hsplit => mem_before h hsplit (by simp) Made.beginTxn_of_frame
  case rows =>
    obtain ⟨pending, hrows, -⟩ := hparsed.rows
    rw [hsnapshot]
    exact ⟨pending.map Row.frame, hrows.symm⟩
  case commitOnce =>
    refine count_le_one h (by simp) fun hmade hnext => ?_
    simp [hmade.commitTxn, hmade.committed_of_commitTxn hnext]
  case commitAfter =>
    intro before after hsplit
    obtain ⟨before, phase', phase'', rfl, hbefore, hnext⟩ := exists_next h (by simp) hsplit
    have hmade := made_of_run hbefore
    have hparsed := parsed_of_run hbefore
    obtain rfl := hmade.committed_of_commitTxn hnext
    obtain ⟨read, rest, rfl, hcommit⟩ := hmade.commit (Or.inl rfl)
    refine ⟨⟨.slotExists false :: read, rest, rfl, hcommit⟩, ?_, ?_⟩
    · exact fun res hmem => hparsed.results (by simp) res (by simpa using hmem)
    · have hrows := hparsed.rows_eq (by simp) rfl
      rw [snapshotSteps_of_not_mem (by simp [hmade.streamStart])] at hrows
      exact hrows
  case startOnce =>
    refine count_le_one h (by simp) fun hmade hnext => ?_
    simp [hmade.streamStart, hmade.reported_of_streamStart hnext]
  case startAfter =>
    refine fun _ _ hsplit => mem_before h hsplit (by simp) fun hmade hnext => ?_
    simp [hmade.commitTxn, hmade.reported_of_streamStart hnext]
  case readAfter =>
    refine fun _ _ hsplit => mem_before h hsplit (by simp) fun hmade hnext => ?_
    simp [hmade.streamStart, hmade.streaming_of_streamRead hnext]
  case failure =>
    -- a failure means the phase `failed`, which has no commit callback behind it
    intro hfailure hmem
    have hlive : phase ≠ .failed := by
      rintro rfl
      simp [(made_of_run h).commitTxn] at hmem
    rcases hfailure with ⟨res, hres, hbad⟩ | ⟨buf, hbuf⟩
    · exact hbad (hparsed.results hlive res (by simpa using hres))
    · rw [hsnapshot] at hbuf
      exact hparsed.frames hlive buf (by simpa using hbuf)

/-- Between two calls, and with nothing failed, every row so far has been parsed. -/
theorem Between.complete {w : World} (h : Between w) (habsent : .slotExists false ∈ stepsOf w.log) :
    .beginTxn ∈ stepsOf w.log ∧
      (framesPassed (snapshotSteps (stepsOf w.log))).map some = (resultRows (stepsOf w.log)).map Row.frame := by
  have hpath : ∀ {phase : Phase} {conn : Bool}, At phase conn w → phase ≠ .absent → phase ≠ .failed →
      phase.pending = [] → .beginTxn ∈ stepsOf w.log ∧
        (framesPassed (snapshotSteps (stepsOf w.log))).map some =
          (resultRows (stepsOf w.log)).map Row.frame := by
    intro phase conn hat hbegun hlive hpending
    have hrun := hat.path
    rw [Phase.entry, run_through] at hrun
    obtain ⟨rest, hsteps, hrest⟩ := run_absent hrun habsent
    have hrows := (parsed_of_run hrest).rows_eq hlive hpending
    rw [stepsOf, hsteps]
    refine ⟨List.mem_cons_of_mem _ ((made_of_run hrest).beginTxn.mpr hbegun), ?_⟩
    simpa [snapshotSteps, framesPassed, resultRows] using hrows
  cases h with
  | reading hat => exact hpath hat (by simp) (by simp) rfl
  | streaming hat => exact hpath hat (by simp) (by simp) rfl
  | resuming hat => exact hpath hat (by simp) (by simp) rfl

theorem Accepted.snapshotFirst {w : World} (h : Accepted w) (habsent : .slotExists false ∈ stepsOf w.log) :
    SnapshotFirst (stepsOf w.log) := by
  obtain ⟨phase, hrun⟩ := h
  rw [Phase.entry, run_through] at hrun
  obtain ⟨rest, hsteps, hrest⟩ := run_absent hrun habsent
  rw [stepsOf, hsteps]
  exact snapshotFirst_of_run hrest

end Order

theorem start_at (config : Config) (replies : List Reply) :
    At .connecting false (World.start config replies) := ⟨rfl, rfl⟩

/-- **Snapshot before stream.**  In every run in which there was no slot, whatever the replies: the begin
callback comes before any row, the rows reach `parse_frame` in order, the commit callback follows the
complete query and its `COMMIT`, and the stream starts after it.  While no error has stopped the run, no
row is left out. -/
theorem snapshot_before_stream (config : Config) (replies : List Reply) (operations : List Operation)
    {result : EStateM.Result Fault World PUnit}
    (hrun : clientRun operations (World.start config replies) = result)
    (habsent : .slotExists false ∈ stepsOf (finalWorld result).log) :
    SnapshotFirst (stepsOf (finalWorld result).log) ∧
    (faultOf result = none → (stepsOf (finalWorld result).log).count .beginTxn = 1 ∧
      (framesPassed (snapshotSteps (stepsOf (finalWorld result).log))).map some =
        (resultRows (stepsOf (finalWorld result).log)).map Row.frame) := by
  have hspec := clientRun_between operations _ (start_at config replies)
  rw [hrun] at hspec
  cases result with
  | error fault w => exact ⟨Accepted.snapshotFirst hspec habsent, by simp [faultOf]⟩
  | ok _ w =>
    have hfirst := hspec.accepted.snapshotFirst habsent
    obtain ⟨hbegin, hrows⟩ := hspec.complete habsent
    refine ⟨hfirst, fun _ => ⟨?_, hrows⟩⟩
    exact Nat.le_antisymm hfirst.beginOnce (List.count_pos_iff.mpr hbegin)

/-- There is no slot; the snapshot has one row; the query ends, and the stream has no message yet. -/
def oneRow : List Reply :=
  connected ++
    [.result (some ⟨.tuplesOk, [], 1, 0⟩),
      .result (some ⟨.tuplesOk, [[some [98], some [48, 47, 49, 54], some [115], some [98]]], 4, 0⟩),
      commandOk, commandOk, commandOk, .flag true, .flag true, .during [] none,
      .flag false, .result (some ⟨.singleTuple, [[some [0]]], 1, 1⟩),
      .frame [.row 16384 (some ⟨"users", none, none⟩)] none, .during [.rdKafkaProduce false false] none,
      .flag false, .result (some ⟨.tuplesOk, [], 1, 1⟩),
      .flag false, .result none, commandOk, .during [] none, .result (some ⟨.copyBoth, [], 0, 0⟩),
      .copyData .wouldBlock]

theorem snapshot_before_stream_one_row :
    stepsOf (finalWorld (clientRun [.poll, .poll, .poll, .poll] (World.start config oneRow))).log =
      [.slotExists false, .beginTxn, .result (some ⟨.singleTuple, [[some [0]]], 1, 1⟩), .parseFrame [0] true,
        .result (some ⟨.tuplesOk, [], 1, 1⟩), .result none, .commit true, .commitTxn, .streamStart,
        .streamRead] ∧
    SnapshotFirst (stepsOf
      (finalWorld (clientRun [.poll, .poll, .poll, .poll] (World.start config oneRow))).log) := by
  refine ⟨by decide +kernel, (snapshot_before_stream config oneRow _ rfl ?_).1⟩
  decide +kernel

/-- The same for `main`, which also drops the slot after an error. -/
theorem main_snapshotFirst (config : Config) (replies : List Reply) (rounds : Nat)
    {result : EStateM.Result Fault World PUnit} (hrun : main rounds (World.start config replies) = result)
    (habsent : .slotExists false ∈ stepsOf (finalWorld result).log) :
    SnapshotFirst (stepsOf (finalWorld result).log) := by
  have hspec := main_accepted rounds _ (start_at config replies)
  rw [hrun] at hspec
  cases result with
  | error fault w => exact Accepted.snapshotFirst hspec habsent
  | ok _ w => exact Accepted.snapshotFirst hspec habsent

end BottledWater.Process
