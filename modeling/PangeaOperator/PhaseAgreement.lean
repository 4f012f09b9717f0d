import PangeaOperator.ForceReset
import PangeaOperator.PassRun

/-!
# Phase and pass in step

The phase of a template is written by the phase updates, which write the pass with it, and
by the forced reset of the reactive stage, which does not. A run of these writers and of
the projections keeps the stored pass of a kind with the stored phase exactly as long as no
forced reset leaves an unfinished or a settled pass behind.
-/

namespace PangeaOperator

open Json

/-- The kind of pass that entering a phase opens. -/
def Phase.passKind (phase : Phase) : PassKind := (PassPhase.entering phase 0 none none 0).kind

theorem kind_entering (phase : Phase) (generation : Int) (error : Option String)
    (previous : Option PassPhase) (now : Time) :
    (PassPhase.entering phase generation error previous now).kind = phase.passKind := by
  cases phase <;> rfl

theorem generation_entering (phase : Phase) (generation : Int) (error : Option String)
    (previous : Option PassPhase) (now : Time) :
    (PassPhase.entering phase generation error previous now).generation = generation := by
  cases phase <;> rfl

/-- A write to the status of a template. The phase updates and the reactive stage work on the
snapshot of a reconcile's start, a projection on the status it reads. -/
inductive PhaseWrite where
  | updatePhase (snapshot : Status) (phase : Phase) (o : Observed)
  | updatePhaseWithError (snapshot : Status) (phase : Phase) (error : String) (o : Observed)
  | project (q : Projection)
  | react (snapshot : Option Status) (i : ReactiveInput)

/-- A document and the generation that its phase was entered for. -/
structure PhaseRun where
  stored : Doc
  entered : Int

def phaseStep (deadlines : Deadlines) (st : PhaseRun) : PhaseWrite → PhaseRun
  | .updatePhase s phase o => ⟨patchStatus st.stored (updatePhase s phase o), o.generation⟩
  | .updatePhaseWithError s phase error o =>
    ⟨patchStatus st.stored (updatePhaseWithError s phase error o), o.generation⟩
  | .project q => { st with stored := project st.stored q.live q.now deadlines q.incarnation }
  | .react snapshot i => { st with stored := mergeWrites st.stored (reactiveWrites snapshot i) }

/-- The typed status after a write. -/
def phaseNext (deadlines : Deadlines) (t : Status) : PhaseWrite → Status
  | .updatePhase s phase o => updatedPhaseInto s phase o t
  | .updatePhaseWithError s phase error o => updatedPhaseWithErrorInto s phase error o t
  | .project q =>
    projected t (projectStatus t q.live q.now deadlines q.incarnation) q.incarnation
  | .react snapshot i => reacted snapshot i t

theorem read_phaseStep {st : PhaseRun} {t : Status} (ht : Status.read st.stored = some t)
    (deadlines : Deadlines) (w : PhaseWrite) :
    Status.read (phaseStep deadlines st w).stored = some (phaseNext deadlines t w) := by
  cases w with
  | updatePhase s phase o => exact read_updatePhase_into ht s phase o
  | updatePhaseWithError s phase error o => exact read_updatePhaseWithError_into ht s phase error o
  | project q => exact read_project ht q.live q.now deadlines q.incarnation
  | react snapshot i => exact read_reactiveWrites ht snapshot i

/-- The stored pass is of the kind of the stored phase, or waits for a generation newer than the
one the phase was entered for, or is stalled. -/
def PassAgrees (entered : Int) (t : Status) : Prop :=
  ∀ p, t.pass = some p →
    p.kind = (t.phase.getD .pending).passKind ∨
      p.kind = .pending ∧ entered < p.generation ∨ p.kind = .stalled

/-- A pass that a forced phase leaves behind: one at work, one that settled, or one that waits for
the very generation the phase was entered for. -/
def LeftBehind (entered : Int) (t : Status) : Prop :=
  ∃ p, t.pass = some p ∧
    (p.kind.Active ∨ p.kind = .settled ∨ p.kind = .pending ∧ p.generation ≤ entered)

/-- What a pass of that kind and generation keeps: it agrees with the phase, and one that ended is
not older than the phase. -/
structure Tracks (entered : Int) (phase : Phase) (kind : PassKind) (generation : Int) : Prop where
  agrees : kind = phase.passKind ∨ kind = .pending ∧ entered < generation ∨ kind = .stalled
  ended : kind = .settled ∨ kind = .failed → entered ≤ generation

def TracksPass (entered : Int) (phase : Phase) (p : PassPhase) : Prop :=
  Tracks entered phase p.kind p.generation

section Tracks

variable {entered : Int} {phase : Phase} {p : PassPhase}

theorem tracks_of_stalled (h : p.kind = .stalled) : TracksPass entered phase p := by
  refine ⟨.inr (.inr h), ?_⟩
  rw [h]
  rintro (h | h) <;> cases h

theorem tracks_entering (error : Option String) (previous : Option PassPhase) (now : Time) :
    TracksPass entered phase (.entering phase entered error previous now) := by
  refine ⟨.inl (kind_entering phase entered error previous now), fun _ => ?_⟩
  rw [generation_entering]

/-- A newer generation turns a pass that ended into one that waits for it. -/
theorem tracks_observe (h : TracksPass entered phase p) (live : Int) (now : Time) :
    TracksPass entered phase (p.observe live now) := by
  obtain ⟨hagrees, hended⟩ := h
  cases p with
  | settled g =>
    unfold PassPhase.observe
    split
    · exact ⟨hagrees, hended⟩
    · next hl =>
      have hlt : entered < live := lt_of_le_of_lt (hended (.inl rfl)) (not_le.mp hl)
      exact ⟨.inr (.inl ⟨rfl, hlt⟩), fun _ => hlt.le⟩
  | failed g reason =>
    unfold PassPhase.observe
    split
    · exact ⟨hagrees, hended⟩
    · next hl =>
      have hlt : entered < live := lt_of_le_of_lt (hended (.inr rfl)) (not_le.mp hl)
      exact ⟨.inr (.inl ⟨rfl, hlt⟩), fun _ => hlt.le⟩
  | pending g since =>
    unfold PassPhase.observe
    split
    · exact ⟨hagrees, hended⟩
    · next hl =>
      refine ⟨?_, fun h => by rcases h with h | h <;> cases h⟩
      rcases hagrees with hk | ⟨-, hlt⟩ | hk
      · exact .inl hk
      · exact .inr (.inl ⟨rfl, hlt.trans (not_le.mp hl)⟩)
      · cases hk
  | planning g startedAt heartbeat queued =>
    rw [PassPhase.observe_planning]
    split <;> exact ⟨hagrees, hended⟩
  | applying g startedAt heartbeat queued =>
    rw [PassPhase.observe_applying]
    split <;> exact ⟨hagrees, hended⟩
  | stalled g since state reason =>
    unfold PassPhase.observe
    split <;> exact tracks_of_stalled rfl

theorem tracks_projected {t : Status} {q : Projection}
    (h : TracksPass entered phase (t.storedPass q.now)) (deadlines : Deadlines) :
    TracksPass entered phase (projectedPass t q.live q.now deadlines q.incarnation) := by
  have hnamed : TracksPass entered phase
      (namedStall t (t.storedPass q.now) q.now deadlines q.incarnation) := by
    rcases namedStall_eq_or_stalled t (t.storedPass q.now) q.now deadlines q.incarnation
      with hn | hn
    · rwa [hn]
    · exact tracks_of_stalled hn
  have hobserved := tracks_observe hnamed q.live q.now
  unfold projectedPass
  rcases watchdog_eq_or_stalled q.now deadlines
    ((namedStall t (t.storedPass q.now) q.now deadlines q.incarnation).observe q.live q.now)
    with hw | hw
  · rwa [hw]
  · exact tracks_of_stalled hw

end Tracks

/-- The invariant of a run. Before the first pass is stored, the phase counts as entered for the
acknowledged generation. -/
structure InStep (entered : Int) (t : Status) : Prop where
  tracks : ∀ p, t.pass = some p → Tracks entered (t.phase.getD .pending) p.kind p.generation
  unstored : t.pass = none → t.acknowledged = entered

theorem InStep.agrees {entered : Int} {t : Status} (h : InStep entered t) :
    PassAgrees entered t := by
  intro p hp
  exact (h.tracks p hp).agrees

section Steps

variable {entered : Int} {t : Status}

theorem tracks_storedPass (h : InStep entered t) (now : Time) :
    TracksPass entered (t.phase.getD .pending) (t.storedPass now) := by
  unfold Status.storedPass
  cases hp : t.pass with
  | none =>
    rw [← h.unstored hp]
    exact tracks_entering _ _ _
  | some p =>
    have hkind : (PassPhase.fromStatus p now).kind = p.kind ∧
        (PassPhase.fromStatus p now).generation = p.generation := by
      unfold PassPhase.fromStatus
      cases p.kind <;> exact ⟨rfl, rfl⟩
    rw [TracksPass, hkind.1, hkind.2]
    exact h.tracks p hp

theorem inStep_entered (s : Status) (phase : Phase) (error : Option String) (o : Observed)
    {u : Status} (hpass : u.pass = some ((enteredPass s phase error o).toStatus o.incarnation))
    (hphase : u.phase = some phase) : InStep o.generation u := by
  refine ⟨?_, fun hnone => ?_⟩
  · intro p hp
    rw [hpass] at hp
    cases hp
    have hr := records_toStatus (enteredPass s phase error o) o.incarnation
    rw [hphase, hr.kind, hr.generation]
    exact tracks_observe (tracks_entering _ _ _) o.live o.now
  · rw [hpass] at hnone
    cases hnone

theorem inStep_projected (h : InStep entered t) (deadlines : Deadlines) (q : Projection) :
    InStep entered (phaseNext deadlines t (.project q)) := by
  refine ⟨?_, fun hnone => by cases hnone⟩
  intro p hp
  cases hp
  have hr := records_mergedPass t.pass
    (records_toStatus (projectedPass t q.live q.now deadlines q.incarnation) q.incarnation)
  have htracks := tracks_projected (tracks_storedPass h q.now) deadlines
  rw [TracksPass, ← hr.kind, ← hr.generation] at htracks
  exact htracks

/-- The stage leaves the pass and the generations alone, and writes the phase only to force it. -/
theorem reacted_spec (snapshot : Option Status) (i : ReactiveInput) (t : Status) :
    (reacted snapshot i t).pass = t.pass ∧
      (reacted snapshot i t).acknowledged = t.acknowledged ∧
      (reacted snapshot i t).phase =
        if resetTaken (applyReactivePolicy snapshot i) i then some .failed else t.phase := by
  unfold reacted resetTaken Status.acknowledged
  obtain ⟨events, patch, forced⟩ := applyReactivePolicy snapshot i
  cases i.patched with
  | false => exact ⟨rfl, rfl, rfl⟩
  | true => cases patch <;> cases i.reset <;> cases forced <;> exact ⟨rfl, rfl, rfl⟩

theorem inStep_reacted (h : InStep entered t) {snapshot : Option Status} {i : ReactiveInput}
    (hleft : resetTaken (applyReactivePolicy snapshot i) i = true → ¬LeftBehind entered t) :
    InStep entered (reacted snapshot i t) := by
  obtain ⟨hpass, hack, hphase⟩ := reacted_spec snapshot i t
  refine ⟨?_, ?_⟩
  · intro p hp
    rw [hpass] at hp
    have htracks := h.tracks p hp
    rw [hphase]
    split
    · next htaken =>
      -- forced to Failed: what is left of the kinds once none is left behind
      refine ⟨?_, htracks.ended⟩
      have hnot := fun hkind => hleft htaken ⟨p, hp, hkind⟩
      cases hk : p.kind with
      | failed => exact .inl rfl
      | stalled => exact .inr (.inr rfl)
      | pending => exact .inr (.inl ⟨rfl, not_le.mp (fun hle => hnot (.inr (.inr ⟨hk, hle⟩)))⟩)
      | settled => exact absurd (.inr (.inl hk)) hnot
      | planning => exact absurd (.inl (.inl hk)) hnot
      | applying => exact absurd (.inl (.inr hk)) hnot
    · exact htracks
  · intro hnone
    rw [hpass] at hnone
    rw [hack]
    exact h.unstored hnone

end Steps

/-- The write forces the phase to Failed over a pass that it leaves behind. -/
def ForcedOver (st : PhaseRun) (w : PhaseWrite) : Prop :=
  ∃ snapshot i t, w = .react snapshot i ∧
    resetTaken (applyReactivePolicy snapshot i) i = true ∧
    Status.read st.stored = some t ∧ LeftBehind st.entered t

/-- The run's state in step: its document reads, and as a status that keeps the invariant. -/
def RunInStep (st : PhaseRun) : Prop :=
  ∃ t, Status.read st.stored = some t ∧ InStep st.entered t

theorem runInStep_phaseStep (deadlines : Deadlines) (st : PhaseRun) (w : PhaseWrite)
    (hw : ¬ForcedOver st w) (h : RunInStep st) : RunInStep (phaseStep deadlines st w) := by
  obtain ⟨t, ht, hin⟩ := h
  refine ⟨_, read_phaseStep ht deadlines w, ?_⟩
  cases w with
  | updatePhase s phase o => exact inStep_entered s phase none o rfl rfl
  | updatePhaseWithError s phase error o => exact inStep_entered s phase (some error) o rfl rfl
  | project q => exact inStep_projected hin deadlines q
  | react snapshot i =>
    exact inStep_reacted hin (fun htaken hleft => hw ⟨snapshot, i, t, rfl, htaken, ht, hleft⟩)

/-- A pass that is left behind disagrees with the phase that is forced over it. -/
theorem not_agrees_of_forcedOver {deadlines : Deadlines} {st : PhaseRun} {w : PhaseWrite}
    (hw : ForcedOver st w) :
    ¬∃ t, Status.read (phaseStep deadlines st w).stored = some t ∧
      PassAgrees (phaseStep deadlines st w).entered t := by
  obtain ⟨snapshot, i, t, rfl, htaken, ht, p, hp, hkind⟩ := hw
  rintro ⟨u, hu, hagrees⟩
  rw [read_phaseStep ht] at hu
  cases hu
  obtain ⟨hpass, -, hphase⟩ := reacted_spec snapshot i t
  rw [if_pos htaken] at hphase
  rcases hagrees p (hpass.trans hp) with hk | ⟨hk, hlt⟩ | hk
  · rw [show (phaseNext deadlines t (.react snapshot i)).phase = _ from hphase] at hk
    rcases hkind with (h | h) | h | ⟨h, -⟩ <;> rw [h] at hk <;> cases hk
  · rcases hkind with (h | h) | h | ⟨-, hle⟩
    · rw [h] at hk
      cases hk
    · rw [h] at hk
      cases hk
    · rw [h] at hk
      cases hk
    · exact absurd hlt (not_lt.mpr hle)
  · rcases hkind with (h | h) | h | ⟨h, -⟩ <;> rw [h] at hk <;> cases hk

/-- From a template without a stored pass, phase and pass agree in every state of a run exactly
when no write of it forces the phase over a pass that it leaves behind. -/
theorem pass_agrees_iff (deadlines : Deadlines) {stored : Doc} {s : Status}
    (hs : Status.read stored = some s) (hnone : s.pass = none) (ws : List PhaseWrite) :
    (∀ pre post, ws = pre ++ post →
      ∃ t, Status.read (run (phaseStep deadlines) ⟨stored, s.acknowledged⟩ pre).stored = some t ∧
        PassAgrees (run (phaseStep deadlines) ⟨stored, s.acknowledged⟩ pre).entered t) ↔
      Along (phaseStep deadlines) ⟨stored, s.acknowledged⟩ ws (fun st w => ¬ForcedOver st w) := by
  have hstart : RunInStep ⟨stored, s.acknowledged⟩ := by
    refine ⟨s, hs, fun p hp => ?_, fun _ => rfl⟩
    rw [hnone] at hp
    cases hp
  constructor
  · intro h pre w post he hforced
    apply not_agrees_of_forcedOver hforced
    have hafter := h (pre ++ [w]) post (by rw [he, List.append_assoc, List.singleton_append])
    rw [run_append, run_cons, run_nil] at hafter
    exact hafter
  · intro h pre post he
    rw [he, along_append_iff] at h
    obtain ⟨t, ht, hin⟩ := run_invariant_of_along (runInStep_phaseStep deadlines) hstart h.1
    exact ⟨t, ht, hin.agrees⟩

/-- The first plan of a new template. -/
def planFirst : PhaseWrite := .updatePhase {} .planning firstObserved

/-- The reactive stage on the status that the first plan leaves. -/
def reactAt (now : Time) : PhaseWrite :=
  .react (some (updatedPhase {} .planning firstObserved)) { now := now }

/-- While the plan is within its time the stage forces nothing. -/
theorem plan_in_time_agrees :
    ∃ t, Status.read (run (phaseStep {}) ⟨({} : Status).toJson, ({} : Status).acknowledged⟩
        [planFirst, reactAt (seconds 60)]).stored = some t ∧
      PassAgrees (run (phaseStep {}) ⟨({} : Status).toJson, ({} : Status).acknowledged⟩
        [planFirst, reactAt (seconds 60)]).entered t := by
  refine (pass_agrees_iff {} (Status.read_toJson {}) rfl [planFirst, reactAt (seconds 60)]).mpr
    ?_ _ [] rfl
  rw [along_cons_iff, along_cons_iff]
  refine ⟨?_, ?_, along_nil _ _ _⟩
  · rintro ⟨snapshot, i, t, hw, -⟩
    cases hw
  · rintro ⟨snapshot, i, t, hw, htaken, -⟩
    cases hw
    exact absurd htaken (by decide +kernel)

/-- After ten minutes the phase is forced to Failed and the pass still plans. -/
theorem forced_reset_keeps_planning_pass :
    ¬∀ pre post, [planFirst, reactAt (seconds 600)] = pre ++ post →
      ∃ t, Status.read (run (phaseStep {}) ⟨({} : Status).toJson, ({} : Status).acknowledged⟩
          pre).stored = some t ∧
        PassAgrees (run (phaseStep {}) ⟨({} : Status).toJson, ({} : Status).acknowledged⟩
          pre).entered t := by
  intro h
  have hread := @read_phaseStep ⟨({} : Status).toJson, ({} : Status).acknowledged⟩ {}
    (Status.read_toJson {}) {} planFirst
  have hlast := h [planFirst, reactAt (seconds 600)] [] rfl
  rw [run_cons, run_cons, run_nil] at hlast
  refine not_agrees_of_forcedOver ?_ hlast
  exact ⟨_, _, _, rfl, by decide +kernel, hread, _, rfl, .inl (.inl rfl)⟩

end PangeaOperator
