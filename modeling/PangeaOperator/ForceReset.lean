import PangeaOperator.ReactiveRun

/-!
# Forced resets

When a phase timed out the stage forces it to Failed, unless the template waits at the
admission gate or for an approval. The reset is tied to the run that first records the
timeout: what that run skips or fails to write is not tried again while the timeout lasts.
-/

namespace PangeaOperator

open Json

section Triggers

variable (snapshot : Option Status) (i : ReactiveInput)

def stagePolicy : EffectiveReactivePolicy :=
  .resolve i.cascade i.templatePolicy i.workspacePolicy

def failureTrigger : Option Trigger :=
  (statusForEval snapshot i).bind (fun s => checkFailure s (stagePolicy i).failure)

def timeoutTrigger : Option Trigger :=
  (statusForEval snapshot i).bind (fun s => checkPhaseTimeout s (stagePolicy i).phaseTimeout i.now)

def blockedTrigger : Option Trigger :=
  (statusForEval snapshot i).bind
    (fun s => checkVerifiedBlocked s (stagePolicy i).verifiedBlocked i.now)

theorem stageEscalation_eq : stageEscalation snapshot i =
    pickWorst ((failureTrigger snapshot i).toList ++ (timeoutTrigger snapshot i).toList ++
      (blockedTrigger snapshot i).toList) := by
  unfold stageEscalation failureTrigger timeoutTrigger blockedTrigger
  cases statusForEval snapshot i with
  | none => rfl
  | some s => rfl

/-- The one in the middle wins over an earlier one on a tie and loses to a later one. -/
theorem pickWorst_middle_iff {f b : Option Trigger} {t : Trigger}
    (hf : ∀ x, f = some x → x ≠ t) (hb : ∀ x, b = some x → x ≠ t) :
    pickWorst (f.toList ++ [t] ++ b.toList) = .triggered t ↔
      (∀ x, f = some x → x.action.severity ≤ t.action.severity) ∧
      ∀ x, b = some x → x.action.severity < t.action.severity := by
  cases f with
  | none =>
    cases b with
    | none => simp [pickWorst, maxByKey]
    | some y =>
      have hy : y ≠ t := hb y rfl
      by_cases hlater : y.action.severity < t.action.severity
      · simp [pickWorst, maxByKey, hlater]
      · simp [pickWorst, maxByKey, hlater, hy]
  | some x =>
    have hx : x ≠ t := hf x rfl
    by_cases hearlier : t.action.severity < x.action.severity
    · cases b with
      | none => simp [pickWorst, maxByKey, hearlier, hx]
      | some y =>
        have hy : y ≠ t := hb y rfl
        by_cases hlater : y.action.severity < x.action.severity
        · simp [pickWorst, maxByKey, hearlier, hlater, hx]
        · simp [pickWorst, maxByKey, hearlier, hlater, hy]
    · have htie : x.action.severity ≤ t.action.severity := Nat.le_of_not_lt hearlier
      cases b with
      | none => simp [pickWorst, maxByKey, hearlier, htie]
      | some y =>
        have hy : y ≠ t := hb y rfl
        by_cases hlater : y.action.severity < t.action.severity
        · simp [pickWorst, maxByKey, hearlier, hlater, htie]
        · simp [pickWorst, maxByKey, hearlier, hlater, hy]

variable {snapshot i}

theorem timeoutTrigger_spec {t : Trigger} (h : timeoutTrigger snapshot i = some t) :
    ∃ phase, snapshot.bind Status.phase = some phase ∧ t.reason = timeoutReason phase := by
  obtain ⟨s, hs, h⟩ := Option.bind_eq_some_iff.mp h
  obtain ⟨phase, hphase, -, hreason, -⟩ := checkPhaseTimeout_spec h
  obtain ⟨s₀, rfl, rfl⟩ := Option.map_eq_some_iff.mp hs
  exact ⟨phase, hphase, hreason⟩

theorem isPhaseTimeout_timeoutReason (phase : Phase) :
    isPhaseTimeout (timeoutReason phase) = true := by
  cases phase <;> decide

theorem isPhaseTimeout_of_timeoutTrigger {t : Trigger} (h : timeoutTrigger snapshot i = some t) :
    isPhaseTimeout t.reason = true := by
  obtain ⟨phase, -, hreason⟩ := timeoutTrigger_spec h
  rw [hreason]
  exact isPhaseTimeout_timeoutReason phase

theorem failureTrigger_ne {t x : Trigger} (ht : timeoutTrigger snapshot i = some t)
    (hx : failureTrigger snapshot i = some x) : x ≠ t := by
  rintro rfl
  obtain ⟨s, -, h⟩ := Option.bind_eq_some_iff.mp hx
  have hreason := isPhaseTimeout_of_timeoutTrigger ht
  rw [reason_checkFailure h] at hreason
  exact absurd hreason (by decide)

theorem blockedTrigger_ne {t x : Trigger} (ht : timeoutTrigger snapshot i = some t)
    (hx : blockedTrigger snapshot i = some x) : x ≠ t := by
  rintro rfl
  obtain ⟨s, -, h⟩ := Option.bind_eq_some_iff.mp hx
  have hreason := isPhaseTimeout_of_timeoutTrigger ht
  rw [reason_checkVerifiedBlocked h] at hreason
  exact absurd hreason (by decide)

/-- When the timeout is the worst trigger. -/
theorem timeout_worst_iff {t : Trigger} (ht : timeoutTrigger snapshot i = some t) :
    stageEscalation snapshot i = .triggered t ↔
      (∀ x, failureTrigger snapshot i = some x → x.action.severity ≤ t.action.severity) ∧
      ∀ x, blockedTrigger snapshot i = some x → x.action.severity < t.action.severity := by
  rw [stageEscalation_eq, ht]
  exact pickWorst_middle_iff (fun x hx => failureTrigger_ne ht hx)
    (fun x hx => blockedTrigger_ne ht hx)

/-- A worst reason that names a timeout is that of the timeout trigger. -/
theorem timeoutTrigger_of_worst {t : Trigger} (h : stageEscalation snapshot i = .triggered t)
    (ht : isPhaseTimeout t.reason = true) : timeoutTrigger snapshot i = some t := by
  unfold stageEscalation at h
  unfold timeoutTrigger
  cases hs : statusForEval snapshot i with
  | none =>
    rw [hs] at h
    cases h
  | some s =>
    rw [hs] at h
    exact timeout_of_worst h ht

end Triggers

/-- A document and whether a forced reset was taken since its phase was entered. -/
structure ResetRun where
  stored : Doc
  reset : Bool

def phaseOf (stored : Doc) : Option Phase := (templateStatus stored).bind Status.phase

/-- A write of somebody else; a change of phase enters a phase. -/
def otherWrite (st : ResetRun) (body : Doc) : ResetRun where
  stored := patchStatus st.stored body
  reset := st.reset && phaseOf (patchStatus st.stored body) = phaseOf st.stored

def resetTaken (outcome : ReactiveOutcome) (i : ReactiveInput) : Bool :=
  i.patched && i.reset && outcome.forced.isSome

def resetTurn (st : ResetRun) (turn : ReactiveTurn) : ResetRun where
  stored := turn.after st.stored
  reset := (run otherWrite st (turn.before ++ turn.during)).reset ||
    resetTaken (turn.outcome st.stored) turn.input

/-- A forced reset is due: the timeout fires for a phase that may be reset, nothing holds the
template, and none was taken since the phase was entered. -/
structure ResetDue (st : ResetRun) (turn : ReactiveTurn) : Prop where
  fires : (timeoutTrigger (turn.snapshot st.stored) turn.input).isSome = true
  resettable : ∃ phase, (turn.snapshot st.stored).bind Status.phase = some phase ∧
    phaseIsForceResettable phase = true ∧
    isAwaitingPlanApproval (turn.snapshot st.stored) turn.input phase = false
  notQueued : turn.input.queued = false
  noReset : (run otherWrite st turn.before).reset = false

def ResetAttempted (st : ResetRun) (turn : ReactiveTurn) : Prop :=
  (turn.outcome st.stored).forced ≠ none

/-- What a due reset needs besides: the stage's own patch is taken, the timeout is not the recorded
reason, and no other trigger is worse. -/
structure ResetFree (st : ResetRun) (turn : ReactiveTurn) : Prop where
  patched : turn.input.patched = true
  unrecorded : ∀ phase, (turn.snapshot st.stored).bind Status.phase = some phase →
    turn.recorded st.stored ≠ some (timeoutReason phase)
  overFailure : ∀ t, timeoutTrigger (turn.snapshot st.stored) turn.input = some t →
    ∀ x, failureTrigger (turn.snapshot st.stored) turn.input = some x →
      x.action.severity ≤ t.action.severity
  overBlocked : ∀ t, timeoutTrigger (turn.snapshot st.stored) turn.input = some t →
    ∀ x, blockedTrigger (turn.snapshot st.stored) turn.input = some x →
      x.action.severity < t.action.severity

section Attempt

variable {status : Option Status} {i : ReactiveInput}

theorem forceReset_eq_some {t : Trigger} {phase : Phase}
    (hnew : (status.getD {}).lastEscalationReason ≠ some t.reason)
    (ht : isPhaseTimeout t.reason = true) (hphase : status.bind Status.phase = some phase)
    (hr : phaseIsForceResettable phase = true) (hq : i.queued = false)
    (ha : isAwaitingPlanApproval status i phase = false) :
    forceReset status i (.triggered t) = some (forceResetError t.reason) := by
  simp [forceReset, hnew, ht, hphase, hr, hq, ha]

/-- An attempt is a second patch, after the first was needed and taken. -/
theorem forceReset_of_forced (h : (applyReactivePolicy status i).forced ≠ none) :
    i.patched = true ∧ ∃ error, forceReset status i (stageEscalation status i) = some error := by
  have hchanged : reactivePolicyStatusUnchanged (status.getD {}) (reactiveWrite status i) =
      false := by
    by_contra hc
    rw [outcome_of_unchanged (Bool.eq_true_of_not_eq_false hc)] at h
    exact h rfl
  have hpatched : i.patched = true := by
    by_contra hp
    simp [applyReactivePolicy, hchanged, Bool.eq_false_iff.mpr hp] at h
  rw [forced_eq hchanged hpatched] at h
  exact ⟨hpatched, Option.ne_none_iff_exists'.mp h⟩

/-- Recording another reason is a change. -/
theorem changed_of_reason {t : Trigger} (he : stageEscalation status i = .triggered t)
    (hnew : (status.getD {}).lastEscalationReason ≠ some t.reason) :
    reactivePolicyStatusUnchanged (status.getD {}) (reactiveWrite status i) = false := by
  by_contra hc
  have hunchanged := (unchanged_iff _ _).mp (Bool.eq_true_of_not_eq_false hc)
  apply hnew
  rw [hunchanged.lastEscalationReason]
  exact congrArg Escalation.reason he

/-- A due reset is attempted exactly where it is free. -/
theorem attempted_iff {st : ResetRun} {turn : ReactiveTurn} (hdue : ResetDue st turn) :
    ResetAttempted st turn ↔ ResetFree st turn := by
  obtain ⟨t, ht⟩ := Option.isSome_iff_exists.mp hdue.fires
  obtain ⟨phase, hphase, hresettable, hawaiting⟩ := hdue.resettable
  have hreason : t.reason = timeoutReason phase := by
    obtain ⟨phase', hphase', hreason⟩ := timeoutTrigger_spec ht
    rw [hphase] at hphase'
    cases hphase'
    exact hreason
  constructor
  · intro h
    obtain ⟨hpatched, error, hforce⟩ := forceReset_of_forced h
    obtain ⟨t', he, htimeout, hnew⟩ := forceReset_spec hforce
    have hsame : t' = t := Option.some.inj ((timeoutTrigger_of_worst he htimeout).symm.trans ht)
    rw [hsame] at he hnew
    obtain ⟨hfailure, hblocked⟩ := (timeout_worst_iff ht).mp he
    refine ⟨hpatched, ?_, ?_, ?_⟩
    · intro phase' hphase'
      rw [hphase] at hphase'
      cases hphase'
      rw [← hreason]
      exact hnew
    · intro u hu
      rw [ht] at hu
      cases hu
      exact hfailure
    · intro u hu
      rw [ht] at hu
      cases hu
      exact hblocked
  · intro h
    have he : stageEscalation (turn.snapshot st.stored) turn.input = .triggered t :=
      (timeout_worst_iff ht).mpr ⟨h.overFailure t ht, h.overBlocked t ht⟩
    have hnew : turn.recorded st.stored ≠ some t.reason := by
      rw [hreason]
      exact h.unrecorded phase hphase
    have hforced := forced_eq (changed_of_reason he hnew) h.patched
    rw [he, forceReset_eq_some hnew (isPhaseTimeout_of_timeoutTrigger ht) hphase hresettable
      hdue.notQueued hawaiting] at hforced
    rw [ResetAttempted, ReactiveTurn.outcome, hforced]
    simp

/-- While one reason lasts and is recorded, nothing is forced: no run tries again what the first
left undone. -/
theorem not_forced_again {w : Watched} (hw : RecordsPrevious w) {turns : List ReactiveTurn}
    (h : Along watch w turns RecordsReason) :
    Along watch w turns (fun w turn =>
      (turn.escalation w.stored).reason = w.previous → (turn.outcome w.stored).forced = none) := by
  refine along_of_along (fun w turn h hw => recordsPrevious_watch turn hw h) ?_ hw h
  rintro w turn - ⟨s, hs, hprevious⟩ hsame
  by_contra hforced
  obtain ⟨-, error, hforce⟩ := forceReset_of_forced hforced
  obtain ⟨t, he, -, hnew⟩ := forceReset_spec hforce
  apply hnew
  have hrecorded := recorded_eq turn hs
  rw [hprevious, ← hsame] at hrecorded
  exact hrecorded.trans (congrArg Escalation.reason he)

end Attempt

/-- Over every run, no due reset is lost exactly where each one is free when it is due. -/
theorem due_resets_attempted_iff (st : ResetRun) (turns : List ReactiveTurn) :
    Along resetTurn st turns (fun st turn => ResetDue st turn → ResetAttempted st turn) ↔
      Along resetTurn st turns (fun st turn => ResetDue st turn → ResetFree st turn) := by
  constructor
  · intro h pre turn post he hdue
    exact (attempted_iff hdue).mp (h pre turn post he hdue)
  · intro h pre turn post he hdue
    exact (attempted_iff hdue).mpr (h pre turn post he hdue)

/-- A plan that started at time zero and does not end. -/
def stuckPlanning : Status := { phase := some .planning, phaseEnteredAt := some 0 }

/-- The API server refuses the forced patch of the first run, and the second does not try again. -/
theorem refused_reset_is_lost :
    ¬Along resetTurn ⟨stuckPlanning.toJson, false⟩
      [idleTurn { now := seconds 600, reset := false }, idleTurn { now := seconds 601 }]
      (fun st turn => ResetDue st turn → ResetAttempted st turn) := by
  intro h
  have hsecond := h [idleTurn { now := seconds 600, reset := false }]
    (idleTurn { now := seconds 601 }) [] rfl
  rw [run_cons, run_nil] at hsecond
  have hfirst : (idleTurn { now := seconds 600, reset := false }).snapshot stuckPlanning.toJson =
      some stuckPlanning := templateStatus_toJson stuckPlanning
  have hsnapshot : (idleTurn { now := seconds 601 }).snapshot
      (resetTurn ⟨stuckPlanning.toJson, false⟩
        (idleTurn { now := seconds 600, reset := false })).stored =
      some (statusAfter (some stuckPlanning) { now := seconds 600, reset := false }) := by
    have hafter := @templateStatus_after _ _ { now := seconds 600, reset := false }
      (Status.read_toJson stuckPlanning) rfl
    rw [templateStatus_toJson] at hafter
    rw [← hafter, resetTurn, ReactiveTurn.after, hfirst]
    rfl
  have hdue : ResetDue (resetTurn ⟨stuckPlanning.toJson, false⟩
      (idleTurn { now := seconds 600, reset := false })) (idleTurn { now := seconds 601 }) := by
    refine ⟨?_, ⟨.planning, ?_, rfl, ?_⟩, rfl, ?_⟩
    · rw [hsnapshot]
      decide +kernel
    · rw [hsnapshot]
      decide +kernel
    · rw [hsnapshot]
      decide +kernel
    · rw [show (idleTurn { now := seconds 601 }).before = [] from rfl, run_nil, resetTurn,
        ReactiveTurn.outcome, hfirst]
      decide +kernel
  apply hsecond hdue
  rw [ReactiveTurn.outcome, hsnapshot]
  decide +kernel

end PangeaOperator
