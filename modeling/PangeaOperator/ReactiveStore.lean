import PangeaOperator.Projection
import PangeaOperator.Reactive

/-!
# What the reactive stage stores

Both patches of the stage read back, and the failure that is written just before it. The
stage builds its whole condition list from the snapshot of the reconcile's start, so what
stands between the two writes is replaced.
-/

namespace PangeaOperator

open Json

/-- The record after the stage's patch. -/
def ReactiveWrite.into (w : ReactiveWrite) (t : Status) : Status :=
  { t with
    conditions := w.conditions
    verifiedBlockedSince := w.verifiedBlockedSince
    autoSuspended := w.autoSuspended
    lastEscalatedAt := w.lastEscalatedAt
    lastEscalationReason := w.lastEscalationReason
    applyCursorCount := w.applyCursorCount
    applyCursorAdvancedAt := w.applyCursorAdvancedAt }

/-- The record after the phase is forced, with the count of the snapshot. -/
def forcedInto (status : Option Status) (error : String) (t : Status) : Status :=
  { t with
    phase := some .failed
    lastError := some error
    failureCount := (status.map (fun s => saturatingSucc s.failureCount)).getD 1 }

/-- The record after a run of the stage. -/
def reacted (status : Option Status) (i : ReactiveInput) (t : Status) : Status :=
  let outcome := applyReactivePolicy status i
  if i.patched then
    let t := outcome.patch.elim t (fun w => w.into t)
    if i.reset then outcome.forced.elim t (fun error => forcedInto status error t) else t
  else t

section ReadBack

variable {stored : Doc} {t : Status}

theorem read_reactivePatch (ht : Status.read stored = some t) (w : ReactiveWrite) :
    Status.read (patchStatus stored (reactivePatch w)) = some (w.into t) := by
  rw [Status.read_eq_some_iff] at ht
  refine read_patchStatus (by simp) (fun f => ?_)
  cases f
  case conditions => exact nonempty_take_mergeSlot _ _
  case verifiedBlockedSince => exact readOption_mergeSlot_getD Codec.time_flat _ _
  case autoSuspended => exact withDefault_take_mergeSlot Codec.bool_flat _ _ _
  case lastEscalatedAt => exact readOption_mergeSlot_getD Codec.time_flat _ _
  case lastEscalationReason => exact readOption_mergeSlot_getD Codec.string_flat _ _
  case applyCursorCount => exact readOption_mergeSlot_getD Codec.nat_flat _ _
  case applyCursorAdvancedAt => exact readOption_mergeSlot_getD Codec.time_flat _ _
  all_goals exact ht _

theorem read_forcePatch (ht : Status.read stored = some t) (status : Option Status)
    (error : String) :
    Status.read (patchStatus stored (forcePatch status error)) =
      some (forcedInto status error t) := by
  rw [Status.read_eq_some_iff] at ht
  refine read_patchStatus (by simp) (fun f => ?_)
  cases f
  case phase =>
    exact readOption_mergeSlot (c := Phase.codec) (Codec.enum_flat _ _ _) (stored.get? "phase")
      .failed
  case lastError => exact readOption_mergeSlot Codec.string_flat (stored.get? "lastError") error
  case failureCount => exact withDefault_take_mergeSlot Codec.nat_flat _ _ _
  all_goals exact ht _

/-- The stage's writes, on any record and not only on its own snapshot. -/
theorem read_reactiveWrites (ht : Status.read stored = some t) (status : Option Status)
    (i : ReactiveInput) :
    Status.read (mergeWrites stored (reactiveWrites status i)) = some (reacted status i t) := by
  unfold reactiveWrites reacted
  by_cases hp : i.patched = true
  · simp only [hp, if_true, mergeWrites_append]
    have hpatch : Status.read (mergeWrites stored
        ((applyReactivePolicy status i).patch.toList.map reactivePatch)) =
        some ((applyReactivePolicy status i).patch.elim t (fun w => w.into t)) := by
      cases (applyReactivePolicy status i).patch with
      | none => exact ht
      | some w => exact read_reactivePatch ht w
    by_cases hr : i.reset = true
    · simp only [hr, if_true]
      cases (applyReactivePolicy status i).forced with
      | none => exact hpatch
      | some error => exact read_forcePatch hpatch status error
    · simpa only [hr, Bool.false_eq_true, if_false, mergeWrites_nil] using hpatch
  · simpa only [hp, Bool.false_eq_true, if_false, mergeWrites_nil] using ht

end ReadBack

section Outcome

variable {status : Option Status} {i : ReactiveInput}

theorem outcome_of_unchanged
    (h : reactivePolicyStatusUnchanged (status.getD {}) (reactiveWrite status i) = true) :
    applyReactivePolicy status i =
      ⟨raisedEvents (status.getD {}).lastEscalationReason (stageEscalation status i), none,
        none⟩ := by
  simp only [applyReactivePolicy, h, if_true]

theorem patch_eq (h : reactivePolicyStatusUnchanged (status.getD {}) (reactiveWrite status i) =
    false) : (applyReactivePolicy status i).patch = some (reactiveWrite status i) := by
  simp only [applyReactivePolicy, h, Bool.false_eq_true, if_false]
  split
  · rfl
  · rfl

theorem forced_eq (h : reactivePolicyStatusUnchanged (status.getD {}) (reactiveWrite status i) =
    false) (hp : i.patched = true) :
    (applyReactivePolicy status i).forced = forceReset status i (stageEscalation status i) := by
  simp only [applyReactivePolicy, h, hp, Bool.not_true, Bool.false_eq_true, if_false]

end Outcome

section Conditions

variable {status : Option Status} {i : ReactiveInput}

theorem filter_healthy_write :
    (reactiveWrite status i).conditions.filter isHealthy =
      [healthyCondition (status.getD {}).conditions (stageEscalation status i) i.now] := by
  have hkept : (((status.getD {}).conditions.filter (fun c => !isHealthy c)).filter isHealthy) =
      [] := by
    rw [List.filter_filter, List.filter_eq_nil_iff]
    simp
  have hnew : isHealthy (healthyCondition (status.getD {}).conditions (stageEscalation status i)
      i.now) = true := rfl
  simp only [reactiveWrite, List.filter_append, hkept, List.nil_append,
    List.filter_cons_of_pos hnew,
    List.filter_nil]

/-- Apart from Healthy, the stage writes the snapshot's conditions. -/
theorem filter_not_healthy_write :
    (reactiveWrite status i).conditions.filter (fun c => !isHealthy c) =
      (status.getD {}).conditions.filter (fun c => !isHealthy c) := by
  have hnew : isHealthy (healthyCondition (status.getD {}).conditions (stageEscalation status i)
      i.now) = true := rfl
  simp [reactiveWrite, List.filter_append, hnew]

end Conditions

/-- The conditions that `update_phase_with_error` writes for a failure. -/
def failedConditions (s : Status) (message : String) (o : Observed) : List Condition :=
  (updatedPhaseWithError s .failed message o).conditions

/-- A condition other than Reconciling that does not hold is not made to hold. -/
theorem status_projectCondition_ne {pass : PassPhase} {observed live : Int} {d : Condition}
    (ht : d.type ≠ "Reconciling") (hd : d.status ≠ "True") :
    (projectCondition pass observed live d).status ≠ "True" := by
  rw [projectCondition_eq, if_neg (fun h => hd h.1.2), if_neg (fun h => ht h.1)]
  exact hd

theorem not_isHealthy_failedConditions (s : Status) (message : String) (o : Observed) :
    ∀ c ∈ failedConditions s message o, isHealthy c = false := by
  intro c hc
  rw [isHealthy, decide_eq_false_iff_not]
  rcases mem_projectConditions hc with ⟨-, d, hd, rfl⟩ | rfl
  · rw [type_projectCondition]
    have htypes : ∀ d ∈ conditionsForPhase .failed (some message)
        (sourceFreshState o.gitRepository s) o.now, d.type ≠ "Healthy" := by
      simp [conditionsForPhase, createCondition]
    exact htypes d hd
  · rw [type_stalledCondition]
    decide

theorem not_ready_failedConditions (s : Status) (message : String) (o : Observed) :
    ∀ c ∈ failedConditions s message o, c.type = "Ready" → c.status ≠ "True" := by
  intro c hc ht
  rcases mem_projectConditions hc with ⟨-, d, hd, rfl⟩ | rfl
  · rw [type_projectCondition] at ht
    have hready : ∀ d ∈ conditionsForPhase .failed (some message)
        (sourceFreshState o.gitRepository s) o.now, d.type = "Ready" → d.status ≠ "True" := by
      simp [conditionsForPhase, createCondition]
    refine status_projectCondition_ne ?_ (hready d hd ht)
    rw [ht]
    decide
  · rw [type_stalledCondition] at ht
    exact absurd ht (by decide)

/-- The document after a failure and the stage that follows it on the same snapshot. -/
def failAndReact (stored : Doc) (snapshot : Option Status) (message : String) (o : Observed)
    (i : ReactiveInput) : Doc :=
  mergeWrites (patchStatus stored (updatePhaseWithError (snapshot.getD {}) .failed message o))
    (reactiveWrites snapshot i)

/-- The failure is still what the status says: the phase, its error, and the conditions it wrote
with one Healthy condition next to them. -/
structure ShowsFailure (s : Status) (message : String) (o : Observed) (t : Status) : Prop where
  phase : t.phase = some .failed
  error : t.lastError = some message
  conditions : t.conditions.filter (fun c => !isHealthy c) = failedConditions s message o
  notReady : ∀ c ∈ t.conditions, c.type = "Ready" → c.status ≠ "True"
  oneHealthy : ∃ c, t.conditions.filter isHealthy = [c]

/-- Without the stage's patch there is no Healthy condition at all. -/
theorem not_shows_failed (s : Status) (message : String) (o : Observed) :
    ¬ShowsFailure s message o (updatedPhaseWithError s .failed message o) := by
  intro h
  obtain ⟨c, hone⟩ := h.oneHealthy
  have hc : c ∈ (failedConditions s message o).filter isHealthy :=
    hone ▸ List.mem_singleton_self c
  have hnot := not_isHealthy_failedConditions s message o c (List.mem_of_mem_filter hc)
  rw [(List.mem_filter.mp hc).2] at hnot
  exact Bool.noConfusion hnot

/-- When the stage keeps the failure: it has something to write and can, the snapshot carries the
conditions of this very failure already, and no other error is forced over it. -/
structure KeepsFailure (snapshot : Option Status) (message : String) (o : Observed)
    (i : ReactiveInput) : Prop where
  patched : i.patched = true
  changed : reactivePolicyStatusUnchanged (snapshot.getD {}) (reactiveWrite snapshot i) = false
  conditions : (snapshot.getD {}).conditions.filter (fun c => !isHealthy c) =
    failedConditions (snapshot.getD {}) message o
  unforced : i.reset = true →
    ∀ error, forceReset snapshot i (stageEscalation snapshot i) = some error → error = message

section Failure

variable {stored : Doc} {snapshot : Option Status}

theorem read_failAndReact (hs : Status.read stored = some (snapshot.getD {})) (message : String)
    (o : Observed) (i : ReactiveInput) :
    Status.read (failAndReact stored snapshot message o i) = some (reacted snapshot i
      (updatedPhaseWithError (snapshot.getD {}) .failed message o)) :=
  read_reactiveWrites (read_updatePhaseWithError hs .failed message o) snapshot i

variable {i : ReactiveInput} {t : Status}

theorem reacted_of_unchanged
    (hc : reactivePolicyStatusUnchanged (snapshot.getD {}) (reactiveWrite snapshot i) = true) :
    reacted snapshot i t = t := by
  simp [reacted, outcome_of_unchanged hc]

theorem reacted_of_not_patched (hp : i.patched = false) : reacted snapshot i t = t := by
  simp [reacted, hp]

section Changed

variable (hp : i.patched = true)
  (hc : reactivePolicyStatusUnchanged (snapshot.getD {}) (reactiveWrite snapshot i) = false)

include hp hc

/-- A forced phase is Failed too; only the error tells them apart. -/
theorem reacted_of_changed :
    reacted snapshot i t =
      if i.reset then
        (forceReset snapshot i (stageEscalation snapshot i)).elim
          ((reactiveWrite snapshot i).into t)
          (fun error => forcedInto snapshot error ((reactiveWrite snapshot i).into t))
      else (reactiveWrite snapshot i).into t := by
  simp only [reacted, hp, if_true, patch_eq hc, forced_eq hc hp, Option.elim_some]

theorem conditions_reacted :
    (reacted snapshot i t).conditions = (reactiveWrite snapshot i).conditions := by
  rw [reacted_of_changed hp hc]
  split
  · cases forceReset snapshot i (stageEscalation snapshot i) with
    | none => rfl
    | some error => rfl
  · rfl

/-- The stage moves no record out of Failed. -/
theorem phase_reacted (ht : t.phase = some .failed) :
    (reacted snapshot i t).phase = some .failed := by
  rw [reacted_of_changed hp hc]
  split
  · cases forceReset snapshot i (stageEscalation snapshot i) with
    | none => exact ht
    | some error => rfl
  · exact ht

theorem lastError_reacted_iff {message : String} (ht : t.lastError = some message) :
    (reacted snapshot i t).lastError = some message ↔
      (i.reset = true →
        ∀ error, forceReset snapshot i (stageEscalation snapshot i) = some error →
          error = message) := by
  rw [reacted_of_changed hp hc]
  by_cases hr : i.reset = true
  · simp only [hr, if_true, forall_const]
    cases forceReset snapshot i (stageEscalation snapshot i) with
    | none => simpa [ReactiveWrite.into] using ht
    | some error => simp [forcedInto]
  · simpa [hr, ReactiveWrite.into] using ht

end Changed

end Failure

/-- After a failure and the stage on the same snapshot the failure shows exactly where the stage
keeps it. -/
theorem failure_shows_iff {stored : Doc} {snapshot : Option Status}
    (hs : Status.read stored = some (snapshot.getD {})) (message : String) (o : Observed)
    (i : ReactiveInput) :
    (∃ t, Status.read (failAndReact stored snapshot message o i) = some t ∧
      ShowsFailure (snapshot.getD {}) message o t) ↔ KeepsFailure snapshot message o i := by
  rw [read_failAndReact hs]
  simp only [Option.some.injEq, exists_eq_left']
  constructor
  · intro h
    have hpatched : i.patched = true := by
      by_contra hp
      rw [reacted_of_not_patched (Bool.eq_false_iff.mpr hp)] at h
      exact not_shows_failed _ message o h
    have hchanged : reactivePolicyStatusUnchanged (snapshot.getD {}) (reactiveWrite snapshot i) =
        false := by
      by_contra hc
      rw [reacted_of_unchanged (Bool.eq_true_of_not_eq_false hc)] at h
      exact not_shows_failed _ message o h
    refine ⟨hpatched, hchanged, ?_, ?_⟩
    · rw [← filter_not_healthy_write, ← conditions_reacted hpatched hchanged]
      exact h.conditions
    · exact (lastError_reacted_iff hpatched hchanged rfl).mp h.error
  · intro h
    have hconditions := conditions_reacted h.patched h.changed
      (t := updatedPhaseWithError (snapshot.getD {}) .failed message o)
    have hkept : (reactiveWrite snapshot i).conditions.filter (fun c => !isHealthy c) =
        failedConditions (snapshot.getD {}) message o :=
      filter_not_healthy_write.trans h.conditions
    refine ⟨phase_reacted h.patched h.changed rfl,
      (lastError_reacted_iff h.patched h.changed rfl).mpr h.unforced, ?_, ?_, ?_⟩
    · rw [hconditions, hkept]
    · rw [hconditions]
      intro c hc ht
      have hnot : isHealthy c = false := by
        rw [isHealthy, ht]
        rfl
      have hfailed : c ∈ failedConditions (snapshot.getD {}) message o := by
        rw [← hkept, List.mem_filter, hnot]
        exact ⟨hc, rfl⟩
      exact not_ready_failedConditions _ _ _ c hfailed ht
    · rw [hconditions, filter_healthy_write]
      exact ⟨_, rfl⟩

/-- A template that failed to compile, its conditions as the failure left them. -/
def failedToCompile : Status := updatedPhaseWithError {} .failed "compile failed" firstObserved

/-- The same failure again, at the same instant: it shows. -/
theorem repeated_failure_shows :
    ∃ t, Status.read (failAndReact failedToCompile.toJson (some failedToCompile) "compile failed"
        firstObserved { now := 0 }) = some t ∧
      ShowsFailure failedToCompile "compile failed" firstObserved t :=
  (failure_shows_iff (Status.read_toJson failedToCompile) "compile failed" firstObserved
    { now := 0 }).mpr ⟨rfl, by decide +kernel, by decide +kernel, by decide +kernel⟩

/-- A template that was Ready at time zero. -/
def onceReady : Status := updatedPhase {} .ready firstObserved

/-- It fails a minute later and stays Ready. -/
theorem failed_template_stays_ready :
    ¬∃ t, Status.read (failAndReact onceReady.toJson (some onceReady) "apply failed"
        { firstObserved with now := seconds 60 } { now := seconds 60 }) = some t ∧
      ShowsFailure onceReady "apply failed" { firstObserved with now := seconds 60 } t := by
  rintro ⟨t, ht, hshows⟩
  rw [@read_failAndReact _ (some onceReady) (Status.read_toJson onceReady)] at ht
  have hready : ∃ c ∈ (reacted (some onceReady) { now := seconds 60 }
      (updatedPhaseWithError onceReady .failed "apply failed"
        { firstObserved with now := seconds 60 })).conditions,
      c.type = "Ready" ∧ c.status = "True" := by decide +kernel
  obtain ⟨c, hc, htype, hstatus⟩ := hready
  rw [← Option.some.inj ht] at hshows
  exact hshows.notReady c hc htype hstatus

end PangeaOperator
