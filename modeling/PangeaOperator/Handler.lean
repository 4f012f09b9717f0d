import PangeaOperator.StatusPatch

/-!
# What a phase handler leaves behind

A handler works on the snapshot its reconcile started from and sends status patches
one after the other; the stored document is merged with each in turn. This module has
the actions of `controller/reconciler.rs`, the writers that only handlers call, and
what the writers have in common: none makes the document unreadable, and each leaves
the fields it does not name.
-/

namespace PangeaOperator

open Json

inductive ReconcileAction where
  | requeue (delay : Time)
  | done
  deriving DecidableEq, Repr

def defaultRequeueInterval : Time := seconds 300
def shortRequeueInterval : Time := seconds 30
def errorRequeueInterval : Time := seconds 60

/-- `exponential_backoff`, in `u32` arithmetic. -/
def exponentialBackoff (attempt baseSecs maxSecs : Nat) : Time :=
  let backoff := min (baseSecs * min (2 ^ attempt) (2 ^ 32 - 1)) (2 ^ 32 - 1)
  seconds (min backoff maxSecs)

/-- The patches a handler sends, in order, and the action it returns; none when it fails with an
error instead. -/
structure Reply where
  writes : List Doc
  action : Option ReconcileAction
  deriving DecidableEq, Repr

def mergeWrites (stored : Doc) (writes : List Doc) : Doc := writes.foldl patchStatus stored

@[simp] theorem mergeWrites_nil (stored : Doc) : mergeWrites stored [] = stored := rfl
@[simp] theorem mergeWrites_cons (stored body : Doc) (writes : List Doc) :
    mergeWrites stored (body :: writes) = mergeWrites (patchStatus stored body) writes := rfl

theorem mergeWrites_append (stored : Doc) (writes more : List Doc) :
    mergeWrites stored (writes ++ more) = mergeWrites (mergeWrites stored writes) more :=
  List.foldl_append

theorem reads_mergeWrites {writes : List Doc} (h : ∀ body ∈ writes, KeepsReadable body)
    {stored : Doc} (hr : Reads stored) : Reads (mergeWrites stored writes) := by
  induction writes generalizing stored with
  | nil => exact hr
  | cons body writes ih =>
    exact ih (fun b hb => h b (List.mem_cons_of_mem _ hb)) (h body List.mem_cons_self stored hr)

theorem get?_mergeWrites {writes : List Doc} {f : StatusField}
    (h : ∀ body ∈ writes, Frames body f) (stored : Doc) :
    (mergeWrites stored writes).get? f.name = stored.get? f.name := by
  induction writes generalizing stored with
  | nil => rfl
  | cons body writes ih =>
    rw [mergeWrites_cons, ih (fun b hb => h b (List.mem_cons_of_mem _ hb))]
    exact h body List.mem_cons_self stored

/-- The Ready conditions with whatever else was stored, the stall aside. -/
def settledBase (previous legacyReady : List Condition) : List Condition :=
  legacyReady ++ previous.filter (fun c =>
    c.type ∉ legacyReady.map Condition.type ∧ c.type ≠ "Stalled")

/-- The pass a finished check records: settled, or pending where the spec has moved on. -/
def finishedPass (base : Status) (o : Observed) : PassPhase :=
  let queuedSince := base.pass.bind (fun p =>
    (PassPhase.fromStatus p o.now).queued.map Queued.since)
  if o.generation < o.live then .pending o.live (queuedSince.getD o.now)
  else .settled o.generation

/-- `finish_settled_pass` on the snapshot `s`; `base` is the status read again from the server,
or the snapshot when that read failed. -/
def finishSettledPass (s base : Status) (o : Observed) : Doc :=
  let pass := finishedPass base o
  let observed := (PassPhase.settled o.generation).observedGeneration base.observedGeneration
  let legacy := conditionsForPhase .ready none (sourceFreshState o.gitRepository s) o.now
  let conditions := mergeConditionTransitions base.conditions
    (projectConditions (settledBase base.conditions legacy) pass observed o.live o.now)
  statusBody [(.pass, some (PassStatus.codec.enc (pass.toStatus o.incarnation))),
    (.observedGeneration, some (Codec.int.enc observed)),
    (.conditions, some ((Codec.list Condition.codec).enc conditions)),
    (.generationLagSince, some (optionDoc .time pass.lagSince)),
    (.lastReconcileRequestHandled, (unhandledRequest s o).map Codec.string.enc)]

def driftCheckTooRecent (prev : Option Time) (now : Time) : Bool :=
  match prev with
  | some p => now - p < seconds 30
  | none => false

/-- `update_drift_check_timestamp`, which sends nothing within thirty seconds of the last check. -/
def updateDriftCheckTimestamp (s : Status) (now : Time) : List Doc :=
  if driftCheckTooRecent s.lastDriftCheckAt now then []
  else [statusBody [(.lastDriftCheckAt, some (Codec.time.enc now))]]

section Sent

theorem decodes_pass (p : PassStatus) : Decodes .pass (some (PassStatus.codec.enc p)) := by
  rintro d ⟨⟩ w
  exact ⟨_, readOption_pass_merge w p⟩

theorem decodes_conditions (cs : List Condition) :
    Decodes .conditions (some ((Codec.list Condition.codec).enc cs)) := by
  rintro d ⟨⟩ w
  exact ⟨_, nonempty_take_mergeSlot w cs⟩

theorem decodes_wire_conditions (s : Status) : Decodes .conditions (s.wire .conditions) := by
  change Decodes .conditions ((Slot.nonempty Condition.codec).put s.conditions)
  cases s.conditions with
  | nil => exact decodes_none _
  | cons c cs => exact decodes_conditions (c :: cs)

theorem decodes_observedGeneration (n : Int) :
    Decodes .observedGeneration (some (Codec.int.enc n)) := by
  rintro d ⟨⟩ w
  exact ⟨_, withDefault_take_mergeSlot Codec.int_flat 0 w n⟩

theorem decodes_generationLagSince (t : Option Time) :
    Decodes .generationLagSince (some (optionDoc .time t)) := by
  rintro d ⟨⟩ w
  exact ⟨_, readOption_mergeSlot_getD Codec.time_flat w t⟩

theorem decodes_lastReconcileRequestHandled (v : Option String) :
    Decodes .lastReconcileRequestHandled (v.map Codec.string.enc) := by
  intro d h w
  obtain ⟨v, -, rfl⟩ := Option.map_eq_some_iff.mp h
  exact ⟨_, readOption_mergeSlot Codec.string_flat w v⟩

theorem decodes_phaseFields (s : Status) (phase : Phase) (error : Option String) (o : Observed) :
    ∀ m ∈ phaseFields s phase error o, Decodes m.1 m.2 := by
  simp only [phaseFields, List.forall_mem_cons]
  refine ⟨?_, decodes_observedGeneration _, ?_, decodes_pass _, decodes_generationLagSince _, ?_,
    decodes_conditions _, ?_, by simp⟩
  · rintro d ⟨⟩ w
    exact ⟨_, readOption_mergeSlot (Codec.enum_flat _ _ _) w phase⟩
  · rintro d ⟨⟩ w
    exact ⟨_, withDefault_take_mergeSlot Codec.int_flat 0 w o.generation⟩
  · rintro d ⟨⟩ w
    exact ⟨_, readOption_mergeSlot_getD Codec.string_flat w o.specDigest⟩
  · intro d h w
    split at h
    · cases h
      exact ⟨_, readOption_mergeSlot Codec.time_flat w o.now⟩
    · cases h

theorem decodes_failureCount (n : Nat) : Decodes .failureCount (some (Codec.nat.enc n)) := by
  rintro d ⟨⟩ w
  exact ⟨_, withDefault_take_mergeSlot Codec.nat_flat 0 w n⟩

end Sent

/-- The fields a phase update may write. -/
def phaseWritten : List StatusField :=
  [.phase, .observedGeneration, .acknowledgedGeneration, .pass, .generationLagSince,
    .observedSpecDigest, .conditions, .phaseEnteredAt, .lastReconcileRequestHandled, .lastError,
    .failureCount]

section Frame

variable (s : Status) (o : Observed) {f : StatusField} (hf : f ∉ phaseWritten)
include hf

theorem frames_updatePhase (phase : Phase) : Frames (updatePhase s phase o) f := by
  refine frames_statusBody (by simp [phaseFields]) (fun h => hf ?_)
  simpa [phaseFields, phaseWritten, or_assoc] using h

theorem frames_updatePhaseWithError (phase : Phase) (error : String) :
    Frames (updatePhaseWithError s phase error o) f := by
  refine frames_statusBody (by simp [phaseFields]) (fun h => hf ?_)
  simp only [phaseFields, List.map_cons, List.map_nil, List.cons_append, List.nil_append,
    List.mem_cons, List.not_mem_nil, or_false] at h
  simp only [phaseWritten, List.mem_cons, List.not_mem_nil, or_false]
  tauto

theorem frames_beginPass (kind : Phase) : Frames (beginPass s kind o) f := by
  refine frames_statusBody (by simp) (fun h => hf ?_)
  simp only [List.map_cons, List.map_nil, List.mem_cons, List.not_mem_nil, or_false] at h
  simp only [phaseWritten, List.mem_cons, List.not_mem_nil, or_false]
  tauto

end Frame

section Distinct

/-- One body sends one value for a field. -/
theorem sent_eq_of_statusBody_eq {fs gs : List (StatusField × Option Doc)}
    (hf : (fs.map Prod.fst).Nodup) (hg : (gs.map Prod.fst).Nodup)
    (h : statusBody fs = statusBody gs) (f : StatusField) : sent fs f = sent gs f := by
  have hrecord : record (fs.map (fun m => (m.1.name, m.2))) =
      record (gs.map (fun m => (m.1.name, m.2))) := by
    simpa [statusBody] using h
  have hmember := congrArg (fun d : Doc => d.get? f.name) hrecord
  simpa only [get?_record, lookup_sent fs hf, lookup_sent gs hg] using hmember

variable (s base : Status) (o o' : Observed)

/-- Finishing a pass writes no phase. -/
theorem finishSettledPass_ne_updatePhase (phase : Phase) :
    finishSettledPass s base o ≠ updatePhase s phase o' := by
  intro h
  have hphase := sent_eq_of_statusBody_eq (by simp) (by simp [phaseFields]) h .phase
  cases hphase

/-- Beginning a pass observes no generation. -/
theorem finishSettledPass_ne_beginPass (kind : Phase) :
    finishSettledPass s base o ≠ beginPass s kind o' := by
  intro h
  have hobserved := sent_eq_of_statusBody_eq (by simp) (by simp) h .observedGeneration
  cases hobserved

end Distinct

section Readable

variable (s : Status) (o : Observed)

theorem keepsReadable_updatePhase (phase : Phase) : KeepsReadable (updatePhase s phase o) := by
  refine keepsReadable_statusBody (by simp [phaseFields]) (List.forall_mem_append.mpr
    ⟨decodes_phaseFields s phase none o, ?_⟩)
  simp only [List.forall_mem_cons]
  refine ⟨decodes_lastReconcileRequestHandled _, ?_, ?_, by simp⟩
  · intro d h w
    split at h
    · cases h
      exact ⟨none, rfl⟩
    · cases h
  · split
    · exact decodes_failureCount 0
    · exact decodes_none _

theorem keepsReadable_updatePhaseWithError (phase : Phase) (error : String) :
    KeepsReadable (updatePhaseWithError s phase error o) := by
  refine keepsReadable_statusBody (by simp [phaseFields]) (List.forall_mem_append.mpr
    ⟨decodes_phaseFields s phase (some error) o, ?_⟩)
  simp only [List.forall_mem_cons]
  refine ⟨?_, decodes_failureCount _, by simp⟩
  rintro d ⟨⟩ w
  exact ⟨_, readOption_mergeSlot Codec.string_flat w error⟩

theorem keepsReadable_beginPass (kind : Phase) : KeepsReadable (beginPass s kind o) := by
  refine keepsReadable_statusBody (by simp) ?_
  simp only [List.forall_mem_cons]
  exact ⟨decodes_pass _, decodes_generationLagSince _, by simp⟩

theorem keepsReadable_finishSettledPass (base : Status) :
    KeepsReadable (finishSettledPass s base o) := by
  refine keepsReadable_statusBody (by simp) ?_
  simp only [List.forall_mem_cons]
  exact ⟨decodes_pass _, decodes_observedGeneration _, decodes_conditions _,
    decodes_generationLagSince _, decodes_lastReconcileRequestHandled _, by simp⟩

theorem decodes_lastDriftCheckAt (t : Time) :
    Decodes .lastDriftCheckAt (some (Codec.time.enc t)) := by
  rintro d ⟨⟩ w
  exact ⟨_, readOption_mergeSlot Codec.time_flat w t⟩

theorem keepsReadable_updateDriftCheckTimestamp (now : Time) :
    ∀ body ∈ updateDriftCheckTimestamp s now, KeepsReadable body := by
  intro body h
  unfold updateDriftCheckTimestamp at h
  split at h
  · simp at h
  · rw [List.mem_singleton.mp h]
    refine keepsReadable_statusBody (by simp) ?_
    simp only [List.forall_mem_cons]
    exact ⟨decodes_lastDriftCheckAt now, by simp⟩

theorem keepsReadable_settlingStatusPatch (outcome : SettlingOutcome)
    (driftDetails : List DriftDetail) (freshness : Option Freshness) (live : Int) (now : Time) :
    ∀ body ∈ buildSettlingStatusPatch s outcome driftDetails freshness live now,
      KeepsReadable body := by
  intro body h
  simp only [buildSettlingStatusPatch] at h
  split at h
  · cases h
    refine keepsReadable_statusBody (by simp [settlingStatusFields]) ?_
    simp only [settlingStatusFields, List.map_cons, List.map_nil, List.forall_mem_cons]
    refine ⟨?_, ?_, ?_, ?_, decodes_lastDriftCheckAt now, by simp⟩
    · rintro d ⟨⟩ w
      exact ⟨_, withDefault_take_mergeSlot Codec.nat_flat 0 w _⟩
    · rintro d ⟨⟩ w
      exact ⟨_, withDefault_take_mergeSlot (Codec.list_flat _) [] w _⟩
    · rintro d ⟨⟩ w
      exact ⟨_, withDefault_take_mergeSlot (Codec.list_flat _) [] w _⟩
    · exact decodes_wire_conditions _
  · cases h

end Readable

end PangeaOperator
