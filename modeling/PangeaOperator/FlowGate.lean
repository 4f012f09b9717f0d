import PangeaOperator.FlowStatuses
import PangeaOperator.PhaseUpdate

/-!
# The status of a flow

`InfrastructureFlowStatus` with serde's wire form, and the gate before it is written: the phase,
the counts, the conditions and the generation are compared, the statuses of the steps are not. What
is written is merged, so that a stored member goes only where something is sent for it.
-/

namespace PangeaOperator

open Json

inductive FlowPhase where
  | pending
  | progressing
  | ready
  | failed
  | destroying
  deriving DecidableEq, Repr

def FlowPhase.name : FlowPhase → String
  | pending => "Pending"
  | progressing => "Progressing"
  | ready => "Ready"
  | failed => "Failed"
  | destroying => "Destroying"

/-- Without the `state`, which a reconcile leaves out, and with `warmed_up` unset. -/
def FlowStepStatus.toJson (s : FlowStepStatus) : Doc :=
  record [
    ("phase", (Slot.optional .string).put s.phase),
    ("outputs", (Slot.optional .map).put (s.outputs.map SortedMap.entries)),
    ("templateName", (Slot.optional .string).put s.templateName),
    ("dependenciesReady", (Slot.withDefault .bool false).put s.dependenciesReady),
    ("lastError", (Slot.optional .string).put s.lastError),
    ("state", none),
    ("warmedUp", (Slot.withDefault .bool false).put false)]

structure FlowStatus where
  phase : Option FlowPhase := none
  totalSteps : Nat := 0
  readySteps : Nat := 0
  steps : SortedMap String FlowStepStatus := .empty
  conditions : List Condition := []
  observedGeneration : Int := 0
  lastError : Option String := none

/-- The steps as members of an object. -/
def stepMembers (steps : SortedMap String FlowStepStatus) : List (String × Doc) :=
  steps.entries.map (fun e => (e.1, e.2.toJson))

def FlowStatus.toJson (s : FlowStatus) : Doc :=
  record [
    ("phase", (Slot.optional .string).put (s.phase.map FlowPhase.name)),
    ("totalSteps", (Slot.withDefault .nat 0).put s.totalSteps),
    ("readySteps", (Slot.withDefault .nat 0).put s.readySteps),
    ("steps", if s.steps.entries = [] then none else some (.obj (stepMembers s.steps))),
    ("conditions", (Slot.nonempty Condition.codec).put s.conditions),
    ("observedGeneration", (Slot.withDefault .int 0).put s.observedGeneration),
    ("lastError", (Slot.optional .string).put s.lastError)]

def flowMessage : FlowPhase → String
  | .ready => "All steps completed successfully"
  | .progressing => "Steps are being deployed"
  | .failed => "One or more steps failed"
  | .pending => "Waiting to start"
  | .destroying => "Flow is being destroyed"

def flowConditions (phase : FlowPhase) (now : Time) : List Condition := [
  createCondition "Ready" (phase = .ready) phase.name (flowMessage phase) now,
  createCondition "Progressing" (phase = .progressing) phase.name (flowMessage phase) now]

def conditionsForSuspended (now : Time) : List Condition :=
  ["Ready", "Reconciling", "DriftDetected"].map fun type =>
    createCondition type false "Suspended" "Template reconciliation is suspended" now

/-- Equal but for the times, in any order. -/
def conditionsObservablyEqual (prev new : List Condition) : Bool :=
  prev.length = new.length && new.all fun n => prev.any fun p =>
    p.type = n.type && p.status = n.status && p.reason = n.reason && p.message = n.message

/-- Whether the status is written: the statuses of the steps are not asked. -/
def flowStatusNeedsPatch (prev : Option FlowStatus) (newPhase : FlowPhase) (newTotal newReady : Nat)
    (newConditions : List Condition) (newObservedGen : Int) : Bool :=
  !conditionsObservablyEqual ((prev.map FlowStatus.conditions).getD []) newConditions ||
    prev.bind FlowStatus.phase ≠ some newPhase ||
    (prev.map FlowStatus.totalSteps).getD 0 ≠ newTotal ||
    (prev.map FlowStatus.readySteps).getD 0 ≠ newReady ||
    (prev.map FlowStatus.observedGeneration).getD 0 ≠ newObservedGen ||
    prev.isNone

def flowStatusPatch (status : Doc) : Doc := .obj [("status", status)]

/-- The patch of `update_flow_phase`. -/
def flowPhasePatch (phase : FlowPhase) (error : Option String) (now : Time) : Doc :=
  flowStatusPatch (record [
    ("phase", some (.str phase.name)),
    ("conditions", some ((Codec.list Condition.codec).enc (flowConditions phase now))),
    ("lastError", (Slot.nullable .string).put error)])

def flowConditionsPatch (conditions : List Condition) : Doc :=
  flowStatusPatch (record [("conditions", some ((Codec.list Condition.codec).enc conditions))])

theorem patchStatus_flowStatusPatch (stored : Doc) (fs : List (String × Option Doc)) :
    patchStatus stored (flowStatusPatch (record fs)) = mergePatch stored (record fs) := by
  simp [patchStatus, flowStatusPatch, record, mergePatch, mergeMembers, mergeMember, members,
    Json.set, get?]

/-- The statuses of the steps in a stored status. -/
def storedSteps (stored : Doc) : List (String × Doc) := ((stored.get? "steps").getD .null).members

def storedStep (stored : Doc) (name : String) : Option Doc := lookup name (storedSteps stored)

/-- The outputs as they are sent. -/
def outputsJson (outputs : SortedMap String Doc) : Doc := .obj outputs.entries

/-- A stored status that tells of a step what was computed for it. -/
structure ShowsStep (v : Doc) (s : FlowStepStatus) : Prop where
  phase : v.get? "phase" = s.phase.map Json.str
  lastError : v.get? "lastError" = s.lastError.map Json.str
  outputs : Option.Rel Same (v.get? "outputs") (s.outputs.map outputsJson)

/-- A stored status that tells of each step what was computed for it, and of no other step. -/
structure ShowsSteps (stored : Doc) (statuses : SortedMap String FlowStepStatus) : Prop where
  absent : ∀ name, statuses.get? name = none → storedStep stored name = none
  present : ∀ name s, statuses.get? name = some s →
    ∃ v, storedStep stored name = some v ∧ ShowsStep v s

/-- Nothing that is stored for a step outlives the merge of its new status. -/
structure LeavesNothing (v : Doc) (s : FlowStepStatus) : Prop where
  lastError : s.lastError = none → v.get? "lastError" = none
  outputs : s.outputs = none → v.get? "outputs" = none
  values : ∀ outputs, s.outputs = some outputs →
    overwrites (outputsJson outputs) ((v.get? "outputs").getD .null) = true

/-- No stored step is gone, and nothing that is stored for the others outlives the merge. -/
structure ReplacesSteps (stored : Doc) (statuses : SortedMap String FlowStepStatus) : Prop where
  absent : ∀ name, statuses.get? name = none → storedStep stored name = none
  present : ∀ name s, statuses.get? name = some s →
    LeavesNothing ((storedStep stored name).getD .null) s

/-- Outputs are objects of the API: none repeats a name. -/
def DistinctOutputs (s : FlowStepStatus) : Prop :=
  ∀ outputs, s.outputs = some outputs → DistinctKeys (outputsJson outputs)

section Step

variable {s : FlowStepStatus}

theorem phase_mergePatch_step (v : Doc) (s : FlowStepStatus) :
    (mergePatch v s.toJson).get? "phase" = mergeSlot (v.get? "phase") (s.phase.map Json.str) := by
  rw [FlowStepStatus.toJson, get?_mergePatch_record v (by simp)]
  simp [Slot.optional, Slot.withDefault, Codec.string]

theorem lastError_mergePatch_step (v : Doc) (s : FlowStepStatus) :
    (mergePatch v s.toJson).get? "lastError" =
      mergeSlot (v.get? "lastError") (s.lastError.map Json.str) := by
  rw [FlowStepStatus.toJson, get?_mergePatch_record v (by simp)]
  simp [Slot.optional, Slot.withDefault, Codec.string]

theorem outputs_mergePatch_step (v : Doc) (s : FlowStepStatus) :
    (mergePatch v s.toJson).get? "outputs" =
      mergeSlot (v.get? "outputs") (s.outputs.map outputsJson) := by
  rw [FlowStepStatus.toJson, get?_mergePatch_record v (by simp)]
  cases s.outputs <;> simp [Slot.optional, Slot.withDefault, Codec.map, outputsJson]

/-- A text that is sent is stored, and one that is not leaves what is there. -/
theorem mergeSlot_text_iff (stored : Option Doc) (sent : Option String) :
    mergeSlot stored (sent.map Json.str) = sent.map Json.str ↔ (sent = none → stored = none) := by
  cases sent with
  | none => simp [mergeSlot]
  | some text => simp [mergeSlot, mergePatch]

theorem mergeSlot_outputs_iff (stored : Option Doc) {sent : Option (SortedMap String Doc)}
    (hdistinct : ∀ outputs, sent = some outputs → DistinctKeys (outputsJson outputs)) :
    Option.Rel Same (mergeSlot stored (sent.map outputsJson)) (sent.map outputsJson) ↔
      (sent = none → stored = none) ∧ ∀ outputs, sent = some outputs →
        overwrites (outputsJson outputs) (stored.getD .null) = true := by
  cases sent with
  | none =>
    cases stored with
    | none => simp [mergeSlot]
    | some v =>
      rw [Option.map_none, mergeSlot]
      refine iff_of_false (fun h => by cases h) fun h => ?_
      cases h.1 rfl
  | some outputs =>
    rw [Option.map_some, mergeSlot_some (by simp [outputsJson])]
    have hsame := same_mergePatch_iff (outputsJson outputs) (stored.getD .null)
      (hdistinct outputs rfl)
    constructor
    · rintro (h | -)
      refine ⟨by simp, fun sent hsent => ?_⟩
      cases hsent
      exact hsame.mp h
    · rintro ⟨-, h⟩
      exact .some (hsame.mpr (h outputs rfl))

/-- A status that is merged is shown where nothing else is left. -/
theorem showsStep_mergePatch_iff (hphase : s.phase.isSome) (hdistinct : DistinctOutputs s)
    (v : Doc) : ShowsStep (mergePatch v s.toJson) s ↔ LeavesNothing v s := by
  have hsent : (mergePatch v s.toJson).get? "phase" = s.phase.map Json.str := by
    rw [phase_mergePatch_step, mergeSlot_text_iff]
    intro hnone
    rw [hnone] at hphase
    cases hphase
  have hlastError : (mergePatch v s.toJson).get? "lastError" = s.lastError.map Json.str ↔
      (s.lastError = none → v.get? "lastError" = none) := by
    rw [lastError_mergePatch_step, mergeSlot_text_iff]
  have houtputs : Option.Rel Same ((mergePatch v s.toJson).get? "outputs")
      (s.outputs.map outputsJson) ↔ (s.outputs = none → v.get? "outputs" = none) ∧
        ∀ outputs, s.outputs = some outputs →
          overwrites (outputsJson outputs) ((v.get? "outputs").getD .null) = true := by
    rw [outputs_mergePatch_step]
    exact mergeSlot_outputs_iff (v.get? "outputs") hdistinct
  constructor
  · intro h
    exact ⟨hlastError.mp h.lastError, (houtputs.mp h.outputs).1, (houtputs.mp h.outputs).2⟩
  · intro h
    exact ⟨hsent, hlastError.mpr h.lastError, houtputs.mpr ⟨h.outputs, h.values⟩⟩

end Step

section Steps

theorem lookup_stepMembers (steps : SortedMap String FlowStepStatus) (name : String) :
    lookup name (stepMembers steps) = (steps.get? name).map FlowStepStatus.toJson := by
  rw [stepMembers, SortedMap.get?]
  induction steps.entries with
  | nil => rfl
  | cons e es ih =>
    rw [List.map_cons, lookup_cons, ih, List.find?_cons]
    by_cases h : e.1 = name <;> simp [h]

theorem nodup_stepMembers (steps : SortedMap String FlowStepStatus) :
    ((stepMembers steps).map Prod.fst).Nodup := by
  rw [stepMembers, List.map_map]
  exact steps.keys_nodup

theorem steps_mergePatch (stored : Doc) (status : FlowStatus) :
    (mergePatch stored status.toJson).get? "steps" = mergeSlot (stored.get? "steps")
      (if status.steps.entries = [] then none else some (.obj (stepMembers status.steps))) := by
  rw [FlowStatus.toJson, get?_mergePatch_record stored (by simp)]
  simp

theorem lastError_mergePatch (stored : Doc) (status : FlowStatus) :
    (mergePatch stored status.toJson).get? "lastError" =
      mergeSlot (stored.get? "lastError") (status.lastError.map Json.str) := by
  rw [FlowStatus.toJson, get?_mergePatch_record stored (by simp)]
  simp [Slot.optional, Codec.string]

/-- Step by step, the merge acts on what is stored for the step alone. -/
theorem storedStep_mergePatch (stored : Doc) (status : FlowStatus) (name : String) :
    storedStep (mergePatch stored status.toJson) name =
      mergeSlot (storedStep stored name) ((status.steps.get? name).map FlowStepStatus.toJson) := by
  rw [storedStep, storedSteps, steps_mergePatch]
  by_cases hempty : status.steps.entries = []
  · have hnone : status.steps.get? name = none := by
      rw [SortedMap.get?, hempty]
      rfl
    rw [if_pos hempty, hnone]
    rfl
  · rw [if_neg hempty, mergeSlot_some (by simp), Option.getD_some, mergePatch, ← lookup_stepMembers]
    exact lookup_mergeMembers name _ _ (nodup_stepMembers status.steps)

/-- Statuses that are merged are shown where nothing else is left. -/
theorem showsSteps_mergePatch_iff (stored : Doc) (status : FlowStatus)
    (hphase : ∀ name s, status.steps.get? name = some s → s.phase.isSome)
    (hdistinct : ∀ name s, status.steps.get? name = some s → DistinctOutputs s) :
    ShowsSteps (mergePatch stored status.toJson) status.steps ↔
      ReplacesSteps stored status.steps := by
  have habsent (name : String) (hnone : status.steps.get? name = none) :
      storedStep (mergePatch stored status.toJson) name = storedStep stored name := by
    rw [storedStep_mergePatch, hnone]
    rfl
  have hpresent (name : String) (s : FlowStepStatus) (hs : status.steps.get? name = some s) :
      storedStep (mergePatch stored status.toJson) name =
        some (mergePatch ((storedStep stored name).getD .null) s.toJson) := by
    rw [storedStep_mergePatch, hs, Option.map_some,
      mergeSlot_some (by simp [FlowStepStatus.toJson])]
  constructor
  · intro h
    refine ⟨fun name hnone => ?_, fun name s hs => ?_⟩
    · rw [← habsent name hnone]
      exact h.absent name hnone
    · obtain ⟨v, hv, hshows⟩ := h.present name s hs
      rw [hpresent name s hs] at hv
      cases hv
      exact (showsStep_mergePatch_iff (hphase name s hs) (hdistinct name s hs) _).mp hshows
  · intro h
    refine ⟨fun name hnone => ?_, fun name s hs => ⟨_, hpresent name s hs, ?_⟩⟩
    · rw [habsent name hnone]
      exact h.absent name hnone
    · exact (showsStep_mergePatch_iff (hphase name s hs) (hdistinct name s hs) _).mpr
        (h.present name s hs)

end Steps

end PangeaOperator
