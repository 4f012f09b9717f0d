import PangeaOperator.Applying

/-!
# Destroy protection from the plan to the apply

Planning records the drift list of its plan in the status, cut to the status cap; a later
reconcile reads it back and applies the plan file if the list has no destructive entry.
-/

namespace PangeaOperator

open Json

section Recorded

variable {ν : Type} (libs : Libraries ν) (s : Status) (i : PlanningInput)

theorem frames_routeThroughApprovalGate (outcome : PolicyOutcome) :
    ∀ body ∈ (routeThroughApprovalGate libs s i outcome).1, Frames body .driftDetails := by
  intro body hb
  unfold routeThroughApprovalGate at hb
  split at hb
  · simp at hb
  · dsimp only at hb
    split at hb
    · rw [List.mem_singleton.mp hb]
      exact frames_updatePhase s _ (by decide) _
    · rw [List.mem_singleton.mp hb]
      exact frames_statusBody (by simp) (by simp)

/-- The transition after the record does not touch the recorded list. -/
theorem frames_routePlan (hasChanges : Bool) (outcome : PolicyOutcome) :
    ∀ body ∈ (routePlan libs s i hasChanges outcome).1, Frames body .driftDetails := by
  intro body hb
  unfold routePlan at hb
  split at hb
  · rw [List.mem_singleton.mp hb]
    exact frames_updatePhase s _ (by decide) _
  · split at hb
    · rw [List.mem_singleton.mp hb]
      exact frames_updatePhaseWithError s _ (by decide) _ _
    · split at hb
      · exact frames_routeThroughApprovalGate libs s i outcome body hb
      · rw [List.mem_singleton.mp hb]
        exact frames_updatePhase s _ (by decide) _
    · exact frames_routeThroughApprovalGate libs s i outcome body hb

theorem take_driftDetails_planRecord (stored : Doc) (summary : Option PlanSummary)
    (drifts : List DriftDetail) :
    StatusField.driftDetails.slot.take
        ((patchStatus stored (i.planRecord libs s summary drifts)).get? "driftDetails") =
      some ((i.outcome libs drifts).annotatedDrifts.take driftStatusCap) := by
  have hget (target : Status) := get?_patchStatus stored
    (planStatusFields.map (fun f => (f, target.wire f))) (by simp [planStatusFields]) .driftDetails
  rw [PlanningInput.planRecord, buildPlanStatusPatch, scopedStatusPatch]
  refine Eq.trans (congrArg _ (hget _)) ?_
  rw [sent_scoped, if_pos (by simp [planStatusFields])]
  exact withDefault_take_mergeSlot (Codec.list_flat _) [] _ _

theorem map_change_annotatedDrifts (drifts : List DriftDetail) :
    (i.outcome libs drifts).annotatedDrifts.map DriftDetail.change =
      drifts.map DriftDetail.change := by
  simp only [PlanningInput.outcome, evaluatePolicy, List.map_map]
  rfl

/-- A snapshot read after planning has the first changes of the plan, as long as nobody else
writes the list. -/
theorem changes_of_recorded {result : PlanResult} (h : Judged libs i result) {stored : Doc}
    {between : List Doc} (hb : ∀ body ∈ between, Frames body .driftDetails) {t : Status}
    (ht : Status.read
      (mergeWrites (mergeWrites stored (handlePlanning libs s i).writes) between) = some t) :
    t.driftDetails.map DriftDetail.change =
      ((analysePlan libs.planFromJson result i.bundle).2.map DriftDetail.change).take
        driftStatusCap := by
  have hread := Status.read_eq_some_iff.mp ht .driftDetails
  rw [get?_mergeWrites hb, handlePlanning_of_judged libs s i h] at hread
  simp only [judgePlan, mergeWrites_cons] at hread
  rw [get?_mergeWrites (frames_routePlan libs s i _ _)] at hread
  have hrecord := take_driftDetails_planRecord libs s i
    (patchStatus stored (beginPass s .planning i.begun))
    (analysePlan libs.planFromJson result i.bundle).1
    (analysePlan libs.planFromJson result i.bundle).2
  have hlist := Option.some.inj (hread.symm.trans hrecord)
  rw [show t.driftDetails = _ from hlist, List.map_take, map_change_annotatedDrifts]

end Recorded

section Calls

variable (fromJson : String → Option Plan) (s : Status) (i : ApplyingInput)

@[simp] theorem applyingReply_applies (applies : List ApplyCall) (writes : List Doc)
    (action : Option ReconcileAction) :
    (applyingReply s i applies writes action).applies = applies := rfl

@[simp] theorem refuseApply_applies (applies : List ApplyCall) (message : String) :
    (refuseApply s i applies message).applies = applies := rfl

@[simp] theorem concludeApply_applies (applies : List ApplyCall) (result : ApplyResult) :
    (concludeApply s i applies result).applies = applies := by
  unfold concludeApply
  split
  · rfl
  · dsimp only
    split <;> rfl

theorem resolveConflicts_applies (applies : List ApplyCall) (result : ApplyResult) :
    ∃ n, (resolveConflicts s i applies result).applies = applies ++ List.replicate n .bare := by
  unfold resolveConflicts
  split
  · exact ⟨0, by simp⟩
  · split
    · exact ⟨0, by simp⟩
    · exact ⟨0, by simp⟩
    · next outcome _ =>
      refine ⟨outcome.reapplies, ?_⟩
      dsimp only
      split <;> simp

/-- Whatever follows an apply is bare. -/
theorem applyWith_applies (call : ApplyCall) :
    ∃ n, (applyWith fromJson s i call).applies = call :: List.replicate n .bare := by
  unfold applyWith
  split
  · exact ⟨0, rfl⟩
  · next result _ =>
    split
    · split
      · exact ⟨0, rfl⟩
      · split
        · exact ⟨1, rfl⟩
        · next retried _ =>
          obtain ⟨n, hn⟩ := resolveConflicts_applies s i [call, .bare] retried
          exact ⟨n + 1, by simp [hn, List.replicate_succ]⟩
    · obtain ⟨n, hn⟩ := resolveConflicts_applies s i [call] result
      exact ⟨n, by simp [hn]⟩

theorem cachedPlan_mem_applyWith_iff (call : ApplyCall) :
    .cachedPlan ∈ (applyWith fromJson s i call).applies ↔ call = .cachedPlan := by
  obtain ⟨n, hn⟩ := applyWith_applies fromJson s i call
  simp [hn, List.mem_replicate, eq_comm]

/-- Nothing but the gate over the recorded list keeps the plan file from being applied as it
is. -/
structure ReachesCachedApply : Prop where
  config : i.configAvailable = true
  lock : i.lock = some .proceed
  file : i.hasPlanFile = true
  recheck : i.prepass.planMayBeStale = true → ∃ r, i.recheck = some r ∧ r.success = false

theorem recheckAfterImport_eq_passed_false_iff :
    recheckAfterImport fromJson s i = .passed false ↔
      (i.prepass.planMayBeStale = true → ∃ r, i.recheck = some r ∧ r.success = false) := by
  unfold recheckAfterImport
  cases i.prepass.planMayBeStale with
  | false => simp
  | true =>
    cases i.recheck with
    | none => simp
    | some r =>
      cases hr : r.success with
      | false => simp [hr]
      | true =>
        simp only [Bool.not_true, Bool.false_eq_true, if_false, hr, Option.some.injEq,
          exists_eq_left', true_imp_iff]
        split
        · simp
        · split <;> simp

section Reply

variable {P : List ApplyCall → Prop} (hnil : ¬P [])
include hnil

/-- What holds of the calls of a reply, but not where there are none, holds by the gates that let
an apply through. -/
theorem applyLocked_calls_iff : P (applyLocked fromJson s i).applies ↔
    ∃ replanned, recheckAfterImport fromJson s i = .passed replanned ∧
      destroyProtectionRefusal s i = none ∧
        if i.hasPlanFile then
          P (applyWith fromJson s i (if replanned then .recheckedPlan else .cachedPlan)).applies
        else recheckDestroyProtectionBeforeBareApply fromJson i i.beforeApply = none ∧
          P (applyWith fromJson s i .bare).applies := by
  unfold applyLocked
  cases recheckAfterImport fromJson s i with
  | error => simp [hnil]
  | refused message => simp [hnil]
  | passed replanned =>
    cases destroyProtectionRefusal s i with
    | some message => simp [hnil]
    | none =>
      cases i.hasPlanFile with
      | true => simp
      | false =>
        cases recheckDestroyProtectionBeforeBareApply fromJson i i.beforeApply with
        | some message => simp [hnil]
        | none => simp

theorem handleApplying_calls_iff : P (handleApplying fromJson s i).applies ↔
    i.configAvailable = true ∧ i.lock = some .proceed ∧ P (applyLocked fromJson s i).applies := by
  unfold handleApplying
  cases i.configAvailable with
  | false => simp [hnil]
  | true =>
    cases i.lock with
    | none => simp [hnil]
    | some lock => cases lock <;> simp [hnil]

end Reply

/-- When the plan file is applied as planning left it. -/
theorem cachedPlan_mem_iff :
    .cachedPlan ∈ (handleApplying fromJson s i).applies ↔
      ReachesCachedApply i ∧ destroyProtectionRefusal s i = none := by
  have hreach : ReachesCachedApply i ↔ i.configAvailable = true ∧ i.lock = some .proceed ∧
      i.hasPlanFile = true ∧ recheckAfterImport fromJson s i = .passed false := by
    rw [recheckAfterImport_eq_passed_false_iff]
    exact ⟨fun h => ⟨h.config, h.lock, h.file, h.recheck⟩, fun ⟨a, b, c, d⟩ => ⟨a, b, c, d⟩⟩
  rw [hreach, handleApplying_calls_iff (P := (.cachedPlan ∈ ·)) fromJson s i List.not_mem_nil,
    applyLocked_calls_iff (P := (.cachedPlan ∈ ·)) fromJson s i List.not_mem_nil]
  simp only [cachedPlan_mem_applyWith_iff]
  cases i.hasPlanFile <;> simp [and_assoc]

theorem destroyProtectionRefusal_eq_none_iff (hp : i.destroyProtection = true) :
    destroyProtectionRefusal s i = none ↔
      ∀ c ∈ s.driftDetails.map DriftDetail.change, Applying.isDestructiveAction c.2 = false := by
  have hfind : s.driftDetails.find? (fun d => Applying.isDestructiveAction d.action) = none ↔
      ∀ c ∈ s.driftDetails.map DriftDetail.change, Applying.isDestructiveAction c.2 = false := by
    simp [List.find?_eq_none, DriftDetail.change]
  rw [← hfind]
  unfold destroyProtectionRefusal Applying.evaluateDestroyProtectionGate
  cases s.driftDetails.find? (fun d => Applying.isDestructiveAction d.action) <;> simp [hp]

end Calls

/-- A judged planning, and a snapshot read later, with no other write to the drift list in between.
The plan file has these changes, as far as the plan result could be analysed. -/
structure PlannedThenRead {ν : Type} (libs : Libraries ν) (s : Status) (i : PlanningInput)
    (t : Status) (changes : List (String × String)) (result : PlanResult) : Prop where
  judged : Judged libs i result
  snapshot : ∃ stored between, (∀ body ∈ between, Frames body .driftDetails) ∧
    Status.read (mergeWrites (mergeWrites stored (handlePlanning libs s i).writes) between) = some t
  file : ∀ cs, planChanges libs.planFromJson result i.bundle = some cs → cs = changes

section Protected

variable {ν : Type} {libs : Libraries ν} {s t : Status} {i : PlanningInput} {result : PlanResult}
  {changes : List (String × String)}

/-- The gate reads the first changes of an analysed plan. -/
theorem PlannedThenRead.map_change (h : PlannedThenRead libs s i t changes result)
    (ha : planChanges libs.planFromJson result i.bundle = some changes) :
    t.driftDetails.map DriftDetail.change = changes.take driftStatusCap := by
  obtain ⟨stored, between, hb, ht⟩ := h.snapshot
  rw [changes_of_recorded libs s i h.judged hb ht, (analysePlan_of_planChanges ha).2]

/-- It reads nothing of a plan that was not analysed. -/
theorem PlannedThenRead.map_change_of_not_analysed (h : PlannedThenRead libs s i t changes result)
    (hn : planChanges libs.planFromJson result i.bundle = none) :
    t.driftDetails.map DriftDetail.change = [] := by
  obtain ⟨stored, between, hb, ht⟩ := h.snapshot
  rw [changes_of_recorded libs s i h.judged hb ht, analysePlan_of_not_analysed hn]
  rfl

/-- Under destroy protection the plan file is applied as it is only if it destroys nothing, exactly
when that apply is not reached, or the plan destroys nothing, or it was analysed and destroys
something among its first fifty changes. -/
theorem protected_cached_apply_iff (h : PlannedThenRead libs s i t changes result)
    (j : ApplyingInput) (hp : j.destroyProtection = true) :
    (.cachedPlan ∈ (handleApplying libs.planFromJson t j).applies →
        ∀ c ∈ changes, Applying.isDestructiveAction c.2 = false) ↔
      (ReachesCachedApply j →
        (∀ c ∈ changes, Applying.isDestructiveAction c.2 = false) ∨
          (planChanges libs.planFromJson result i.bundle ≠ none ∧
            ∃ c ∈ changes.take driftStatusCap, Applying.isDestructiveAction c.2 = true)) := by
  rw [cachedPlan_mem_iff, destroyProtectionRefusal_eq_none_iff t j hp, and_imp]
  refine forall_congr' (fun _ => ?_)
  cases hn : planChanges libs.planFromJson result i.bundle with
  | none => simp [h.map_change_of_not_analysed hn]
  | some cs =>
    have ha : planChanges libs.planFromJson result i.bundle = some changes := by
      rw [hn, h.file cs hn]
    rw [h.map_change ha]
    constructor
    · intro hall
      by_cases hd : ∀ c ∈ changes.take driftStatusCap, Applying.isDestructiveAction c.2 = false
      · exact .inl (hall hd)
      · push Not at hd
        obtain ⟨c, hc, hne⟩ := hd
        exact .inr ⟨by simp, c, hc, by simpa using hne⟩
    · rintro (hnone | ⟨-, c, hc, hd⟩) hall
      · exact hnone
      · rw [hall c hc] at hd
        cases hd

end Protected

/-- Updates of `n` instances and then the delete of one. -/
def lateDeletePlan (n : Nat) : PlanResult :=
  let updates := (List.range n).map (fun k =>
    TypedResourceChange.mk ("aws_instance.web" ++ toString k) .update .functional)
  ⟨some ⟨{ update := n, delete := 1 }, updates ++ [⟨"aws_instance.old", .delete, .breaking⟩]⟩,
    "", true, true, ""⟩

def lateDeleteChanges (n : Nat) : List (String × String) :=
  (List.range n).map (fun k => ("aws_instance.web" ++ toString k, "update")) ++
    [("aws_instance.old", "delete")]

def afterLateDelete (n : Nat) : Doc :=
  mergeWrites (mergeWrites ({} : Status).toJson
    (handlePlanning noLibraries {} (firstPlanning (lateDeletePlan n))).writes)
    [beginPass {} .applying firstObserved]

theorem planChanges_lateDeletePlan (n : Nat) (fromJson : String → Option Plan) :
    planChanges fromJson (lateDeletePlan n) none = some (lateDeleteChanges n) := by
  have hempty : (lateDeletePlan n).rawShowJson.isEmpty = true := rfl
  rw [planChanges, if_pos hempty]
  simp [lateDeletePlan, lateDeleteChanges, List.filter_append, List.filter_map, List.map_map,
    Function.comp_def, planActionToTerraformStr]

theorem plannedThenRead_lateDelete (n : Nat) {t : Status}
    (ht : Status.read (afterLateDelete n) = some t) :
    PlannedThenRead noLibraries {} (firstPlanning (lateDeletePlan n)) t (lateDeleteChanges n)
      (lateDeletePlan n) := by
  have hcurrent : readyDriftDecision .unknown (lateDeletePlan n).hasChanges ≠ .recompileStale := by
    simp [readyDriftDecision, lateDeletePlan]
  refine ⟨⟨rfl, rfl, rfl, fun _ => rfl, hcurrent⟩, ⟨_, _, ?_, ht⟩, ?_⟩
  · intro body hb
    rw [List.mem_singleton.mp hb]
    exact frames_beginPass {} firstObserved (by decide) .applying
  · intro cs hcs
    exact Option.some.inj (hcs.symm.trans (planChanges_lateDeletePlan n _))

/-- An apply of the plan file as it is, under destroy protection. -/
def protectedApplying : ApplyingInput where
  configAvailable := true
  lock := some .proceed
  prepass := {}
  planExists := true
  recheck := none
  recheckBundle := none
  destroyProtection := true
  beforeApply := ⟨none, none, none, none⟩
  applied := some ⟨true, "", ""⟩
  beforeRetry := ⟨none, none, none, none⟩
  retried := none
  conflicts := some none
  driver := .unclassified ""
  outputs := none
  begun := firstObserved
  recorded := firstObserved
  entered := firstObserved

theorem afterLateDelete_one_reads : (Status.read (afterLateDelete 1)).isSome = true := by
  decide +kernel

theorem afterLateDelete_fifty_reads : (Status.read (afterLateDelete 50)).isSome = true := by
  decide +kernel

/-- A delete behind one update is seen. -/
theorem second_delete_is_protected :
    ∃ t, PlannedThenRead noLibraries {} (firstPlanning (lateDeletePlan 1)) t (lateDeleteChanges 1)
        (lateDeletePlan 1) ∧
      (.cachedPlan ∈ (handleApplying noLibraries.planFromJson t protectedApplying).applies →
        ∀ c ∈ lateDeleteChanges 1, Applying.isDestructiveAction c.2 = false) := by
  obtain ⟨t, ht⟩ := Option.isSome_iff_exists.mp afterLateDelete_one_reads
  have h := plannedThenRead_lateDelete 1 ht
  refine ⟨t, h, (protected_cached_apply_iff h protectedApplying rfl).mpr ?_⟩
  intro _
  exact .inr ⟨by simp [firstPlanning, planChanges_lateDeletePlan], by decide⟩

/-- A delete behind fifty updates is not: the plan file is applied. -/
theorem late_delete_is_applied :
    ¬∀ t, PlannedThenRead noLibraries {} (firstPlanning (lateDeletePlan 50)) t
        (lateDeleteChanges 50) (lateDeletePlan 50) →
      .cachedPlan ∈ (handleApplying noLibraries.planFromJson t protectedApplying).applies →
      ∀ c ∈ lateDeleteChanges 50, Applying.isDestructiveAction c.2 = false := by
  obtain ⟨t, ht⟩ := Option.isSome_iff_exists.mp afterLateDelete_fifty_reads
  have h := plannedThenRead_lateDelete 50 ht
  intro hall
  have happlied : .cachedPlan ∈ (handleApplying noLibraries.planFromJson t
      protectedApplying).applies := by
    rw [cachedPlan_mem_iff, destroyProtectionRefusal_eq_none_iff t protectedApplying rfl,
      h.map_change (planChanges_lateDeletePlan 50 _)]
    exact ⟨⟨rfl, rfl, rfl, fun h => absurd h (by decide)⟩, by decide⟩
  have hdelete := hall t h happlied ("aws_instance.old", "delete") (by simp [lateDeleteChanges])
  cases hdelete

end PangeaOperator
