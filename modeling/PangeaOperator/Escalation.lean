import PangeaOperator.Protection

/-!
# Destruction that was not approved

`find_unapproved_destructive_escalation` as `handle_applying` calls it: the approved side is
the drift list that planning recorded and the status kept the first entries of, matched by
the first entry of an address; the fresh side is all that could be read of the plan made
after the imports.
-/

namespace PangeaOperator

open Json Applying

/-- A plan deletes or replaces something at this address. -/
def Destroys (changes : List (String × String)) (address : String) : Prop :=
  ∃ c ∈ changes, c.1 = address ∧ Applying.isDestructiveAction c.2 = true

/-- The first entry of the address is a delete or a replace. -/
def destroysFirst (changes : List (String × String)) (address : String) : Bool :=
  (changes.find? (fun c => c.1 = address)).any (fun c => Applying.isDestructiveAction c.2)

/-- The fresh plan destroys something that the approved one does not. -/
def DestroysUnapproved (approved fresh : List (String × String)) : Prop :=
  ∃ address, Destroys fresh address ∧ ¬Destroys approved address

theorem destroys_of_destroysFirst {changes : List (String × String)} {address : String}
    (h : destroysFirst changes address = true) : Destroys changes address := by
  obtain ⟨c, hc, hd⟩ := (Option.any_eq_true _ _).mp h
  exact ⟨c, List.mem_of_find?_eq_some hc, by simpa using List.find?_some hc, hd⟩

theorem Destroys.of_take {changes : List (String × String)} {address : String} {n : Nat}
    (h : Destroys (changes.take n) address) : Destroys changes address := by
  obtain ⟨c, hc, hd⟩ := h
  exact ⟨c, List.mem_of_mem_take hc, hd⟩

/-- An escalation is a destructive fresh entry whose address is not first recorded as
destructive. -/
theorem escalation_ne_none_iff (approved fresh : List DriftDetail) :
    findUnapprovedDestructiveEscalation approved fresh ≠ none ↔
      ∃ c ∈ fresh.map DriftDetail.change, Applying.isDestructiveAction c.2 = true ∧
        destroysFirst (approved.map DriftDetail.change) c.1 = false := by
  have hfirst (address : String) :
      (approved.find? (fun a => a.address = address)).any
          (fun a => Applying.isDestructiveAction a.action) =
        destroysFirst (approved.map DriftDetail.change) address := by
    rw [destroysFirst, List.find?_map, Option.any_map]
    rfl
  unfold findUnapprovedDestructiveEscalation
  simp only [hfirst, ne_eq, List.find?_eq_none, List.mem_map]
  push Not
  constructor
  · rintro ⟨d, hd, h⟩
    rw [Bool.and_eq_true, Bool.not_eq_true'] at h
    exact ⟨d.change, ⟨d, hd, rfl⟩, h⟩
  · rintro ⟨_, ⟨d, hd, rfl⟩, h⟩
    refine ⟨d, hd, ?_⟩
    rw [Bool.and_eq_true, Bool.not_eq_true']
    exact h

section Escalation

variable {ν : Type} {libs : Libraries ν} {s t : Status} {i : PlanningInput} {result : PlanResult}
  {changes : List (String × String)}

/-- What the status keeps of a planned change list. -/
def recordedChanges (fromJson : String → Option Plan) (result : PlanResult)
    (bundle : Option CycleArtifact) (changes : List (String × String)) : List (String × String) :=
  if planChanges fromJson result bundle = none then [] else changes.take driftStatusCap

theorem PlannedThenRead.map_change_eq (h : PlannedThenRead libs s i t changes result) :
    t.driftDetails.map DriftDetail.change =
      recordedChanges libs.planFromJson result i.bundle changes := by
  unfold recordedChanges
  cases hn : planChanges libs.planFromJson result i.bundle with
  | none => exact h.map_change_of_not_analysed hn
  | some cs =>
    have ha : planChanges libs.planFromJson result i.bundle = some changes := by
      rw [hn, h.file cs hn]
    simpa using h.map_change ha

theorem destroys_of_recorded {address : String}
    (h : destroysFirst (recordedChanges libs.planFromJson result i.bundle changes) address = true) :
    Destroys changes address := by
  unfold recordedChanges at h
  split at h
  · simp [destroysFirst] at h
  · exact (destroys_of_destroysFirst h).of_take

/-- The gate reports an escalation iff there is one: exactly when the fresh plan could be read and
either something unapproved is destroyed or all it destroys is first recorded as destroyed, or
it could not be read and destroys nothing unapproved. -/
theorem escalation_reported_iff (h : PlannedThenRead libs s i t changes result)
    (recheck : PlanResult) (bundle : Option CycleArtifact) {fresh : List (String × String)}
    (hfresh : ∀ cs, planChanges libs.planFromJson recheck bundle = some cs → cs = fresh) :
    (findUnapprovedDestructiveEscalation t.driftDetails
        (driftDetailsFromPlanResult libs.planFromJson recheck bundle) ≠ none ↔
      DestroysUnapproved changes fresh) ↔
    (planChanges libs.planFromJson recheck bundle ≠ none ∧
        (DestroysUnapproved changes fresh ∨ ∀ c ∈ fresh, Applying.isDestructiveAction c.2 = true →
          destroysFirst (recordedChanges libs.planFromJson result i.bundle changes) c.1 = true) ∨
      planChanges libs.planFromJson recheck bundle = none ∧ ¬DestroysUnapproved changes fresh) := by
  rw [escalation_ne_none_iff, h.map_change_eq, ← analysePlan_drifts]
  cases hread : planChanges libs.planFromJson recheck bundle with
  | none => simp [analysePlan_of_not_analysed hread]
  | some cs =>
    obtain rfl := hfresh cs hread
    rw [(analysePlan_of_planChanges hread).2]
    -- what is destroyed without approval is never first recorded as destroyed
    have hreported (hu : DestroysUnapproved changes cs) :
        ∃ c ∈ cs, Applying.isDestructiveAction c.2 = true ∧
          destroysFirst (recordedChanges libs.planFromJson result i.bundle changes) c.1 =
            false := by
      obtain ⟨address, ⟨c, hc, rfl, hd⟩, hnot⟩ := hu
      refine ⟨c, hc, hd, ?_⟩
      by_contra hfirst
      exact hnot (destroys_of_recorded (by simpa using hfirst))
    constructor
    · intro hiff
      refine .inl ⟨by simp, ?_⟩
      by_cases hu : DestroysUnapproved changes cs
      · exact .inl hu
      · refine .inr (fun c hc hd => ?_)
        by_contra hfirst
        exact hu (hiff.mp ⟨c, hc, hd, by simpa using hfirst⟩)
    · rintro (⟨-, hu | hall⟩ | ⟨hnone, -⟩)
      · exact ⟨fun _ => hu, hreported⟩
      · refine ⟨?_, hreported⟩
        rintro ⟨c, hc, hd, hfirst⟩
        rw [hall c hc hd] at hfirst
        cases hfirst
      · cases hnone

end Escalation

/-- The plan made after the imports: the delete again, and nothing else. -/
def deleteAgain : PlanResult :=
  ⟨some ⟨{ delete := 1 }, [⟨"aws_instance.old", .delete, .breaking⟩]⟩, "", true, true, ""⟩

def deleteAgainChanges : List (String × String) := [("aws_instance.old", "delete")]

theorem deleteAgain_read (cs : List (String × String))
    (h : planChanges noLibraries.planFromJson deleteAgain none = some cs) :
    cs = deleteAgainChanges := (Option.some.inj h).symm

/-- An approved delete behind one update is recognised. -/
theorem second_delete_is_approved :
    ∃ t, PlannedThenRead noLibraries {} (firstPlanning (lateDeletePlan 1)) t (lateDeleteChanges 1)
        (lateDeletePlan 1) ∧
      (findUnapprovedDestructiveEscalation t.driftDetails
          (driftDetailsFromPlanResult noLibraries.planFromJson deleteAgain none) ≠ none ↔
        DestroysUnapproved (lateDeleteChanges 1) deleteAgainChanges) := by
  obtain ⟨t, ht⟩ := Option.isSome_iff_exists.mp afterLateDelete_one_reads
  have h := plannedThenRead_lateDelete 1 ht
  refine ⟨t, h, (escalation_reported_iff h deleteAgain none deleteAgain_read).mpr ?_⟩
  exact .inl ⟨by decide +kernel, .inr (by decide +kernel)⟩

/-- An approved delete behind fifty updates is refused. -/
theorem late_delete_is_refused :
    ∃ t, PlannedThenRead noLibraries {} (firstPlanning (lateDeletePlan 50)) t
        (lateDeleteChanges 50) (lateDeletePlan 50) ∧
      ¬(findUnapprovedDestructiveEscalation t.driftDetails
          (driftDetailsFromPlanResult noLibraries.planFromJson deleteAgain none) ≠ none ↔
        DestroysUnapproved (lateDeleteChanges 50) deleteAgainChanges) := by
  obtain ⟨t, ht⟩ := Option.isSome_iff_exists.mp afterLateDelete_fifty_reads
  have h := plannedThenRead_lateDelete 50 ht
  refine ⟨t, h, fun hiff => ?_⟩
  have hreported : findUnapprovedDestructiveEscalation t.driftDetails
      (driftDetailsFromPlanResult noLibraries.planFromJson deleteAgain none) ≠ none := by
    rw [escalation_ne_none_iff, h.map_change (planChanges_lateDeletePlan 50 _)]
    exact ⟨("aws_instance.old", "delete"), by decide +kernel, rfl, by decide +kernel⟩
  obtain ⟨address, ⟨c, hc, rfl, -⟩, hnot⟩ := hiff.mp hreported
  rw [List.mem_singleton.mp hc] at hnot
  exact hnot ⟨("aws_instance.old", "delete"), by simp [lateDeleteChanges], rfl, rfl⟩

end PangeaOperator
