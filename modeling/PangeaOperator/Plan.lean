import PangeaOperator.Crd
import PangeaOperator.Lib.JsonText

/-!
# Plans and the drift read off them

`executor/plan.rs`, the drift part of `executor/cycle_artifact.rs`, and the
extraction of a drift list from a plan result in `controller/template_controller.rs`.
Deserialising a `tofu show -json` text is serde's and stays a parameter, as does the
bundle fetched back from the database.
-/

namespace PangeaOperator

open Json

/-- The part of a change the analysis reads. -/
structure Change where
  actions : List String
  before : Option Doc
  after : Option Doc
  deriving DecidableEq, Repr

structure ResourceChange where
  address : String
  resourceType : String
  change : Change
  deriving DecidableEq, Repr

structure Plan where
  resourceChanges : List ResourceChange
  deriving DecidableEq, Repr

inductive ChangeType where
  | create
  | update
  | delete
  | replace
  | noOp
  deriving DecidableEq, Repr

namespace ChangeType

def fromActions (actions : List String) : ChangeType :=
  if "create" ∈ actions ∧ "delete" ∈ actions then replace
  else if "create" ∈ actions then create
  else if "delete" ∈ actions then delete
  else if "update" ∈ actions then update
  else noOp

def asStr : ChangeType → String
  | create => "create"
  | update => "update"
  | delete => "delete"
  | replace => "replace"
  | noOp => "noop"

end ChangeType

structure PlanSummary where
  added : Nat
  changed : Nat
  destroyed : Nat
  total : Nat
  hasChanges : Bool
  deriving DecidableEq, Repr

def PlanSummary.format (s : PlanSummary) : String :=
  if !s.hasChanges then "No changes"
  else s!"+{s.added} ~{s.changed} -{s.destroyed}"

/-- `Value::as_object`. -/
def asObject : Doc → Option (List (String × Doc))
  | .obj ms => some ms
  | _ => none

/-- Names of the attributes that differ; values are compared up to the order of keys. -/
def changedAttributes (change : Change) : List String :=
  match change.before.bind asObject, change.after.bind asObject with
  | some b, some a =>
    let differing := a.filter (fun kv =>
      sortKeys ((lookup kv.1 b).getD .null) ≠ sortKeys kv.2)
    let dropped := b.filter (fun kv => lookup kv.1 a = none)
    ((differing ++ dropped).map Prod.fst).insertionSort (· ≤ ·) |>.dedup
  | _, _ => []

/-- `str::contains`. -/
def containsText (pattern text : String) : Bool := pattern.toList <:+: text.toList

def statefulMarks : List String := ["dns_record", "zone", "database", "rds", "vpc", "tunnel"]

def riskLevel (action : ChangeType) (resourceType : String) (attrCount : Nat) : String :=
  match action with
  | .delete | .replace =>
    if statefulMarks.any (fun mark => containsText mark resourceType) then "high" else "medium"
  | .update => if 3 < attrCount then "medium" else "low"
  | .create => "low"
  | .noOp => "none"

namespace ResourceChange

def changeType (rc : ResourceChange) : ChangeType := .fromActions rc.change.actions

/-- The entry of a change in the drift list; a no-op has none. -/
def driftDetail (rc : ResourceChange) : Option DriftDetail :=
  match rc.changeType with
  | .noOp => none
  | action =>
    let attrs := changedAttributes rc.change
    some ⟨rc.address, action.asStr, riskLevel action rc.resourceType attrs.length, attrs, none,
      none⟩

end ResourceChange

namespace Plan

/-- How many changes have one of these types. -/
def count (plan : Plan) (types : List ChangeType) : Nat :=
  plan.resourceChanges.countP (fun rc => rc.changeType ∈ types)

/-- The counters are `u32` in the source; a plan is taken to have fewer than `2 ^ 32` changes. -/
def summary (plan : Plan) : PlanSummary :=
  let added := plan.count [.create, .replace]
  let changed := plan.count [.update]
  let destroyed := plan.count [.delete, .replace]
  ⟨added, changed, destroyed, plan.resourceChanges.length,
    0 < added || 0 < changed || 0 < destroyed⟩

/-- The uncapped drift list, as every caller asks for it. -/
def driftDetails (plan : Plan) : List DriftDetail :=
  plan.resourceChanges.filterMap ResourceChange.driftDetail

end Plan

inductive PlanAction where
  | noOp
  | create
  | update
  | delete
  | replace
  | other (verb : String)
  deriving DecidableEq, Repr

inductive Severity where
  | cosmetic
  | functional
  | breaking
  deriving DecidableEq, Repr

def planActionToTerraformStr : PlanAction → String
  | .noOp => "no-op"
  | .create => "create"
  | .update => "update"
  | .delete => "delete"
  | .replace => "replace"
  | .other verb => verb

def severityToRisk : Severity → String
  | .cosmetic => "safe"
  | .functional => "modify"
  | .breaking => "destroy"

structure TypedResourceChange where
  address : String
  action : PlanAction
  severity : Severity
  deriving DecidableEq, Repr

structure ActionDistribution where
  noOp : Nat := 0
  create : Nat := 0
  update : Nat := 0
  delete : Nat := 0
  replace : Nat := 0
  other : Nat := 0
  deriving DecidableEq, Repr

structure CycleArtifact where
  actionDistribution : ActionDistribution
  resourceChanges : List TypedResourceChange
  deriving DecidableEq, Repr

namespace TypedResourceChange

def driftDetail (c : TypedResourceChange) : DriftDetail :=
  ⟨c.address, planActionToTerraformStr c.action, severityToRisk c.severity, [], none, none⟩

end TypedResourceChange

/-- `u32::saturating_add`. -/
def saturatingAdd (m n : Nat) : Nat := min (m + n) (2 ^ 32 - 1)

namespace CycleArtifact

def summaryCounts (art : CycleArtifact) : Nat × Nat × Nat × Nat :=
  let d := art.actionDistribution
  (d.create, saturatingAdd d.update d.replace, d.delete,
    [d.create, d.update, d.delete, d.replace, d.other].foldl saturatingAdd d.noOp)

def driftDetails (art : CycleArtifact) : List DriftDetail :=
  (art.resourceChanges.filter (fun c => c.action ≠ .noOp)).map TypedResourceChange.driftDetail

end CycleArtifact

def planSummaryAndDriftsFromArtifact (art : CycleArtifact) : PlanSummary × List DriftDetail :=
  let (added, changed, destroyed, total) := art.summaryCounts
  (⟨added, changed, destroyed, total, 0 < added || 0 < changed || 0 < destroyed⟩,
    art.driftDetails)

/-- `PlanResult` of a workspace runner. -/
structure PlanResult where
  artifact : Option CycleArtifact
  rawShowJson : String
  hasChanges : Bool
  success : Bool
  rawStderr : String
  deriving DecidableEq, Repr

section Extraction

variable (fromJson : String → Option Plan)

def driftDetailsFromTofuShowJson (rawShowJson : String) : List DriftDetail :=
  if rawShowJson.isEmpty then []
  else match fromJson rawShowJson with
    | some plan => plan.driftDetails
    | none => []

def driftDetailsFromPlanResultSync (result : PlanResult) : Option (List DriftDetail) :=
  if !result.rawShowJson.isEmpty then
    some (driftDetailsFromTofuShowJson fromJson result.rawShowJson)
  else result.artifact.map (fun art => (planSummaryAndDriftsFromArtifact art).2)

/-- `bundle` is what `fetch_db_backed_cycle_artifact` brings back. -/
def driftDetailsFromPlanResult (result : PlanResult) (bundle : Option CycleArtifact) :
    List DriftDetail :=
  match driftDetailsFromPlanResultSync fromJson result with
  | some drifts => drifts
  | none => match bundle with
    | some art => (planSummaryAndDriftsFromArtifact art).2
    | none => []

/-- The extraction of `handle_planning`: the same three paths, with a summary where the plan was
analysed. -/
def analysePlan (result : PlanResult) (bundle : Option CycleArtifact) :
    Option PlanSummary × List DriftDetail :=
  if !result.rawShowJson.isEmpty then
    match fromJson result.rawShowJson with
    | some plan => (some plan.summary, plan.driftDetails)
    | none => (none, [])
  else match result.artifact.or bundle with
    | some art =>
      let (summary, drifts) := planSummaryAndDriftsFromArtifact art
      (some summary, drifts)
    | none => (none, [])

/-- Planning and the drift check read the same list off a plan result. -/
theorem analysePlan_drifts (result : PlanResult) (bundle : Option CycleArtifact) :
    (analysePlan fromJson result bundle).2 = driftDetailsFromPlanResult fromJson result bundle := by
  unfold analysePlan driftDetailsFromPlanResult driftDetailsFromPlanResultSync
    driftDetailsFromTofuShowJson
  by_cases he : result.rawShowJson.isEmpty
  · cases ha : result.artifact with
    | none => cases bundle <;> simp [he]
    | some art => simp [he]
  · cases fromJson result.rawShowJson <;> simp [he]

end Extraction

theorem ResourceChange.driftDetail_eq_none_iff (rc : ResourceChange) :
    rc.driftDetail = none ↔ rc.changeType = .noOp := by
  unfold driftDetail
  cases rc.changeType <;> simp

/-- Address and action of every change of the plan that is not a no-op, where the plan result can
be analysed at all. -/
def planChanges (fromJson : String → Option Plan) (result : PlanResult)
    (bundle : Option CycleArtifact) : Option (List (String × String)) :=
  if result.rawShowJson.isEmpty then
    (result.artifact.or bundle).map (fun art =>
      (art.resourceChanges.filter (fun c => c.action ≠ .noOp)).map
        (fun c => (c.address, planActionToTerraformStr c.action)))
  else
    (fromJson result.rawShowJson).map (fun plan =>
      (plan.resourceChanges.filter (fun rc => rc.changeType ≠ .noOp)).map
        (fun rc => (rc.address, rc.changeType.asStr)))

/-- What a drift entry says of a change. -/
def DriftDetail.change (d : DriftDetail) : String × String := (d.address, d.action)

theorem ResourceChange.map_change_driftDetail (rc : ResourceChange) :
    rc.driftDetail.map DriftDetail.change =
      if rc.changeType ≠ .noOp then some (rc.address, rc.changeType.asStr) else none := by
  unfold driftDetail
  cases rc.changeType <;> rfl

theorem Plan.map_change_driftDetails (plan : Plan) :
    plan.driftDetails.map DriftDetail.change =
      (plan.resourceChanges.filter (fun rc => rc.changeType ≠ .noOp)).map
        (fun rc => (rc.address, rc.changeType.asStr)) := by
  unfold driftDetails
  induction plan.resourceChanges with
  | nil => rfl
  | cons rc rcs ih =>
    have hrc := rc.map_change_driftDetail
    by_cases hn : rc.changeType = .noOp
    · have hd := (rc.driftDetail_eq_none_iff).mpr hn
      simp [hd, hn, ih]
    · rw [if_pos hn] at hrc
      obtain ⟨d, hd, hc⟩ := Option.map_eq_some_iff.mp hrc
      simp [hd, hn, hc, ih]

/-- The drift list of an analysed plan has one entry for each of its changes, in order. -/
theorem analysePlan_of_planChanges {fromJson : String → Option Plan} {result : PlanResult}
    {bundle : Option CycleArtifact} {changes : List (String × String)}
    (h : planChanges fromJson result bundle = some changes) :
    (analysePlan fromJson result bundle).1.isSome = true ∧
      (analysePlan fromJson result bundle).2.map DriftDetail.change = changes := by
  unfold planChanges at h
  unfold analysePlan
  by_cases he : result.rawShowJson.isEmpty
  · rw [if_pos he] at h
    obtain ⟨art, ha, rfl⟩ := Option.map_eq_some_iff.mp h
    simp [he, ha, planSummaryAndDriftsFromArtifact, CycleArtifact.driftDetails,
      TypedResourceChange.driftDetail, DriftDetail.change, Function.comp_def]
  · rw [if_neg he] at h
    obtain ⟨plan, hp, rfl⟩ := Option.map_eq_some_iff.mp h
    simp [he, hp, plan.map_change_driftDetails]

/-- A plan that is not analysed has no summary and an empty drift list. -/
theorem analysePlan_of_not_analysed {fromJson : String → Option Plan} {result : PlanResult}
    {bundle : Option CycleArtifact} (h : planChanges fromJson result bundle = none) :
    analysePlan fromJson result bundle = (none, []) := by
  unfold planChanges at h
  unfold analysePlan
  by_cases he : result.rawShowJson.isEmpty
  · rw [if_pos he, Option.map_eq_none_iff] at h
    simp [he, h]
  · rw [if_neg he, Option.map_eq_none_iff] at h
    simp [he, h]

end PangeaOperator
