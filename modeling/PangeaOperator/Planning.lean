import PangeaOperator.Approval
import PangeaOperator.Handler
import PangeaOperator.Plan
import PangeaOperator.Policy

/-!
# The Planning phase

`handle_planning`: the plan is analysed, judged by the policy engine, recorded in the
status and sent on to Ready, Failed, Applying or the approval gate. The cycle receipts
it also records are not modelled.
-/

namespace PangeaOperator

open Json

/-- The code outside the operator that the handlers call: deserialising a plan, compiling a
regular expression, and reading and writing JSON. -/
structure Libraries (ν : Type) where
  planFromJson : String → Option Plan
  regex : String → Option (String → Bool)
  numText : ν → List Char
  parseJson : List UInt8 → Option (Json ν)

inductive DriftReaction where
  | autoApply
  | requireApproval
  | refuse
  | alert
  deriving DecidableEq, Repr

def workspaceDriftReactionToPolicyDecision : DriftReaction → PolicyDecision
  | .autoApply => .autoApply
  | .requireApproval => .requireApproval
  | .refuse => .refuse
  | .alert => .autoApply

inductive ReadyAction where
  | recompileStale
  | settled
  | drifted
  deriving DecidableEq, Repr

def readyDriftDecision (freshness : Freshness) (planHasChanges : Bool) : ReadyAction :=
  match freshness, planHasChanges with
  | .stale _ _, _ => .recompileStale
  | .fresh, false | .unknown, false => .settled
  | .fresh, true | .unknown, true => .drifted

def stateContinuityBreach (isDurableStateBackend previouslyApplied statePresentNow : Bool) : Bool :=
  !isDurableStateBackend && previouslyApplied && !statePresentNow

inductive AutoApplyGate where
  | proceed
  | blockedByStateContinuityBreach
  deriving DecidableEq, Repr

def evaluateAutoApplyGate (isDurableStateBackend previouslyApplied statePresentNow : Bool) :
    AutoApplyGate :=
  if stateContinuityBreach isDurableStateBackend previouslyApplied statePresentNow then
    .blockedByStateContinuityBreach
  else .proceed

/-- What planning takes from outside the status. `judgement` is the refusal of the leaf budget,
asked for only where the addresses of the plan are known. -/
structure PlanningInput where
  configAvailable : Bool
  freshness : Freshness
  plan : Option PlanResult
  bundle : Option CycleArtifact
  judgement : Option String
  policies : List PolicyRule
  defaultDecision : Option PolicyDecision
  catalogReaction : Option DriftReaction
  durable : Bool
  state : CurrentStateFingerprint
  specApproved : Option String
  begun : Observed
  recordedAt : Time
  entered : Observed

/-- Where a judged plan went. -/
inductive PlanningRoute where
  | noChanges
  | refused
  | autoApplied
  | approved
  | awaitingApproval
  | stateUnreadable
  deriving DecidableEq, Repr

/-- The verdict is the aggregate decision, once the policy engine has run. -/
structure PlanningReply extends Reply where
  verdict : Option PolicyDecision
  route : Option PlanningRoute

def updatePendingPlanHash (planHash : String) : Doc :=
  statusBody [(.pendingPlanHash, some (Codec.string.enc planHash)), (.approvedPlanHash, some .null)]

namespace PlanningInput

/-- The template's own default, or its catalog's. -/
def effectiveDefault (i : PlanningInput) : Option PolicyDecision :=
  i.defaultDecision.or (i.catalogReaction.map workspaceDriftReactionToPolicyDecision)

end PlanningInput

section Handle

variable {ν : Type} (libs : Libraries ν) (s : Status) (i : PlanningInput)

def PlanningInput.outcome (drifts : List DriftDetail) : PolicyOutcome :=
  evaluatePolicy libs.regex i.policies i.effectiveDefault drifts

/-- `update_plan_status` with the whole annotated list. -/
def PlanningInput.planRecord (summary : Option PlanSummary) (drifts : List DriftDetail) : Doc :=
  let outcome := i.outcome libs drifts
  buildPlanStatusPatch s
    (summary.map (fun p => ⟨p.total, p.added, p.changed, p.destroyed⟩))
    (summary.map PlanSummary.format) outcome.annotatedDrifts
    (if policyIsConfigured i.policies i.effectiveDefault then some outcome.evaluation else none)
    i.recordedAt

/-- `route_through_approval_gate`. -/
def routeThroughApprovalGate (outcome : PolicyOutcome) :
    List Doc × ReconcileAction × PlanningRoute :=
  match resolveApprovalHashInput i.state with
  | none => ([], .requeue defaultRequeueInterval, .stateUnreadable)
  | some bytes =>
    let planHash := planApprovalHash libs.numText libs.parseJson
      (canonicalDriftFingerprint outcome.annotatedDrifts) bytes
    if isPlanApproved s.approvedPlanHash i.specApproved planHash then
      ([updatePhase s .applying i.entered], .requeue shortRequeueInterval, .approved)
    else
      ([updatePendingPlanHash planHash], .requeue defaultRequeueInterval, .awaitingApproval)

def refusalMessage (evaluation : PolicyEvaluation) : String :=
  let sample := ", ".intercalate evaluation.refusedAddresses
  s!"Plan refused by policy: {evaluation.refuseCount} refused change(s). Refused addresses: {sample}"

/-- The transition the verdict leads to. -/
def routePlan (hasChanges : Bool) (outcome : PolicyOutcome) :
    List Doc × ReconcileAction × PlanningRoute :=
  if !hasChanges then
    ([updatePhase s .ready i.entered], .requeue defaultRequeueInterval, .noChanges)
  else match outcome.aggregate with
    | .refuse =>
      ([updatePhaseWithError s .failed (refusalMessage outcome.evaluation) i.entered],
        .requeue defaultRequeueInterval, .refused)
    | .autoApply =>
      match evaluateAutoApplyGate i.durable s.lastAppliedAt.isSome i.state.isPresent with
      | .blockedByStateContinuityBreach => routeThroughApprovalGate libs s i outcome
      | .proceed =>
        ([updatePhase s .applying i.entered], .requeue shortRequeueInterval, .autoApplied)
    | .requireApproval => routeThroughApprovalGate libs s i outcome

/-- `handle_planning` once the plan may be trusted. -/
def judgePlan (hasChanges : Bool) (summary : Option PlanSummary) (drifts : List DriftDetail) :
    PlanningReply :=
  let outcome := i.outcome libs drifts
  let (writes, action, route) := routePlan libs s i hasChanges outcome
  { writes := beginPass s .planning i.begun :: i.planRecord libs s summary drifts :: writes
    action := some action
    verdict := some outcome.aggregate
    route := some route }

def handlePlanning : PlanningReply :=
  let unjudged (writes : List Doc) (action : Option ReconcileAction) : PlanningReply :=
    { writes, action, verdict := none, route := none }
  if !i.configAvailable then
    unjudged [updatePhase s .compiling i.entered] (some (.requeue shortRequeueInterval))
  else match i.plan with
    | none => unjudged [beginPass s .planning i.begun] none
    | some result =>
      let failed (message : String) : PlanningReply :=
        unjudged [beginPass s .planning i.begun, updatePhaseWithError s .failed message i.entered]
          (some (.requeue errorRequeueInterval))
      if !result.success then failed ("plan failed: " ++ result.rawStderr)
      else
        let (summary, drifts) := analysePlan libs.planFromJson result i.bundle
        match (if summary.isSome then i.judgement else none) with
        | some message => failed message
        | none =>
          if readyDriftDecision i.freshness result.hasChanges = .recompileStale then
            unjudged [beginPass s .planning i.begun, updatePhase s .compiling i.entered]
              (some (.requeue shortRequeueInterval))
          else judgePlan libs s i result.hasChanges summary drifts

/-- The reconcile gets as far as the policy engine, with this plan result. -/
structure Judged (result : PlanResult) : Prop where
  config : i.configAvailable = true
  planned : i.plan = some result
  success : result.success = true
  admitted : (analysePlan libs.planFromJson result i.bundle).1.isSome = true → i.judgement = none
  current : readyDriftDecision i.freshness result.hasChanges ≠ .recompileStale

theorem handlePlanning_of_judged {result : PlanResult} (h : Judged libs i result) :
    handlePlanning libs s i = judgePlan libs s i result.hasChanges
      (analysePlan libs.planFromJson result i.bundle).1
      (analysePlan libs.planFromJson result i.bundle).2 := by
  have hj : (if (analysePlan libs.planFromJson result i.bundle).1.isSome then i.judgement
      else none) = none := by
    split
    · next hs => exact h.admitted hs
    · rfl
  simp [handlePlanning, h.config, h.planned, h.success, hj, h.current]

end Handle

/-- A first plan of a template without a policy. -/
def firstPlanning (plan : PlanResult) : PlanningInput where
  configAvailable := true
  freshness := .unknown
  plan := some plan
  bundle := none
  judgement := none
  policies := []
  defaultDecision := none
  catalogReaction := none
  durable := true
  state := .absent
  specApproved := none
  begun := firstObserved
  recordedAt := 0
  entered := firstObserved

/-- Libraries that read no plan, no pattern and no number. -/
def noLibraries : Libraries Empty := ⟨fun _ => none, fun _ => none, noNumber, readEmptyObject⟩

end PangeaOperator
