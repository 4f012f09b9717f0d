import PangeaOperator.Handler
import PangeaOperator.Lib.Prog

/-!
# The image pipeline

The handlers of `controller/image_pipeline_controller.rs`: one reconcile builds an image,
tests it, writes it into a template's variable, waits for the template's plan and its
approval, and verifies or rolls back. A handler is a program over calls to the API server;
it works on the snapshot the reconcile started from, while the template's controller, the
build's and test's controllers and people write to the same objects.
-/

namespace PangeaOperator.ImagePipeline

open Json

/-! ## Objects -/

inductive PipelinePhase where
  | pending
  | building
  | testing
  | planning
  | awaitingApproval
  | applying
  | verifying
  | completed
  | failed
  | rollingBack
  deriving DecidableEq, Repr

def PipelinePhase.name : PipelinePhase → String
  | pending => "Pending"
  | building => "Building"
  | testing => "Testing"
  | planning => "Planning"
  | awaitingApproval => "AwaitingApproval"
  | applying => "Applying"
  | verifying => "Verifying"
  | completed => "Completed"
  | failed => "Failed"
  | rollingBack => "RollingBack"

inductive PackerBuildPhase where
  | pending
  | compiling
  | validating
  | building
  | extracting
  | ready
  | failed
  deriving DecidableEq, Repr

/-- What the pipeline reads of a `PackerBuild`. -/
structure PackerBuildStatus where
  phase : Option PackerBuildPhase
  amiId : Option String
  amiRegion : Option String
  errorMessage : Option String
  deriving DecidableEq, Repr

inductive AmiTestPhase where
  | pending
  | resolving
  | running
  | passed
  | failed
  | cleaning
  deriving DecidableEq, Repr

structure AmiTestStatus where
  phase : Option AmiTestPhase
  suiteSummary : Option String
  deriving DecidableEq, Repr

/-- What the pipeline reads of the template's status. -/
structure TargetStatus where
  phase : Option Phase
  planSummary : Option String
  pendingPlanHash : Option String
  approvedPlanHash : Option String
  resources : Option ResourceSummary
  lastError : Option String
  deriving DecidableEq, Repr

structure Target where
  specVariables : Members
  status : Option TargetStatus
  deriving DecidableEq, Repr

structure PipelineBuildStatus where
  packerBuildRef : String
  amiId : Option String
  amiRegion : Option String
  deriving DecidableEq, Repr

structure PipelineTestStatus where
  amiTestRef : String
  passed : Option Bool
  summary : Option String
  deriving DecidableEq, Repr

structure PipelineDeployStatus where
  planSummary : Option String
  planHash : Option String
  approvedBy : Option String
  previousAmiId : Option String
  deriving DecidableEq, Repr

structure HealthCheckResult where
  name : String
  passed : Bool
  attempts : Nat
  error : Option String
  deriving DecidableEq, Repr

structure PipelineVerificationStatus where
  healthChecks : List HealthCheckResult
  allPassed : Bool
  deriving DecidableEq, Repr

structure ReadyCondition where
  ready : Bool
  reason : String
  message : String
  deriving DecidableEq, Repr

structure PipelineStatus where
  phase : Option PipelinePhase
  build : Option PipelineBuildStatus
  test : Option PipelineTestStatus
  deploy : Option PipelineDeployStatus
  verification : Option PipelineVerificationStatus
  condition : Option ReadyCondition
  deriving DecidableEq, Repr

def PipelineStatus.empty : PipelineStatus := ⟨none, none, none, none, none, none⟩

def PipelineDeployStatus.empty : PipelineDeployStatus := ⟨none, none, none, none⟩

/-! ## The merge patches of a status part -/

/-! A part is written as a JSON merge patch. Serde leaves an absent field out of it, so the
stored one stays. -/

def PipelineBuildStatus.onto (d : PipelineBuildStatus) (stored : Option PipelineBuildStatus) :
    PipelineBuildStatus :=
  { d with
    amiId := d.amiId.or (stored.bind (·.amiId))
    amiRegion := d.amiRegion.or (stored.bind (·.amiRegion)) }

def PipelineTestStatus.onto (d : PipelineTestStatus) (stored : Option PipelineTestStatus) :
    PipelineTestStatus :=
  { d with
    passed := d.passed.or (stored.bind (·.passed))
    summary := d.summary.or (stored.bind (·.summary)) }

def PipelineDeployStatus.onto (d : PipelineDeployStatus) (stored : Option PipelineDeployStatus) :
    PipelineDeployStatus where
  planSummary := d.planSummary.or (stored.bind (·.planSummary))
  planHash := d.planHash.or (stored.bind (·.planHash))
  approvedBy := d.approvedBy.or (stored.bind (·.approvedBy))
  previousAmiId := d.previousAmiId.or (stored.bind (·.previousAmiId))

/-- An empty list of results is left out as well. -/
def PipelineVerificationStatus.onto (d : PipelineVerificationStatus)
    (stored : Option PipelineVerificationStatus) : PipelineVerificationStatus :=
  { d with
    healthChecks :=
      if d.healthChecks.isEmpty then (stored.map (·.healthChecks)).getD [] else d.healthChecks }

/-! ## The spec -/

structure PlanAssertionRule where
  maxDestroyed : Option Nat
  maxAdded : Option Nat
  maxTotalChanged : Option Nat
  deriving DecidableEq, Repr

structure PlanAssertion where
  name : String
  rule : PlanAssertionRule
  deriving DecidableEq, Repr

structure HttpHealthCheck where
  endpoint : String
  expectedStatus : Nat
  deriving DecidableEq, Repr

structure HealthCheckType where
  http : Option HttpHealthCheck
  tcp : Option String
  kubernetes : Bool
  deriving DecidableEq, Repr

structure HealthCheck where
  name : String
  checkType : HealthCheckType
  retries : Nat
  deriving DecidableEq, Repr

inductive RollbackTrigger where
  | healthCheckFailure
  | planAssertionFailure
  | applyFailure
  deriving DecidableEq, Repr

structure RollbackConfig where
  enabled : Bool
  autoRollbackOn : List RollbackTrigger
  deriving DecidableEq, Repr

inductive ApprovalModeKind where
  | auto
  | manual
  | webhook
  deriving DecidableEq, Repr

structure ApprovalMode where
  mode : String
  webhookUrl : Option String
  deriving DecidableEq, Repr

structure PipelineDeploySpec where
  amiVariable : String
  approval : ApprovalMode
  planAssertions : List PlanAssertion
  healthChecks : List HealthCheck
  rollback : Option RollbackConfig
  deriving DecidableEq, Repr

structure Spec where
  name : String
  hasTest : Bool
  deploy : PipelineDeploySpec
  suspend : Bool
  deriving DecidableEq, Repr

inductive PipelineError where
  | kube (text : String)
  | imagePipeline (message : String)
  | assertionFailed (message : String)
  deriving DecidableEq, Repr

def PipelineError.toString : PipelineError → String
  | kube text => "Kubernetes API error: " ++ text
  | imagePipeline message => "Image pipeline error: " ++ message
  | assertionFailed message => "Assertion failed: " ++ message

/-! ## Pure checks -/

section Checks

/-! `debugText` is how Rust's `{:?}` shows a string. -/

variable (debugText : String → String)

def ApprovalMode.kind (a : ApprovalMode) : Except String ApprovalModeKind :=
  match a.mode with
  | "auto" => .ok .auto
  | "manual" => .ok .manual
  | "webhook" => .ok .webhook
  | other => .error ("unrecognized approval.mode " ++ debugText other ++
      "; valid values are \"auto\", \"manual\", \"webhook\"")

def debugOption : Option String → String
  | none => "None"
  | some s => "Some(" ++ debugText s ++ ")"

end Checks

def shouldRollback (spec : Spec) (trigger : RollbackTrigger) : Bool :=
  match spec.deploy.rollback with
  | some rb => rb.enabled && rb.autoRollbackOn.any (· == trigger)
  | none => false

def planHashMatchesReviewed (pending : String) (reviewed : Option String) : Bool :=
  reviewed == some pending

/-- The sum of the three counts is taken in `u32`. -/
def validatePlanAssertion (a : PlanAssertion) (r : ResourceSummary) :
    Except PipelineError Unit := do
  if let some max := a.rule.maxDestroyed then
    if r.destroyed > max then
      .error (.assertionFailed (a.name ++ ": " ++ toString r.destroyed ++
        " resources would be destroyed (max " ++ toString max ++ ")"))
  if let some max := a.rule.maxAdded then
    if r.added > max then
      .error (.assertionFailed (a.name ++ ": " ++ toString r.added ++
        " resources would be added (max " ++ toString max ++ ")"))
  if let some max := a.rule.maxTotalChanged then
    let total := (r.added + r.changed + r.destroyed) % 2 ^ 32
    if total > max then
      .error (.assertionFailed (a.name ++ ": " ++ toString total ++
        " total changes (max " ++ toString max ++ ")"))

/-- Every assertion in turn; without a summary there is nothing to check. -/
def validatePlan (spec : Spec) (status : TargetStatus) : Except PipelineError Unit :=
  match status.resources with
  | some resources => spec.deploy.planAssertions.forM (validatePlanAssertion · resources)
  | none => .ok ()

/-! ## Calls -/

inductive Call where
  | createBuild (name : String)
  | getBuild (name : String)
  | createTest (name : String)
  | getTest (name : String)
  | getTemplate
  | setVariable (ami : String)
  | approvePlan (hash : String)
  | httpGet (endpoint : String)
  | tcpConnect (endpoint : String)
  | writeBuild (d : PipelineBuildStatus)
  | writeTest (d : PipelineTestStatus)
  | writeDeploy (d : PipelineDeployStatus)
  | writeVerification (d : PipelineVerificationStatus)
  | writePhase (phase : PipelinePhase) (message : Option String)
  deriving DecidableEq, Repr

/-- A missing object is a failed `get`; only `get_opt` answers with nothing. -/
abbrev CallReply : Call → Type
  | .getBuild _ => PackerBuildStatus
  | .getTest _ => Option AmiTestStatus
  | .getTemplate => Target
  | .httpGet _ => Nat
  | _ => Unit

abbrev Job (α : Type) := Prog Call CallReply PipelineError α

def perform (c : Call) : Job (CallReply c) := Prog.perform c

def fail {α : Type} (message : String) : Job α := .raise (.imagePipeline message)

def orFail {α : Type} (message : String) : Option α → Job α
  | some a => .ret a
  | none => fail message

def lift {α : Type} : Except PipelineError α → Job α
  | .ok a => .ret a
  | .error e => .raise e

def setPhase (phase : PipelinePhase) (message : Option String) : Job Unit :=
  perform (.writePhase phase message)

/-! ## Handlers -/

def handlePending (spec : Spec) : Job ReconcileAction := do
  let buildName := spec.name ++ "-build"
  perform (.createBuild buildName)
  perform (.writeBuild ⟨buildName, none, none⟩)
  setPhase .building none
  pure (.requeue shortRequeueInterval)

def handleBuilding (spec : Spec) (snapshot : PipelineStatus) : Job ReconcileAction := do
  let buildRef ← orFail "No build ref in status" (snapshot.build.map (·.packerBuildRef))
  let pb ← perform (.getBuild buildRef)
  match pb.phase.getD .pending with
  | .ready => do
    let ami ← orFail "PackerBuild Ready but no AMI ID" pb.amiId
    perform (.writeBuild ⟨buildRef, some ami, pb.amiRegion⟩)
    setPhase (if spec.hasTest then .testing else .planning) none
    pure (.requeue shortRequeueInterval)
  | .failed => fail (pb.errorMessage.getD "PackerBuild failed")
  | _ => pure (.requeue shortRequeueInterval)

def handleTesting (spec : Spec) : Job ReconcileAction :=
  if spec.hasTest then do
    let testName := spec.name ++ "-test"
    match ← perform (.getTest testName) with
    | none => do
      perform (.createTest testName)
      perform (.writeTest ⟨testName, none, none⟩)
      pure (.requeue shortRequeueInterval)
    | some at_ =>
      match at_.phase.getD .pending with
      | .passed => do
        perform (.writeTest ⟨testName, some true, at_.suiteSummary⟩)
        setPhase .planning none
        pure (.requeue shortRequeueInterval)
      | .failed | .cleaning => fail "AMI test suites failed"
      | _ => pure (.requeue shortRequeueInterval)
  else fail "No test spec but in Testing phase"

/-- The value of the variable, where it is a string. -/
def Target.ami (t : Target) (name : String) : Option String :=
  match lookup name t.specVariables with
  | some (.str s) => some s
  | _ => none

/-- The template has a plan that waits. Its summary and hash go to the deploy status as the
snapshot has it. -/
def recordPlan (debugText : String → String) (spec : Spec) (snapshot : PipelineStatus)
    (status : TargetStatus) (hash : String) : Job ReconcileAction := do
  lift (validatePlan spec status)
  perform (.writeDeploy { snapshot.deploy.getD .empty with
    planSummary := status.planSummary
    planHash := some hash })
  match spec.deploy.approval.kind debugText with
  | .ok .auto => setPhase .applying none
  | .ok .manual => setPhase .awaitingApproval none
  | .ok .webhook => fail ("approval.mode \"webhook\" is declared but not implemented yet " ++
      "(no code path dispatches webhookUrl=" ++
      debugOption debugText spec.deploy.approval.webhookUrl ++
      "); set approval.mode to \"auto\" or \"manual\"")
  | .error message => fail message
  pure (.requeue shortRequeueInterval)

def handlePlanning (debugText : String → String) (spec : Spec) (snapshot : PipelineStatus) :
    Job ReconcileAction := do
  let ami ← orFail "No AMI ID available for deploy" (snapshot.build.bind (·.amiId))
  let before ← perform .getTemplate
  perform (.setVariable ami)
  perform (.writeDeploy
    { PipelineDeployStatus.empty with previousAmiId := before.ami spec.deploy.amiVariable })
  let template ← perform .getTemplate
  match template.status with
  | none => pure (.requeue shortRequeueInterval)
  | some status =>
    match status.pendingPlanHash with
    | some hash => recordPlan debugText spec snapshot status hash
    | none => pure (.requeue shortRequeueInterval)

def handleAwaitingApproval (snapshot : PipelineStatus) : Job ReconcileAction :=
  if (snapshot.deploy.bind (·.approvedBy)).isSome then do
    setPhase .applying none
    pure (.requeue shortRequeueInterval)
  else pure (.requeue (seconds 15))

/-- The template waits for an approval of its pending plan. -/
def approveReviewed (snapshot : PipelineStatus) (status : TargetStatus) (pending : String) :
    Job ReconcileAction := do
  if status.approvedPlanHash = some pending then pure (.requeue shortRequeueInterval)
  else if planHashMatchesReviewed pending (snapshot.deploy.bind (·.planHash)) then do
    perform (.approvePlan pending)
    pure (.requeue shortRequeueInterval)
  else do
    setPhase .planning none
    pure (.requeue shortRequeueInterval)

def handleApplying (spec : Spec) (snapshot : PipelineStatus) : Job ReconcileAction := do
  let template ← perform .getTemplate
  match (template.status.bind (·.phase)).getD .pending with
  | .ready => do
    setPhase (if spec.deploy.healthChecks.isEmpty then .completed else .verifying) none
    pure (.requeue shortRequeueInterval)
  | .failed =>
    if shouldRollback spec .applyFailure then do
      setPhase .rollingBack none
      pure (.requeue shortRequeueInterval)
    else fail ((template.status.bind (·.lastError)).getD "Template apply failed")
  | .planning =>
    match template.status with
    | none => pure (.requeue shortRequeueInterval)
    | some status =>
      match status.pendingPlanHash with
      | none => pure (.requeue shortRequeueInterval)
      | some pending => approveReviewed snapshot status pending
  | _ => pure (.requeue shortRequeueInterval)

/-- One attempt; a check of the cluster itself passes unasked. -/
def probe (check : HealthCheckType) : Job Bool :=
  match check.http, check.tcp with
  | some http, _ => do
    let status ← perform (.httpGet http.endpoint)
    pure (status == http.expectedStatus)
  | none, some endpoint => do
    perform (.tcpConnect endpoint)
    pure true
  | none, none => pure check.kubernetes

/-- Attempts from `attempt` on, as many as are left. -/
def attempts (check : HealthCheck) : Nat → Nat → Job HealthCheckResult
  | 0, _ => pure ⟨check.name, false, check.retries,
      some ("Failed after " ++ toString check.retries ++ " attempts")⟩
  | left + 1, attempt => do
    let passed ← (probe check.checkType).rescue (fun _ => pure false)
    if passed then pure ⟨check.name, true, attempt, none⟩ else attempts check left (attempt + 1)

def runHealthCheck (check : HealthCheck) : Job HealthCheckResult := attempts check check.retries 1

def runHealthChecks : List HealthCheck → Job (List HealthCheckResult)
  | [] => pure []
  | check :: checks => do
    let result ← runHealthCheck check
    let results ← runHealthChecks checks
    pure (result :: results)

def handleVerifying (spec : Spec) : Job ReconcileAction := do
  let results ← runHealthChecks spec.deploy.healthChecks
  let allPassed := results.all (·.passed)
  perform (.writeVerification ⟨results, allPassed⟩)
  if allPassed then setPhase .completed none
  else if shouldRollback spec .healthCheckFailure then setPhase .rollingBack none
  else setPhase .failed (some "Health checks failed")
  pure (.requeue shortRequeueInterval)

def handleRollingBack (snapshot : PipelineStatus) : Job ReconcileAction := do
  let previous ← orFail "No previous AMI ID for rollback" (snapshot.deploy.bind (·.previousAmiId))
  perform (.setVariable previous)
  setPhase .failed (some ("Rolled back to previous AMI: " ++ previous))
  pure (.requeue defaultRequeueInterval)

def handlePhase (debugText : String → String) (spec : Spec) (snapshot : PipelineStatus) :
    PipelinePhase → Job ReconcileAction
  | .pending => handlePending spec
  | .building => handleBuilding spec snapshot
  | .testing => handleTesting spec
  | .planning => handlePlanning debugText spec snapshot
  | .awaitingApproval => handleAwaitingApproval snapshot
  | .applying => handleApplying spec snapshot
  | .verifying => handleVerifying spec
  | .completed => pure (.requeue defaultRequeueInterval)
  | .failed => pure (.requeue defaultRequeueInterval)
  | .rollingBack => handleRollingBack snapshot

/-- A handler's error fails the pipeline; the error of that write is dropped. -/
def reconcileImagePipeline (debugText : String → String) (spec : Spec)
    (snapshot : PipelineStatus) : Job ReconcileAction :=
  if spec.suspend then pure (.requeue defaultRequeueInterval)
  else (handlePhase debugText spec snapshot (snapshot.phase.getD .pending)).rescue (fun e =>
    ((setPhase .failed (some e.toString)).rescue (fun _ => pure ())).bind
      (fun _ => pure (.requeue errorRequeueInterval)))

end PangeaOperator.ImagePipeline
