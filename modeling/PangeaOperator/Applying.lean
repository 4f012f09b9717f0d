import PangeaOperator.Planning

/-!
# The Applying phase

`handle_applying`: the import pre-pass and its recheck, the destroy-protection gates, the
apply with its stale-plan retry, and the phase it ends in. The conflict rounds after a
failed apply and the classification of its output are inputs here.
-/

namespace PangeaOperator

open Json

namespace Applying

/-- The verbs of `template_controller.rs`, which has its own test beside the policy engine's. -/
def isDestructiveAction (action : String) : Bool := action = "delete" || action = "replace"

def findUnimportedCreate (failedImports : List String) (fresh : List DriftDetail) :
    Option DriftDetail :=
  fresh.find? (fun d => d.action = "create" && d.address ∈ failedImports)

/-- The first destructive entry for an address that was not approved as destructive. -/
def findUnapprovedDestructiveEscalation (approved fresh : List DriftDetail) :
    Option DriftDetail :=
  fresh.find? (fun f => isDestructiveAction f.action &&
    !(approved.find? (fun a => a.address = f.address)).any (fun a => isDestructiveAction a.action))

inductive DestroyProtectionGate where
  | proceed
  | blockedByProtectedDestruction (address action : String)
  deriving DecidableEq, Repr

def evaluateDestroyProtectionGate (destroyProtection : Bool) (actions : List DriftDetail) :
    DestroyProtectionGate :=
  if !destroyProtection then .proceed
  else match actions.find? (fun d => isDestructiveAction d.action) with
    | some d => .blockedByProtectedDestruction d.address d.action
    | none => .proceed

end Applying

open Applying

structure ImportPrepass where
  imported : List String := []
  failed : List String := []
  absent : List String := []
  deriving DecidableEq, Repr

namespace ImportPrepass

/-- The failures that do not show the resource to be absent. -/
def blocking (p : ImportPrepass) : List String := p.failed.filter (· ∉ p.absent)

def planMayBeStale (p : ImportPrepass) : Bool := !p.imported.isEmpty || !p.blocking.isEmpty

end ImportPrepass

inductive PlannedAction where
  | noOp
  | create
  | read
  | update
  | replace
  | delete
  deriving DecidableEq, Repr

def PlannedAction.asStr : PlannedAction → String
  | noOp => "noop"
  | create => "create"
  | read => "read"
  | update => "update"
  | replace => "replace"
  | delete => "delete"

structure PlannedChange where
  address : String
  action : PlannedAction
  deriving DecidableEq, Repr

def driftDetailsFromPlannedChanges (changes : List PlannedChange) : List DriftDetail :=
  changes.map (fun c => ⟨c.address, c.action.asStr, "", [], none, none⟩)

/-- The executor's answers while a fresh action set is computed: the persisted plan, whether a new
plan succeeded, the persisted plan after it, and the text of a shown plan. -/
structure ActionSetReads where
  planned : Option (List PlannedChange)
  replanned : Option Bool
  plannedAgain : Option (List PlannedChange)
  shown : Option String
  deriving DecidableEq, Repr

inductive LockDispatch where
  | proceed
  | contended
  deriving DecidableEq, Repr

structure ApplyResult where
  success : Bool
  stdout : String
  stderr : String
  deriving DecidableEq, Repr

/-- What the conflict rounds came to: their bare applies, the message of a destroy-protection
block, and the last result. -/
structure ConflictResolutionOutcome where
  reapplies : Nat
  blocked : Option String
  result : ApplyResult
  deriving DecidableEq, Repr

inductive ApplyAnomaly where
  | providerUnavailable (provider : String)
  | objectExistsUntracked (address action : String)
  | rateLimited
  | transientNetwork
  | stalePlan
  | emptyWorkspace
  | permissionDenied
  | unclassified (reason : String)
  deriving DecidableEq, Repr

/-- What applying takes from outside the status; a missing answer is a call that failed. -/
structure ApplyingInput where
  configAvailable : Bool
  lock : Option LockDispatch
  prepass : ImportPrepass
  planExists : Bool
  recheck : Option PlanResult
  recheckBundle : Option CycleArtifact
  destroyProtection : Bool
  beforeApply : ActionSetReads
  applied : Option ApplyResult
  beforeRetry : ActionSetReads
  retried : Option ApplyResult
  conflicts : Option (Option ConflictResolutionOutcome)
  driver : ApplyAnomaly
  outputs : Option Members
  begun : Observed
  recorded : Observed
  entered : Observed

/-- What an apply was given: the plan file that planning left, the same file after a recheck wrote
a new plan to it, or no plan at all. -/
inductive ApplyCall where
  | cachedPlan
  | recheckedPlan
  | bare
  deriving DecidableEq, Repr

structure ApplyingReply extends Reply where
  applies : List ApplyCall

/-- What became of the recheck after an import. -/
inductive Recheck where
  | error
  | refused (message : String)
  | passed (replanned : Bool)
  deriving DecidableEq, Repr

def unimportedCreateMessage (d : DriftDetail) : String :=
  s!"Applying refused: import failed for {d.address} and the fresh plan still wants to CREATE it. " ++
    "Applying would duplicate the live resource rather than adopt it. Fix the import hint (or the " ++
    "credentials) and re-reconcile. Parking at Failed."

def escalationMessage (d : DriftDetail) : String :=
  s!"Applying refused: post-import refresh discovered a new {d.action} action on {d.address} " ++
    "that was not in the approved plan. Parking at Failed (the FSM's only legal edge out of " ++
    "Applying besides Ready) so the existing self-heal path recomputes a fresh plan for human " ++
    "review — never applying an action nobody approved."

def protectedMessage (address action : String) : String :=
  "Applying refused: destroyProtection is enabled and the plan contains a destructive " ++
    s!"{action} action on {address}. A replace is a delete-then-recreate, so it is blocked under " ++
    "destroy protection (approved or not). Set spec.destroyProtection=false first if this " ++
    "destruction is intended, then re-approve. Parking at Failed."

def bareProtectedMessage (address action : String) : String :=
  "Applying refused: destroyProtection is enabled and a freshly recomputed plan — about to be " ++
    "applied with no pre-approved cached plan (plan_file=None) — contains a destructive " ++
    s!"{action} action on {address}. A replace is a delete-then-recreate, so it is blocked under " ++
    "destroy protection (approved or not). Set spec.destroyProtection=false first if this " ++
    "destruction is intended, then re-approve. Parking at Failed."

def isSelfHealableApplyError (stderr : String) : Bool := containsText "Saved plan is stale" stderr

def combinedOutput (result : ApplyResult) : String :=
  if result.stdout.isEmpty then result.stderr
  else if result.stderr.isEmpty then result.stdout
  else s!"{result.stdout}\n--- stderr ---\n{result.stderr}"

section Handle

variable (fromJson : String → Option Plan) (s : Status) (i : ApplyingInput)

def freshActionSetBeforeBareApply (reads : ActionSetReads) : List DriftDetail :=
  match reads.planned with
  | some changes => driftDetailsFromPlannedChanges changes
  | none =>
    if reads.replanned = some true then
      match reads.plannedAgain, reads.shown with
      | some changes, _ => driftDetailsFromPlannedChanges changes
      | none, some shown => driftDetailsFromTofuShowJson fromJson shown
      | none, none => []
    else []

/-- The gate over the drift list planning recorded. -/
def destroyProtectionRefusal : Option String :=
  match evaluateDestroyProtectionGate i.destroyProtection s.driftDetails with
  | .blockedByProtectedDestruction address action => some (protectedMessage address action)
  | .proceed => none

/-- `recheck_destroy_protection_before_bare_apply`. -/
def recheckDestroyProtectionBeforeBareApply (reads : ActionSetReads) : Option String :=
  if !i.destroyProtection then none
  else match evaluateDestroyProtectionGate true (freshActionSetBeforeBareApply fromJson reads) with
    | .blockedByProtectedDestruction address action => some (bareProtectedMessage address action)
    | .proceed => none

/-- The plan made again where the import pre-pass may have outdated the recorded one. A plan that
fails is passed over. -/
def recheckAfterImport : Recheck :=
  if !i.prepass.planMayBeStale then .passed false
  else match i.recheck with
    | none => .error
    | some recheck =>
      if !recheck.success then .passed false
      else
        let fresh := driftDetailsFromPlanResult fromJson recheck i.recheckBundle
        match findUnimportedCreate i.prepass.blocking fresh with
        | some d => .refused (unimportedCreateMessage d)
        | none => match findUnapprovedDestructiveEscalation s.driftDetails fresh with
          | some d => .refused (escalationMessage d)
          | none => .passed true

def ApplyingInput.hasPlanFile : Bool := i.planExists && i.prepass.imported.isEmpty

/-- `react_to_apply_anomaly`, where it ends the reconcile. -/
def reactToApplyAnomaly (errMsg : String) : Option (Doc × ReconcileAction) :=
  match i.driver with
  | .stalePlan | .emptyWorkspace =>
    some (updatePhase s .pending i.entered, .requeue shortRequeueInterval)
  | .rateLimited | .transientNetwork =>
    let consecutive := saturatingSucc s.failureCount
    some (updatePhaseWithError s .applying errMsg i.entered,
      .requeue (exponentialBackoff consecutive 30 600))
  | .objectExistsUntracked _ _ | .providerUnavailable _ | .permissionDenied | .unclassified _ =>
    none

def applyingReply (applies : List ApplyCall) (writes : List Doc)
    (action : Option ReconcileAction) : ApplyingReply where
  writes := beginPass s .applying i.begun :: writes
  action := action
  applies := applies

def refuseApply (applies : List ApplyCall) (message : String) : ApplyingReply :=
  applyingReply s i applies [updatePhaseWithError s .failed message i.entered]
    (some (.requeue defaultRequeueInterval))

/-- The end of a reconcile whose last apply has this result. -/
def concludeApply (applies : List ApplyCall) (result : ApplyResult) : ApplyingReply :=
  if result.success then
    applyingReply s i applies
      [updateApplyStatus s i.outputs s.compiledRevision i.recorded.live i.recorded.now,
        updatePhase s .ready i.entered]
      (some (.requeue defaultRequeueInterval))
  else
    let errMsg := "apply failed: " ++ combinedOutput result
    match reactToApplyAnomaly s i errMsg with
    | some (write, action) => applyingReply s i applies [write] (some action)
    | none => refuseApply s i applies errMsg

/-- `resolve_conflicts_post_apply` after a failed apply. -/
def resolveConflicts (applies : List ApplyCall) (result : ApplyResult) : ApplyingReply :=
  if result.success then concludeApply s i applies result
  else match i.conflicts with
    | none => applyingReply s i applies [] none
    | some none => concludeApply s i applies result
    | some (some outcome) =>
      let applies := applies ++ List.replicate outcome.reapplies .bare
      match outcome.blocked with
      | some message => refuseApply s i applies message
      | none => concludeApply s i applies outcome.result

/-- The apply itself, with the retry after a stale plan. -/
def applyWith (call : ApplyCall) : ApplyingReply :=
  match i.applied with
  | none => applyingReply s i [call] [] none
  | some result =>
    if !result.success && isSelfHealableApplyError result.stderr then
      match recheckDestroyProtectionBeforeBareApply fromJson i i.beforeRetry with
      | some message => refuseApply s i [call] message
      | none => match i.retried with
        | none => applyingReply s i [call, .bare] [] none
        | some retried => resolveConflicts s i [call, .bare] retried
    else resolveConflicts s i [call] result

/-- From the import pre-pass on, under the state lock. -/
def applyLocked : ApplyingReply :=
  match recheckAfterImport fromJson s i with
  | .error => applyingReply s i [] [] none
  | .refused message => refuseApply s i [] message
  | .passed replanned => match destroyProtectionRefusal s i with
    | some message => refuseApply s i [] message
    | none =>
      if i.hasPlanFile then
        applyWith fromJson s i (if replanned then .recheckedPlan else .cachedPlan)
      else match recheckDestroyProtectionBeforeBareApply fromJson i i.beforeApply with
        | some message => refuseApply s i [] message
        | none => applyWith fromJson s i .bare

def handleApplying : ApplyingReply :=
  if !i.configAvailable then
    applyingReply s i [] [updatePhase s .compiling i.entered] (some (.requeue shortRequeueInterval))
  else match i.lock with
    | none => applyingReply s i [] [] none
    | some .contended => applyingReply s i [] [] (some (.requeue shortRequeueInterval))
    | some .proceed => applyLocked fromJson s i

end Handle

end PangeaOperator
