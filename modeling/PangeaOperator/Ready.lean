import PangeaOperator.Handler
import PangeaOperator.Plan

/-!
# The Ready phase

`handle_ready`: the source and throttle gates, and the drift check behind them. The
check plans, finishes the pass, reads the drift off the plan, judges it against the
status of the snapshot and writes what it found.
-/

namespace PangeaOperator

open Json

inductive FreshnessGate where
  | bounce
  | proceed (freshness : Option Freshness)
  deriving DecidableEq, Repr

def sourceFreshnessGate (gitRepository : Bool) (observed : Freshness) : FreshnessGate :=
  if !gitRepository then .proceed none
  else match observed with
    | .stale _ _ => .bounce
    | verdict => .proceed (some verdict)

/-- What the check takes from outside the status: the plan and the bundle behind it, the policy,
and what each of its writes observes. -/
structure DriftCheck where
  freshness : Option Freshness
  plan : PlanResult
  bundle : Option CycleArtifact
  settlingPolicy : Option SettlingPolicy
  interval : Time
  fresh : Option Status
  begun : Observed
  finished : Observed
  stamped : Time
  settled : Observed
  entered : Observed

/-- The verdict of a check is what its `Settled` condition and its gauge report. -/
structure ReadyReply extends Reply where
  outcome : Option SettlingOutcome

def priorFingerprint (s : Status) : Option String :=
  s.driftFingerprint.or (if s.driftDetails.isEmpty then none else some (fingerprint s.driftDetails))

def settlingFailure (outcome : SettlingOutcome) : String :=
  let reason := match outcome with
    | .stuckByFingerprint _ _ _ => "identical drift fingerprint across cycles"
    | .stuckByCount _ _ => "exceeded max consecutive drift cycles"
    | _ => "stuck"
  let addresses := ", ".intercalate outcome.stuckAddresses
  s!"STATE-SETTLING FAILED — {reason} after {outcome.cycleCount} cycle(s). Stuck resources: {addresses}. Manual investigation required (provider quota, broken provider config, conflicting external automation, or upstream API not converging)."

/-- The phase change and the action a verdict leads to. -/
def settle (s : Status) (outcome : SettlingOutcome) (policy : SettlingPolicy) (interval : Time)
    (o : Observed) : List Doc × ReconcileAction :=
  match actionFor outcome policy with
  | .acceptSettled => ([], .requeue interval)
  | .keepTrying | .alertButContinue =>
    ([updatePhase s .drifted o], .requeue shortRequeueInterval)
  | .escalateToFailed =>
    ([updatePhaseWithError s .failed (settlingFailure outcome) o], .requeue errorRequeueInterval)

section Check

variable (fromJson : String → Option Plan)

def DriftCheck.drifts (c : DriftCheck) : List DriftDetail :=
  if c.plan.hasChanges then driftDetailsFromPlanResult fromJson c.plan c.bundle else []

def DriftCheck.policy (c : DriftCheck) : SettlingPolicy := c.settlingPolicy.getD {}

def DriftCheck.outcome (c : DriftCheck) (s : Status) : SettlingOutcome :=
  evaluateSettling c.policy s.consecutiveDriftCycles (priorFingerprint s) (c.drifts fromJson)

/-- The writes before the verdict: the pass is finished whatever the plan says. -/
def DriftCheck.opening (c : DriftCheck) (s : Status) : List Doc :=
  [beginPass s .planning c.begun, finishSettledPass s (c.fresh.getD s) c.finished] ++
    updateDriftCheckTimestamp s c.stamped

def DriftCheck.settling (c : DriftCheck) (s : Status) : Option Doc :=
  buildSettlingStatusPatch s (c.outcome fromJson s) (c.drifts fromJson) c.freshness c.settled.live
    c.settled.now

/-- `handle_ready` from the pass guard on. -/
def driftCheck (s : Status) (c : DriftCheck) : ReadyReply :=
  let outcome := c.outcome fromJson s
  let (writes, action) := settle s outcome c.policy c.interval c.entered
  { writes := c.opening s ++ (c.settling fromJson s).toList ++ writes
    action := some action
    outcome := some outcome }

end Check

/-- What decides whether a reconcile in Ready reaches its drift check. -/
structure ReadyInput where
  observed : Freshness
  configAvailable : Bool
  driftLane : Option Time
  admitted : Bool
  planned : Bool
  entry : Observed
  check : DriftCheck

/-- The wait before the next plan: the leaf lane's, or the rest of the refresh interval. -/
def planThrottle (s : Status) (i : ReadyInput) : Option Time :=
  if (unhandledRequest s i.entry).isSome then none
  else match i.driftLane with
    | some wait => if wait = 0 then none else some (min wait i.check.interval)
    | none => match s.lastDriftCheckAt with
      | some last => if i.entry.now - last < i.check.interval then some i.check.interval else none
      | none => none

def handleReady (fromJson : String → Option Plan) (s : Status) (i : ReadyInput) : ReadyReply :=
  let recompile : ReadyReply :=
    { writes := [updatePhase s .compiling i.entry]
      action := some (.requeue shortRequeueInterval)
      outcome := none }
  match sourceFreshnessGate i.entry.gitRepository i.observed with
  | .bounce => recompile
  | .proceed freshness =>
    if !i.configAvailable then recompile
    else match planThrottle s i with
      | some wait => { writes := [], action := some (.requeue wait), outcome := none }
      | none =>
        if !i.admitted then
          { writes := []
            action := some (.requeue (min (seconds 300) i.check.interval))
            outcome := none }
        else if !i.planned then
          { writes := [beginPass s .planning i.check.begun], action := none, outcome := none }
        else driftCheck fromJson s { i.check with freshness }

/-- The gates let the reconcile through to its drift check, and the plan ran. -/
structure ReachesCheck (s : Status) (i : ReadyInput) : Prop where
  source : sourceFreshnessGate i.entry.gitRepository i.observed ≠ .bounce
  config : i.configAvailable = true
  throttle : planThrottle s i = none
  admitted : i.admitted = true
  planned : i.planned = true

section Verdict

variable (fromJson : String → Option Plan) (s : Status) (i : ReadyInput)

theorem handleReady_of_reaches (h : ReachesCheck s i) :
    ∃ freshness, handleReady fromJson s i = driftCheck fromJson s { i.check with freshness } := by
  unfold handleReady
  dsimp only
  split
  · next hb => exact absurd hb h.source
  · next freshness _ =>
    refine ⟨freshness, ?_⟩
    simp [h.config, h.throttle, h.admitted, h.planned]

theorem handleReady_outcome_of_not_reaches (h : ¬ReachesCheck s i) :
    (handleReady fromJson s i).outcome = none := by
  unfold handleReady
  dsimp only
  split
  · rfl
  · next freshness hg =>
    split
    · rfl
    · next hc =>
      split
      · rfl
      · next ht =>
        split
        · rfl
        · next ha =>
          split
          · rfl
          · next hp =>
            refine absurd ⟨?_, ?_, ht, ?_, ?_⟩ h
            · simp [hg]
            · simpa using hc
            · simpa using ha
            · simpa using hp

/-- A reconcile that does not reach its check sends nothing, or goes back to Compiling, or only
begins its pass. -/
theorem handleReady_writes_of_not_reaches (h : ¬ReachesCheck s i) :
    (handleReady fromJson s i).writes = [] ∨
      (handleReady fromJson s i).writes = [updatePhase s .compiling i.entry] ∨
      (handleReady fromJson s i).writes = [beginPass s .planning i.check.begun] := by
  unfold handleReady
  dsimp only
  split
  · exact .inr (.inl rfl)
  · next freshness hg =>
    split
    · exact .inr (.inl rfl)
    · next hc =>
      split
      · exact .inl rfl
      · next ht =>
        split
        · exact .inl rfl
        · next ha =>
          split
          · exact .inr (.inr rfl)
          · next hp =>
            refine absurd ⟨?_, ?_, ht, ?_, ?_⟩ h
            · simp [hg]
            · simpa using hc
            · simpa using ha
            · simpa using hp

/-- A reconcile reports Settled when its check saw no drift entry. -/
theorem handleReady_settled_iff :
    (handleReady fromJson s i).outcome = some .settled ↔
      ReachesCheck s i ∧ i.check.drifts fromJson = [] := by
  by_cases h : ReachesCheck s i
  · obtain ⟨freshness, hr⟩ := handleReady_of_reaches fromJson s i h
    rw [hr]
    simp only [driftCheck, Option.some.injEq, h, true_and]
    exact evaluateSettling_eq_settled_iff _ _ _ _
  · rw [handleReady_outcome_of_not_reaches fromJson s i h]
    simp [h]

/-- The pass is finished as settled. -/
def FinishesSettled : Prop :=
  finishSettledPass s (i.check.fresh.getD s) i.check.finished ∈ (handleReady fromJson s i).writes

/-- Settled is claimed on evidence: it is reported, and the pass finished so, only after a plan that
succeeded without changes, and never when the plan failed or its changes left the drift list
empty. -/
structure SettledOnEvidence : Prop where
  reported : (handleReady fromJson s i).outcome = some .settled →
    i.check.plan.success = true ∧ i.check.plan.hasChanges = false
  finished : FinishesSettled fromJson s i →
    i.check.plan.success = true ∧ i.check.plan.hasChanges = false
  never : i.check.plan.success = false ∨
      (i.check.plan.hasChanges = true ∧
        driftDetailsFromPlanResult fromJson i.check.plan i.check.bundle = []) →
    (handleReady fromJson s i).outcome ≠ some .settled ∧ ¬FinishesSettled fromJson s i

/-- Every check that is reached finishes its pass as settled, before it looks at the plan. -/
theorem finishesSettled_iff : FinishesSettled fromJson s i ↔ ReachesCheck s i := by
  constructor
  · intro hf
    by_contra h
    rcases handleReady_writes_of_not_reaches fromJson s i h with hw | hw | hw
    · rw [FinishesSettled, hw] at hf
      cases hf
    · rw [FinishesSettled, hw, List.mem_singleton] at hf
      exact finishSettledPass_ne_updatePhase s _ _ _ _ hf
    · rw [FinishesSettled, hw, List.mem_singleton] at hf
      exact finishSettledPass_ne_beginPass s _ _ _ _ hf
  · intro h
    obtain ⟨freshness, hr⟩ := handleReady_of_reaches fromJson s i h
    simp [FinishesSettled, hr, driftCheck, DriftCheck.opening]

/-- The check claims Settled on evidence exactly when it is not reached, or its plan succeeded
without changes. -/
theorem settled_on_evidence_iff :
    SettledOnEvidence fromJson s i ↔
      (ReachesCheck s i → i.check.plan.success = true ∧ i.check.plan.hasChanges = false) := by
  constructor
  · intro h hr
    exact h.finished ((finishesSettled_iff fromJson s i).mpr hr)
  · intro h
    have hreported (ho : (handleReady fromJson s i).outcome = some .settled) :=
      h ((handleReady_settled_iff fromJson s i).mp ho).1
    have hfinished (hf : FinishesSettled fromJson s i) :=
      h ((finishesSettled_iff fromJson s i).mp hf)
    have hclash (hbad : i.check.plan.success = false ∨ (i.check.plan.hasChanges = true ∧
          driftDetailsFromPlanResult fromJson i.check.plan i.check.bundle = []))
        (hgood : i.check.plan.success = true ∧ i.check.plan.hasChanges = false) : False := by
      rw [hgood.1, hgood.2] at hbad
      simp at hbad
    exact ⟨hreported, hfinished, fun hbad =>
      ⟨fun ho => hclash hbad (hreported ho), fun hf => hclash hbad (hfinished hf)⟩⟩

end Verdict

/-- A first Ready reconcile whose plan ends with exit code 1. -/
def failedPlanInput : ReadyInput where
  observed := .unknown
  configAvailable := true
  driftLane := none
  admitted := true
  planned := true
  entry := firstObserved
  check := {
    freshness := none
    plan := ⟨none, "", false, false, "Error: configuring provider"⟩
    bundle := none
    settlingPolicy := none
    interval := seconds 300
    fresh := none
    begun := firstObserved
    finished := firstObserved
    stamped := 0
    settled := firstObserved
    entered := firstObserved }

/-- A failed plan is reported as Settled. -/
theorem failed_plan_reports_settled :
    ¬SettledOnEvidence (fun _ => none) {} failedPlanInput := by
  intro h
  have hreach : ReachesCheck {} failedPlanInput := ⟨by decide, rfl, rfl, rfl, rfl⟩
  exact (h.never (.inl rfl)).1 ((handleReady_settled_iff _ _ _).mpr ⟨hreach, rfl⟩)

end PangeaOperator
