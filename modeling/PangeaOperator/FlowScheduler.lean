import PangeaOperator.Crd
import PangeaOperator.FlowOrder

/-!
# The scheduler of a flow

`controller/flow_scheduler.rs`: which steps may start, by the phases that are recorded for them,
and which of them next. The depths and the critical path that the scheduler computes on its graph
of the steps only order the batch, and are parameters.
-/

namespace PangeaOperator

open Json

inductive StepState where
  | pending
  | warmingUp
  | running
  | ready
  | failed
  | cancelled
  deriving DecidableEq, Repr

def StepState.fromPhase : Option String → StepState
  | none => pending
  | some "Ready" => ready
  | some "Failed" => failed
  | some "Cancelled" => cancelled
  | some "WarmingUp" => warmingUp
  | some _ => running

/-- `FlowStepStatus`, with the fields that a reconcile fills in. -/
structure FlowStepStatus where
  phase : Option String
  outputs : Option (SortedMap String Doc)
  templateName : Option String
  dependenciesReady : Bool
  lastError : Option String

/-- A step with its place in the batch. -/
structure ScheduledStep where
  name : String
  priority : Nat
  depth : Nat
  critical : Bool
  deriving DecidableEq, Repr

/-- The scheduler: `parallelism` is a `u32`, `depths` and `criticalSet` come from the graph. -/
structure FlowScheduler where
  steps : List FlowStep
  statuses : SortedMap String FlowStepStatus
  parallelism : Nat
  depths : String → Option Nat
  criticalSet : String → Bool

namespace FlowScheduler

variable (s : FlowScheduler)

def stepState (name : String) : StepState :=
  match (s.statuses.get? name).bind FlowStepStatus.phase with
  | some phase => .fromPhase (some phase)
  | none => .pending

/-- The steps that depend on a step, in the order of the steps and their dependencies. -/
def dependents (name : String) : List String :=
  s.steps.flatMap (fun step => (step.dependsOn.filter (· = name)).map (fun _ => step.name))

def findReadySteps : List FlowStep :=
  s.steps.filter (fun step => s.stepState step.name = .pending &&
    step.dependsOn.all (fun dep => s.stepState dep = .ready))

def runningCount : Nat :=
  s.steps.countP (fun step =>
    s.stepState step.name = .running || s.stepState step.name = .warmingUp) % 2 ^ 32

def schedule (step : FlowStep) : ScheduledStep :=
  let depth := (s.depths step.name).getD 0
  let critical := s.criticalSet step.name
  ⟨step.name, if critical then 0 else (depth % 2 ^ 32 + 1) % 2 ^ 32, depth, critical⟩

/-- The key that the batch is sorted by. -/
def ScheduledStep.before (a b : ScheduledStep) : Bool :=
  a.priority < b.priority || (a.priority = b.priority && a.depth ≤ b.depth)

def nextBatch : List ScheduledStep :=
  if s.parallelism ≤ s.runningCount then []
  else ((s.findReadySteps.map s.schedule).mergeSort ScheduledStep.before).take
    (s.parallelism - s.runningCount)

/-- A failed step cancels what still waits. -/
def isWaiting (name : String) : Bool :=
  s.stepState name = .pending || s.stepState name = .warmingUp

end FlowScheduler

end PangeaOperator
