import PangeaOperator.FlowScheduler
import PangeaOperator.Lib.Worklist

/-!
# The cascade of a failure

`cascade_failure` of the scheduler: the steps that a failed step cancels. A step is marked when it
is taken off the stack, and is put out each time an edge leads to it.
-/

namespace PangeaOperator

open Relation

namespace FlowScheduler

variable (s : FlowScheduler)

/-- The dependents that a step cancels, in their order. -/
def waitingDependents (name : String) : List String :=
  (s.dependents name).filter s.isWaiting

/-- `cascade_failure`, if its loop ends within the fuel: a turn for every dependency of a step,
one for the failed step and one for the empty stack are enough. -/
def cascadeFailure (failedStep : String) : Option (List String) :=
  let points := s.steps.flatMap FlowStep.dependsOn
  let fuel := 2 + (points.map (fun p => (s.waitingDependents p).length)).sum
  Worklist.search s.waitingDependents fuel [failedStep] [] []

/-- The failure of a step cancels the other. -/
def Cancels (name dependent : String) : Prop :=
  FlowOrder.DependsOn s.steps dependent name ∧ s.isWaiting dependent

/-- Each step that the failure reaches, and no other, and none of them twice. -/
def CascadesOnce (failedStep : String) (cancelled : List String) : Prop :=
  cancelled.Nodup ∧ ∀ x, x ∈ cancelled ↔ x ≠ failedStep ∧ TransGen s.Cancels failedStep x

/-- The dependencies of waiting steps. -/
def waitingEdges : List (String × String) :=
  (FlowOrder.edges s.steps).filter (fun e => s.isWaiting e.2)

theorem dependents_eq_targets (name : String) :
    s.dependents name = CountedOrder.targets (FlowOrder.edges s.steps) name := by
  rw [dependents, CountedOrder.targets, FlowOrder.edges, List.filter_flatMap, List.map_flatMap]
  congr 1
  funext step
  rw [List.filter_map, List.map_map]
  rfl

theorem waitingDependents_eq_targets :
    s.waitingDependents = CountedOrder.targets s.waitingEdges := by
  funext name
  rw [waitingDependents, dependents_eq_targets, CountedOrder.targets, CountedOrder.targets,
    List.filter_map, List.filter_filter, waitingEdges, List.filter_filter]
  simp only [Function.comp_def, Bool.and_comm]

theorem mem_waitingDependents_iff {name dependent : String} :
    dependent ∈ s.waitingDependents name ↔ s.Cancels name dependent := by
  rw [waitingDependents_eq_targets, CountedOrder.mem_targets_iff, CountedOrder.Waits,
    waitingEdges, List.mem_filter, Cancels]
  exact and_congr_left fun _ => FlowOrder.waits_edges_iff

theorem mem_points {name : String} (h : s.waitingDependents name ≠ []) :
    name ∈ s.steps.flatMap FlowStep.dependsOn := by
  obtain ⟨dependent, hdependent⟩ := List.exists_mem_of_ne_nil _ h
  obtain ⟨⟨step, hstep, -, hdep⟩, -⟩ := s.mem_waitingDependents_iff.mp hdependent
  exact List.mem_flatMap.mpr ⟨step, hstep, hdep⟩

/-- The cascade ends. It puts out the targets of the edges out of all that the failure reaches,
one for each edge. -/
theorem cascadeFailure_spec (failedStep : String) :
    ∃ order cancelled : List String, s.cascadeFailure failedStep = some cancelled ∧
      (∀ x, x ∈ order ↔ ReflTransGen s.Cancels failedStep x) ∧
      cancelled.Perm ((s.waitingEdges.filter (fun e => e.1 ∈ order)).map Prod.snd) := by
  obtain ⟨order, hnodup, hreached, hsearch⟩ :=
    Worklist.search_spec (fun name => s.mem_points) failedStep
  refine ⟨order, _, hsearch, fun x => ?_, ?_⟩
  · rw [hreached]
    simp only [mem_waitingDependents_iff]
  · rw [waitingDependents_eq_targets]
    exact CountedOrder.flatMap_targets_perm _ hnodup

theorem mem_cancelled_iff {failedStep : String} {order cancelled : List String}
    (hreached : ∀ x, x ∈ order ↔ ReflTransGen s.Cancels failedStep x)
    (hperm : cancelled.Perm ((s.waitingEdges.filter (fun e => e.1 ∈ order)).map Prod.snd))
    (x : String) : x ∈ cancelled ↔ TransGen s.Cancels failedStep x := by
  rw [hperm.mem_iff, List.mem_map, TransGen.tail'_iff]
  constructor
  · rintro ⟨e, he, rfl⟩
    obtain ⟨hedge, hsource⟩ := List.mem_filter.mp he
    refine ⟨e.1, (hreached _).mp (of_decide_eq_true hsource), ?_⟩
    rw [← mem_waitingDependents_iff, waitingDependents_eq_targets, CountedOrder.mem_targets_iff]
    exact hedge
  · rintro ⟨u, hu, hstep⟩
    rw [← mem_waitingDependents_iff, waitingDependents_eq_targets,
      CountedOrder.mem_targets_iff] at hstep
    exact ⟨(u, x), List.mem_filter.mpr ⟨hstep, decide_eq_true ((hreached u).mpr hu)⟩, rfl⟩

/-- The cascade always ends. It names each step once just in case, of the dependencies on steps
that the failure reaches, no two are of one waiting step, and the failed step does not wait for
itself. -/
theorem cascadeFailure_once_iff (failedStep : String) :
    ∃ cancelled, s.cascadeFailure failedStep = some cancelled ∧
      (s.CascadesOnce failedStep cancelled ↔
        (FlowOrder.edges s.steps).Pairwise (fun e f =>
          ReflTransGen s.Cancels failedStep e.1 → ReflTransGen s.Cancels failedStep f.1 →
            s.isWaiting e.2 → e.2 ≠ f.2) ∧
        ¬TransGen s.Cancels failedStep failedStep) := by
  obtain ⟨order, cancelled, hcascade, hreached, hperm⟩ := s.cascadeFailure_spec failedStep
  refine ⟨cancelled, hcascade, and_congr ?_ ?_⟩
  · rw [hperm.nodup_iff, List.Nodup, List.pairwise_map, waitingEdges, List.filter_filter,
      List.pairwise_filter]
    simp only [Bool.and_eq_true, decide_eq_true_eq, hreached]
    constructor
    · intro h
      refine h.imp fun {e f} hef he hf hwaits heq => ?_
      exact hef ⟨he, hwaits⟩ ⟨hf, heq ▸ hwaits⟩ heq
    · intro h
      refine h.imp fun {e f} hef he hf => hef he.1 hf.1 he.2
  · have hmem := s.mem_cancelled_iff hreached hperm
    constructor
    · intro h hself
      exact ((h failedStep).mp ((hmem failedStep).mpr hself)).1 rfl
    · intro hself x
      rw [hmem]
      constructor
      · intro hx
        exact ⟨fun heq => hself (heq ▸ hx), hx⟩
      · exact And.right

end FlowScheduler

section Diamond

/-- Two steps wait for the first, and the last one for both. -/
def diamondFlow : FlowScheduler where
  steps := [⟨"network", [], none, none⟩, ⟨"database", ["network"], none, none⟩,
    ⟨"cache", ["network"], none, none⟩, ⟨"service", ["database", "cache"], none, none⟩]
  statuses := .empty
  parallelism := 5
  depths _ := none
  criticalSet _ := false

theorem diamondFlow_service_twice : ¬∃ cancelled, diamondFlow.cascadeFailure "network" =
    some cancelled ∧ diamondFlow.CascadesOnce "network" cancelled := by
  have hrun : diamondFlow.cascadeFailure "network" =
      some ["database", "cache", "service", "service"] := by decide +kernel
  rintro ⟨cancelled, hcascade, hnodup, -⟩
  rw [hrun, Option.some.injEq] at hcascade
  rw [← hcascade] at hnodup
  revert hnodup
  decide

end Diamond

end PangeaOperator
