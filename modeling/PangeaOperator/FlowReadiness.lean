import PangeaOperator.FlowStatuses

/-!
# What the scheduler makes of the statuses

The scheduler reads the phases that a pass has recorded. A step without a template is recorded
as `Pending`, which the scheduler takes for a step in progress: it does not start it, and keeps a
slot for it.
-/

namespace PangeaOperator

open Json Relation FlowOrder

namespace FlowPass

section States

variable (pass : FlowPass)

/-- The state of a step, by the template that the pass has found or created. -/
def state (name : String) : StepState :=
  match pass.phases.get? name with
  | some phase => .fromPhase (some phase.name)
  | none => .pending

def started (name : String) : Bool := (pass.phases.get? name).isSome

def inProgress (name : String) : Bool :=
  pass.state name = .running || pass.state name = .warmingUp

/-- Not started, and all that it depends on is ready. -/
def startable (step : FlowStep) : Bool :=
  !pass.started step.name && step.dependsOn.all (fun dep => pass.state dep = .ready)

/-- Without a template, but recorded as `Pending`. -/
def heldBack (name : String) : Bool :=
  !pass.started name && pass.recordedPhase name = some "Pending"

/-- The scheduler on the statuses of the pass. -/
def scheduler (steps : List FlowStep) (parallelism : Nat) (depths : String → Option Nat)
    (criticalSet : String → Bool) : FlowScheduler where
  steps
  statuses := pass.stepStatuses
  parallelism
  depths
  criticalSet

variable {pass} {name : String}

theorem fromPhase_name_ne_pending (phase : Phase) :
    StepState.fromPhase (some phase.name) ≠ .pending := by
  cases phase <;> decide

theorem state_eq_pending_iff : pass.state name = .pending ↔ pass.started name = false := by
  rw [state, started]
  cases pass.phases.get? name with
  | none => simp
  | some phase => simpa using fromPhase_name_ne_pending phase

theorem state_of_heldBack (h : pass.heldBack name = true) : pass.state name = .pending := by
  rw [state_eq_pending_iff]
  simp only [heldBack, Bool.and_eq_true, Bool.not_eq_true'] at h
  exact h.1

/-- The scheduler reads the state of each step, but for those that are held back. -/
theorem stepState_scheduler (h : Records pass) (steps : List FlowStep) (parallelism : Nat)
    (depths : String → Option Nat) (criticalSet : String → Bool) (name : String) :
    (pass.scheduler steps parallelism depths criticalSet).stepState name =
      if pass.heldBack name then .running else pass.state name := by
  have hread : (pass.scheduler steps parallelism depths criticalSet).stepState name =
      .fromPhase (pass.recordedPhase name) := by
    rw [FlowScheduler.stepState, recordedPhase, scheduler]
    cases (pass.stepStatuses.get? name).bind FlowStepStatus.phase <;> rfl
  rw [hread, heldBack, started, state]
  cases hphase : pass.phases.get? name with
  | some phase => simp [h.known name phase hphase]
  | none =>
    rcases h.unknown name hphase with hnone | hpending
    · simp [hnone, StepState.fromPhase]
    · rw [hpending]
      simp only [Option.isSome_none, Bool.not_false, decide_true, Bool.and_self, if_true]
      decide

end States

section Batch

variable {s : FlowScheduler}

theorem nextBatch_eq (s : FlowScheduler) : s.nextBatch =
    ((s.findReadySteps.map s.schedule).mergeSort FlowScheduler.ScheduledStep.before).take
      (s.parallelism - s.runningCount) := by
  rw [FlowScheduler.nextBatch]
  split
  · next hle =>
    rw [Nat.sub_eq_zero_of_le hle, List.take_zero]
  · rfl

theorem length_nextBatch (s : FlowScheduler) :
    s.nextBatch.length = min (s.parallelism - s.runningCount) s.findReadySteps.length := by
  rw [nextBatch_eq, List.length_take, List.length_mergeSort, List.length_map]

/-- The names of a batch are among those of the ready steps, none more often than there. -/
theorem subperm_nextBatch (s : FlowScheduler) :
    (s.nextBatch.map ScheduledStep.name).Subperm (s.findReadySteps.map FlowStep.name) := by
  have hnames : s.findReadySteps.map FlowStep.name =
      (s.findReadySteps.map s.schedule).map ScheduledStep.name := by
    rw [List.map_map]
    rfl
  rw [nextBatch_eq, hnames]
  refine ((List.take_sublist _ _).map _).subperm.trans ?_
  exact ((List.mergeSort_perm _ _).map _).subperm

end Batch

section Readiness

variable (pass : FlowPass) (steps : List FlowStep)

def runningSteps : Nat := steps.countP (fun step => pass.inProgress step.name)

def heldBackSteps : Nat := steps.countP (fun step => pass.heldBack step.name)

def startableSteps : Nat := steps.countP pass.startable

/-- A step that failed or was cancelled stands behind the dependencies. -/
def Blocked (name : String) : Prop :=
  ∃ dep, TransGen (DependsOn steps) name dep ∧
    (pass.state dep = .failed ∨ pass.state dep = .cancelled)

/-- The scheduler starts what the controller has not started and could. -/
structure Agrees (s : FlowScheduler) : Prop where
  ready : s.findReadySteps = steps.filter pass.startable
  distinct : (s.nextBatch.map ScheduledStep.name).Nodup
  due : ∀ b ∈ s.nextBatch, ∃ step ∈ steps, step.name = b.name ∧ pass.startable step = true
  bounded : pass.runningSteps steps + s.nextBatch.length ≤ s.parallelism
  filled : pass.runningSteps steps + s.nextBatch.length < s.parallelism →
    ∀ step ∈ steps, pass.startable step = true → step.name ∈ s.nextBatch.map ScheduledStep.name
  progress : pass.runningSteps steps = 0 → (∃ step ∈ steps, pass.started step.name = false) →
    s.nextBatch = [] → ∀ step ∈ steps, pass.started step.name = false →
      pass.Blocked steps step.name

/-- The condition on the statuses and the parallelism under which they agree. -/
structure SlotsFree (parallelism : Nat) : Prop where
  startable : ∀ step ∈ steps, pass.startable step = true → pass.heldBack step.name = false
  running : pass.runningSteps steps ≤ parallelism
  slots : parallelism - (pass.runningSteps steps + pass.heldBackSteps steps) % 2 ^ 32 =
      parallelism - pass.runningSteps steps ∨
    pass.startableSteps steps ≤
        parallelism - (pass.runningSteps steps + pass.heldBackSteps steps) % 2 ^ 32 ∧
      pass.startableSteps steps ≤ parallelism - pass.runningSteps steps
  closed : parallelism = 0 → pass.runningSteps steps = 0 →
    ∀ step ∈ steps, pass.started step.name = false → pass.Blocked steps step.name

variable {pass steps} {parallelism : Nat} {depths : String → Option Nat}
  {criticalSet : String → Bool}

theorem findReadySteps_scheduler (h : Records pass) :
    (pass.scheduler steps parallelism depths criticalSet).findReadySteps =
      steps.filter (fun step => pass.startable step && !pass.heldBack step.name) := by
  refine List.filter_congr fun step _ => ?_
  have hready (dep : String) :
      (pass.scheduler steps parallelism depths criticalSet).stepState dep = .ready ↔
        pass.state dep = .ready := by
    rw [stepState_scheduler h]
    split
    · next hheld => simp [state_of_heldBack hheld]
    · exact Iff.rfl
  have hpending : (pass.scheduler steps parallelism depths criticalSet).stepState step.name =
      .pending ↔ pass.started step.name = false ∧ pass.heldBack step.name = false := by
    rw [stepState_scheduler h, ← state_eq_pending_iff]
    cases pass.heldBack step.name <;> simp
  simp only [hready, hpending, startable, Bool.decide_and]
  cases pass.started step.name <;> cases pass.heldBack step.name <;> simp

theorem runningCount_scheduler (h : Records pass) :
    (pass.scheduler steps parallelism depths criticalSet).runningCount =
      (pass.runningSteps steps + pass.heldBackSteps steps) % 2 ^ 32 := by
  rw [FlowScheduler.runningCount]
  congr 1
  have hcount (rest : List FlowStep) : rest.countP (fun step =>
      (pass.scheduler steps parallelism depths criticalSet).stepState step.name = .running ||
        (pass.scheduler steps parallelism depths criticalSet).stepState step.name = .warmingUp) =
      pass.runningSteps rest + pass.heldBackSteps rest := by
    induction rest with
    | nil => rfl
    | cons step rest ih =>
      rw [List.countP_cons, ih, stepState_scheduler h, runningSteps, runningSteps, heldBackSteps,
        heldBackSteps, List.countP_cons, List.countP_cons]
      cases hheld : pass.heldBack step.name with
      | true =>
        simp [inProgress, state_of_heldBack hheld]
        omega
      | false =>
        simp [inProgress]
        omega
  exact hcount steps

/-- Where nothing is in progress and nothing can be started, a step that has not been started
waits for one that failed: the induction is on the order of the steps. -/
theorem blocked_of_idle {order : List String} (hsortable : Sortable steps)
    (hsorts : Sorts steps order) (hidle : pass.runningSteps steps = 0)
    (hnone : ∀ step ∈ steps, pass.startable step = false) :
    ∀ step ∈ steps, pass.started step.name = false → pass.Blocked steps step.name := by
  have hstate (name : String) (hname : name ∈ steps.map FlowStep.name) :
      pass.inProgress name = false := by
    obtain ⟨step, hstep, rfl⟩ := List.mem_map.mp hname
    simpa using List.countP_eq_zero.mp hidle step hstep
  have hfront (before after : List String) (horder : order = before ++ after) :
      ∀ step ∈ steps, step.name ∈ before → pass.started step.name = false →
        pass.Blocked steps step.name := by
    induction before using List.reverseRecOn generalizing after with
    | nil =>
      intro step _ hmem
      cases hmem
    | append_singleton before name ih =>
      rw [List.append_assoc, List.singleton_append] at horder
      intro step hstep hmem hstarted
      rcases List.mem_append.mp hmem with hmem | hmem
      · exact ih (name :: after) horder step hstep hmem hstarted
      · obtain rfl := List.mem_singleton.mp hmem
        have hwaits := hnone step hstep
        rw [startable, hstarted, Bool.not_false, Bool.true_and, List.all_eq_false] at hwaits
        obtain ⟨dep, hdep, hnotReady⟩ := hwaits
        have hedge : DependsOn steps step.name dep := ⟨step, hstep, rfl, hdep⟩
        have hknown := hsortable.known step hstep dep hdep
        have hprogress := hstate dep hknown
        cases hdepState : pass.state dep with
        | ready => exact absurd (decide_eq_true hdepState) hnotReady
        | failed => exact ⟨dep, .single hedge, .inl hdepState⟩
        | cancelled => exact ⟨dep, .single hedge, .inr hdepState⟩
        | running => simp [inProgress, hdepState] at hprogress
        | warmingUp => simp [inProgress, hdepState] at hprogress
        | pending =>
          obtain ⟨other, hother, rfl⟩ := List.mem_map.mp hknown
          have hbefore := hsorts.follows before step.name after horder other.name hedge
          obtain ⟨far, hfar, hfailed⟩ := ih (step.name :: after) horder other hother hbefore
            (state_eq_pending_iff.mp hdepState)
          exact ⟨far, .head hedge hfar, hfailed⟩
  intro step hstep
  refine hfront order [] (List.append_nil order).symm step hstep ?_
  exact hsorts.perm.mem_iff.mpr (List.mem_map_of_mem hstep)

theorem length_startable : (steps.filter pass.startable).length = pass.startableSteps steps :=
  List.countP_eq_length_filter.symm

theorem nodup_startable (hsortable : Sortable steps) :
    ((steps.filter pass.startable).map FlowStep.name).Nodup :=
  hsortable.distinct.sublist (List.filter_sublist.map FlowStep.name)

theorem ready_iff (h : Records pass) :
    (pass.scheduler steps parallelism depths criticalSet).findReadySteps =
        steps.filter pass.startable ↔
      ∀ step ∈ steps, pass.startable step = true → pass.heldBack step.name = false := by
  rw [findReadySteps_scheduler h]
  constructor
  · intro hready step hstep hstartable
    have hmem : step ∈ steps.filter pass.startable := List.mem_filter.mpr ⟨hstep, hstartable⟩
    rw [← hready, List.mem_filter] at hmem
    simpa [hstartable] using hmem.2
  · intro hfree
    apply List.filter_congr
    intro step hstep
    cases hstartable : pass.startable step with
    | true => simp [hfree step hstep hstartable]
    | false => rfl

section Ready

variable (hready : (pass.scheduler steps parallelism depths criticalSet).findReadySteps =
  steps.filter pass.startable)
include hready

theorem length_nextBatch_scheduler (h : Records pass) :
    (pass.scheduler steps parallelism depths criticalSet).nextBatch.length =
      min (parallelism - (pass.runningSteps steps + pass.heldBackSteps steps) % 2 ^ 32)
        (pass.startableSteps steps) := by
  rw [length_nextBatch, runningCount_scheduler h, hready, length_startable]
  rfl

theorem subperm_nextBatch_scheduler :
    ((pass.scheduler steps parallelism depths criticalSet).nextBatch.map
      ScheduledStep.name).Subperm ((steps.filter pass.startable).map FlowStep.name) := by
  rw [← hready]
  exact subperm_nextBatch _

/-- A batch holds what can be started just in case it is long enough. -/
theorem filled_iff (hsortable : Sortable steps) :
    (∀ step ∈ steps, pass.startable step = true → step.name ∈
        (pass.scheduler steps parallelism depths criticalSet).nextBatch.map ScheduledStep.name) ↔
      pass.startableSteps steps ≤
        (pass.scheduler steps parallelism depths criticalSet).nextBatch.length := by
  constructor
  · intro hfilled
    have hsub := (nodup_startable hsortable).subperm fun name hname => by
      obtain ⟨step, hstep, rfl⟩ := List.mem_map.mp hname
      obtain ⟨hmem, hstartable⟩ := List.mem_filter.mp hstep
      exact hfilled step hmem hstartable
    have hle := hsub.length_le
    rwa [List.length_map, List.length_map, length_startable] at hle
  · intro hle step hstep hstartable
    have hperm := (subperm_nextBatch_scheduler hready).perm_of_length_le (by
      rw [List.length_map, List.length_map, length_startable]
      exact hle)
    rw [hperm.mem_iff]
    exact List.mem_map_of_mem (List.mem_filter.mpr ⟨hstep, hstartable⟩)

end Ready

theorem slotsFree_of_agrees (h : Records pass) (hsortable : Sortable steps)
    (hagrees : pass.Agrees steps (pass.scheduler steps parallelism depths criticalSet)) :
    pass.SlotsFree steps parallelism := by
  have hlength := length_nextBatch_scheduler hagrees.ready h
  have hbounded := hagrees.bounded
  have hpar : (pass.scheduler steps parallelism depths criticalSet).parallelism = parallelism := rfl
  have hfilled (hlt : pass.runningSteps steps +
      (pass.scheduler steps parallelism depths criticalSet).nextBatch.length < parallelism) :=
    (filled_iff hagrees.ready hsortable).mp (hagrees.filled hlt)
  rw [hpar] at hbounded
  refine ⟨(ready_iff h).mp hagrees.ready, by omega, by omega, ?_⟩
  intro hzero hidle step hstep hstarted
  have hempty : (pass.scheduler steps parallelism depths criticalSet).nextBatch = [] := by
    rw [← List.length_eq_zero_iff, hlength, hzero, Nat.zero_sub, Nat.zero_min]
  exact hagrees.progress hidle ⟨step, hstep, hstarted⟩ hempty step hstep hstarted

theorem agrees_of_slotsFree {order : List String} (h : Records pass) (hsortable : Sortable steps)
    (hsorts : Sorts steps order) (hfree : pass.SlotsFree steps parallelism) :
    pass.Agrees steps (pass.scheduler steps parallelism depths criticalSet) := by
  have hready : (pass.scheduler steps parallelism depths criticalSet).findReadySteps =
      steps.filter pass.startable := (ready_iff h).mpr hfree.startable
  have hsubperm := subperm_nextBatch_scheduler hready
  have hlength := length_nextBatch_scheduler hready h
  have hpar : (pass.scheduler steps parallelism depths criticalSet).parallelism = parallelism := rfl
  have hrunning := hfree.running
  have hslots := hfree.slots
  refine ⟨hready, ?_, fun b hb => ?_, ?_, ?_, ?_⟩
  · obtain ⟨names, hperm, hsub⟩ := hsubperm
    exact hperm.nodup_iff.mp ((nodup_startable hsortable).sublist hsub)
  · obtain ⟨step, hstep, hsame⟩ := List.mem_map.mp (hsubperm.subset (List.mem_map_of_mem hb))
    obtain ⟨hmem, hstartable⟩ := List.mem_filter.mp hstep
    exact ⟨step, hmem, hsame, hstartable⟩
  · rw [hpar]
    omega
  · intro hlt
    rw [hpar] at hlt
    apply (filled_iff hready hsortable).mpr
    omega
  · intro hidle _ hempty
    rw [hempty, List.length_nil] at hlength
    by_cases hzero : parallelism = 0
    · exact hfree.closed hzero hidle
    · refine blocked_of_idle hsortable hsorts hidle fun step hstep => ?_
      have hcount : pass.startableSteps steps = 0 := by omega
      simpa using List.countP_eq_zero.mp hcount step hstep

theorem agrees_iff_slotsFree {order : List String} (h : Records pass) (hsortable : Sortable steps)
    (hsorts : Sorts steps order) :
    pass.Agrees steps (pass.scheduler steps parallelism depths criticalSet) ↔
      pass.SlotsFree steps parallelism :=
  ⟨slotsFree_of_agrees h hsortable, agrees_of_slotsFree h hsortable hsorts⟩

end Readiness

end FlowPass

section Flow

open FlowPass

/-- A flow whose steps can be sorted gets statuses from a pass, whatever the cluster answers. The
scheduler agrees with the controller on them just in case no step that could start is held back,
and the slots are as many as there seem to be, or enough. -/
theorem reconcileSteps_agrees_iff (valueText : Doc → String) (cluster : StepCluster)
    (flowName : Option String) (steps : List FlowStep)
    (hdistinct : (steps.map FlowStep.name).Nodup)
    (hknown : ∀ step ∈ steps, ∀ dep ∈ step.dependsOn, dep ∈ steps.map FlowStep.name)
    (hacyclic : ¬∃ name, TransGen (DependsOn steps) name name) :
    ∃ pass, reconcileSteps valueText cluster flowName steps = .ok (.ok pass) ∧
      ∀ parallelism depths criticalSet,
        pass.Agrees steps (pass.scheduler steps parallelism depths criticalSet) ↔
          pass.SlotsFree steps parallelism := by
  have hsortable : Sortable steps := ⟨hdistinct, hknown, hacyclic⟩
  obtain ⟨order, pass, hpass, hrecords, hsorts⟩ := reconcileSteps_records hsortable
  exact ⟨pass, hpass, fun _ _ _ => agrees_iff_slotsFree hrecords hsortable hsorts⟩

def inlineStep (name : String) (dependsOn : List String) : FlowStep where
  name
  dependsOn
  variables' := none
  source := some (.obj [("inline", .str name)])

/-- A network that is ready, and a database behind it. -/
def networkSteps : List FlowStep := [inlineStep "network" [], inlineStep "database" ["network"]]

def networkCluster : StepCluster where
  getOpt name := .ok (if name = "shop-network" then some ⟨some .ready, none, none⟩ else none)
  create _ _ _ := true

theorem networkSteps_acyclic : ¬∃ name, TransGen (DependsOn networkSteps) name name := by
  have hends (name dep : String) (h : DependsOn networkSteps name dep) :
      name = "database" ∧ dep = "network" := by
    obtain ⟨step, hstep, rfl, hdep⟩ := h
    simp only [networkSteps, List.mem_cons, List.not_mem_nil, or_false] at hstep
    rcases hstep with rfl | rfl
    · cases hdep
    · exact ⟨rfl, List.mem_singleton.mp hdep⟩
  rintro ⟨name, hcycle⟩
  obtain ⟨_, hfirst, -⟩ := TransGen.head'_iff.mp hcycle
  obtain ⟨_, -, hlast⟩ := TransGen.tail'_iff.mp hcycle
  have hsame := (hends _ _ hfirst).1.symm.trans (hends _ _ hlast).2
  revert hsame
  decide

/-- The pass has started the database; the scheduler agrees with it. -/
theorem networkSteps_agrees : ∃ pass,
    reconcileSteps (fun _ => "") networkCluster (some "shop") networkSteps = .ok (.ok pass) ∧
      ∀ depths criticalSet,
        pass.Agrees networkSteps (pass.scheduler networkSteps 2 depths criticalSet) := by
  obtain ⟨pass, hpass, hiff⟩ := reconcileSteps_agrees_iff (fun _ => "") networkCluster
    (some "shop") networkSteps (by decide) (by decide) networkSteps_acyclic
  have hcounts : ((reconcileSteps (fun _ => "") networkCluster (some "shop")
      networkSteps).toOption.bind Except.toOption).map (fun pass =>
        (networkSteps.any pass.startable, pass.runningSteps networkSteps,
          pass.heldBackSteps networkSteps)) = some (false, 1, 0) := by decide +kernel
  rw [hpass] at hcounts
  obtain ⟨hstartable, hrunning, hheld⟩ : networkSteps.any pass.startable = false ∧
      pass.runningSteps networkSteps = 1 ∧ pass.heldBackSteps networkSteps = 0 := by
    simpa [Except.toOption] using hcounts
  refine ⟨pass, hpass, fun depths criticalSet => (hiff 2 depths criticalSet).mpr ?_⟩
  refine ⟨fun step hstep hstart => ?_, by omega, .inl (by rw [hrunning, hheld]; rfl),
    fun hzero => absurd hzero (by decide)⟩
  exact absurd hstart (List.any_eq_false.mp hstartable step hstep)

/-- The cluster has no template, and refuses the one that is due. -/
def refusingCluster : StepCluster where
  getOpt _ := .ok none
  create _ _ _ := false

def loneStep : List FlowStep := [inlineStep "network" []]

/-- The refused step is due, a slot is free, and yet the scheduler never offers it. -/
theorem refusedStep_never_offered : ¬∃ pass,
    reconcileSteps (fun _ => "") refusingCluster (some "shop") loneStep = .ok (.ok pass) ∧
      pass.Agrees loneStep (pass.scheduler loneStep 1 (fun _ => none) (fun _ => false)) := by
  rintro ⟨pass, hpass, hagrees⟩
  have hoffered : ((reconcileSteps (fun _ => "") refusingCluster (some "shop")
      loneStep).toOption.bind Except.toOption).map (fun pass =>
        ((pass.scheduler loneStep 1 (fun _ => none) (fun _ => false)).findReadySteps.map
            FlowStep.name,
          (loneStep.filter pass.startable).map FlowStep.name)) =
      some ([], ["network"]) := by decide +kernel
  rw [hpass] at hoffered
  simp only [Except.toOption, Option.bind_some, Option.map_some, hagrees.ready, Option.some.injEq,
    Prod.mk.injEq] at hoffered
  rw [hoffered.1] at hoffered
  cases hoffered.2

end Flow

end PangeaOperator
