import PangeaOperator.FlowScheduler
import PangeaOperator.FlowVariables

/-!
# The statuses of a flow's steps

The loop of `reconcile_flow` in `controller/flow_controller.rs`: step by step in their order, a
step whose template is found gets the phase of the template, and one without a template gets
`Pending`, also where the template is created, cannot be, or is not yet due.
-/

namespace PangeaOperator

open Json FlowVariables

/-- What a pass reads of a template's status. -/
structure StepTemplate where
  phase : Option Phase
  outputs : Option (SortedMap String Doc)
  lastError : Option String

/-- The answers of the cluster: for the name of a template, and on the creation of one from a name,
a source and variables. -/
structure StepCluster where
  getOpt : String → Except Unit (Option StepTemplate)
  create : String → Doc → Option (SortedMap String Doc) → Bool

/-- What a pass has written so far. `phases` is no variable of the source: it keeps the phase of
each template that the pass has found or created. -/
structure FlowPass where
  stepStatuses : SortedMap String FlowStepStatus
  stepOutputs : StepOutputs
  phases : SortedMap String Phase

namespace FlowPass

section Step

variable (valueText : Doc → String) (cluster : StepCluster) (pass : FlowPass)

def recordedPhase (name : String) : Option String :=
  (pass.stepStatuses.get? name).bind FlowStepStatus.phase

def depsReady (step : FlowStep) : Bool :=
  step.dependsOn.all (fun dep => pass.recordedPhase dep = some "Ready")

/-- The status of a step that has no template. -/
def pendingStatus (templateName : Option String) (dependenciesReady : Bool)
    (lastError : Option String) : FlowStepStatus :=
  ⟨some "Pending", none, templateName, dependenciesReady, lastError⟩

/-- The display of an `Error::Config`. -/
def configError (message : String) : String := s!"Configuration error: {message}"

def templateFound (stepName templateName : String) (depsReady : Bool) (template : StepTemplate) :
    FlowPass :=
  let phase := template.phase.getD .pending
  { stepStatuses := pass.stepStatuses.insert stepName
      ⟨some phase.name, template.outputs, some templateName, depsReady, template.lastError⟩
    stepOutputs := match phase, template.outputs with
      | .ready, some outputs => pass.stepOutputs.insert stepName outputs
      | _, _ => pass.stepOutputs
    phases := pass.phases.insert stepName phase }

def resolveVariables (step : FlowStep) : Except String (Option (SortedMap String Doc)) :=
  match step.variables' with
  | none => .ok none
  | some variables' => (resolveStepReferences valueText pass.stepOutputs variables').map some

/-- A template that is due is created, unless its variables or its source are not there. -/
def templateMissing (step : FlowStep) (templateName : String) (depsReady : Bool) : FlowPass :=
  if depsReady then
    match pass.resolveVariables valueText step with
    | .error e =>
      { pass with
        stepStatuses := pass.stepStatuses.insert step.name (pendingStatus none true
          (some s!"Variable resolution failed: {configError e}")) }
    | .ok variables' =>
      match step.source with
      | none => pass
      | some source =>
        { pass with
          stepStatuses := pass.stepStatuses.insert step.name
            (pendingStatus (some templateName) true none)
          phases := if cluster.create templateName source variables' then
              pass.phases.insert step.name .pending else pass.phases }
  else
    { pass with stepStatuses := pass.stepStatuses.insert step.name (pendingStatus none false none) }

def reconcileStep (templateName : String) (step : FlowStep) : FlowPass :=
  let depsReady := pass.depsReady step
  match cluster.getOpt templateName with
  | .ok (some template) => pass.templateFound step.name templateName depsReady template
  | .ok none => pass.templateMissing valueText cluster step templateName depsReady
  | .error _ => pass

end Step

def empty : FlowPass := ⟨.empty, .empty, .empty⟩

end FlowPass

section Reconcile

variable (valueText : Doc → String) (cluster : StepCluster) (flowName : Option String)
  (steps : List FlowStep)

def templateNameForStep (stepName : String) : String :=
  flowName.getD "unknown" ++ "-" ++ stepName

/-- A turn of the loop. The order holds names of steps only, so that the step is found. -/
def reconcileNamed (pass : FlowPass) (stepName : String) : FlowPass :=
  match steps.find? (fun step => step.name = stepName) with
  | none => pass
  | some step => pass.reconcileStep valueText cluster (templateNameForStep flowName stepName) step

/-- The statuses that a pass writes, or the error that the flow fails with. -/
def reconcileSteps : Except Halt (Except String FlowPass) :=
  (toposort steps).map (fun sorted => sorted.map (fun order =>
    order.foldl (reconcileNamed valueText cluster flowName steps) .empty))

end Reconcile

namespace FlowPass

section Records

variable {valueText : Doc → String} {cluster : StepCluster} {flowName : Option String}
  {steps : List FlowStep} {pass : FlowPass}

/-- A step whose template was found or created has its phase, any other one nothing or
`Pending`. -/
structure Records (pass : FlowPass) : Prop where
  known : ∀ name phase, pass.phases.get? name = some phase →
    pass.recordedPhase name = some phase.name
  unknown : ∀ name, pass.phases.get? name = none →
    pass.recordedPhase name = none ∨ pass.recordedPhase name = some "Pending"

/-- What a turn does to the two maps. -/
inductive Turn (pass : FlowPass) (name : String) (pass' : FlowPass) : Prop where
  | nothing (hstatuses : pass'.stepStatuses = pass.stepStatuses)
      (hphases : pass'.phases = pass.phases)
  | known (status : FlowStepStatus) (phase : Phase) (hphase : status.phase = some phase.name)
      (hstatuses : pass'.stepStatuses = pass.stepStatuses.insert name status)
      (hphases : pass'.phases = pass.phases.insert name phase)
  | pending (status : FlowStepStatus) (hphase : status.phase = some "Pending")
      (hstatuses : pass'.stepStatuses = pass.stepStatuses.insert name status)
      (hphases : pass'.phases = pass.phases)

theorem turn_reconcileStep (templateName : String) (step : FlowStep) :
    Turn pass step.name (pass.reconcileStep valueText cluster templateName step) := by
  rw [reconcileStep]
  cases cluster.getOpt templateName with
  | error e => exact .nothing rfl rfl
  | ok found =>
    cases found with
    | some template => exact .known _ (template.phase.getD .pending) rfl rfl rfl
    | none =>
      simp only [templateMissing]
      split
      · cases pass.resolveVariables valueText step with
        | error e => exact .pending _ rfl rfl rfl
        | ok variables' =>
          cases step.source with
          | none => exact .nothing rfl rfl
          | some source =>
            cases hcreate : cluster.create templateName source variables' with
            | true =>
              exact .known (pendingStatus (some templateName) true none) .pending rfl rfl
                (by simp [hcreate])
            | false =>
              exact .pending (pendingStatus (some templateName) true none) rfl rfl
                (by simp [hcreate])
      · exact .pending _ rfl rfl rfl

theorem turn_reconcileNamed (stepName : String) :
    Turn pass stepName (reconcileNamed valueText cluster flowName steps pass stepName) := by
  rw [reconcileNamed]
  split
  · exact .nothing rfl rfl
  · next step hfind =>
    have hname : step.name = stepName := by simpa using List.find?_some hfind
    exact hname ▸ turn_reconcileStep _ step

theorem recordedPhase_insert {pass' : FlowPass} {name : String} {status : FlowStepStatus}
    (h : pass'.stepStatuses = pass.stepStatuses.insert name status) (x : String) :
    pass'.recordedPhase x = if x = name then status.phase else pass.recordedPhase x := by
  rw [recordedPhase, h, SortedMap.insert, SortedMap.get?_upsert]
  split
  · rfl
  · rfl

theorem phases_insert {pass' : FlowPass} {name : String} {phase : Phase}
    (h : pass'.phases = pass.phases.insert name phase) (x : String) :
    pass'.phases.get? x = if x = name then some phase else pass.phases.get? x := by
  rw [h, SortedMap.insert, SortedMap.get?_upsert]

/-- A turn leaves the phases of the other steps. -/
theorem Turn.phases_of_ne {pass' : FlowPass} {name x : String} (h : Turn pass name pass')
    (hx : x ≠ name) : pass'.phases.get? x = pass.phases.get? x := by
  cases h with
  | nothing hstatuses hphases => rw [hphases]
  | known status phase hphase hstatuses hphases => rw [phases_insert hphases, if_neg hx]
  | pending status hphase hstatuses hphases => rw [hphases]

/-- The turn of a step that has no phase yet keeps the records. -/
theorem Records.turn {pass' : FlowPass} {name : String} (h : Records pass)
    (hturn : Turn pass name pass') (hfresh : pass.phases.get? name = none) : Records pass' := by
  cases hturn with
  | nothing hstatuses hphases =>
    have hsame (x : String) : pass'.recordedPhase x = pass.recordedPhase x := by
      rw [recordedPhase, recordedPhase, hstatuses]
    refine ⟨fun x phase hx => ?_, fun x hx => ?_⟩
    · rw [hsame]
      exact h.known x phase (hphases ▸ hx)
    · rw [hsame]
      exact h.unknown x (hphases ▸ hx)
  | known status phase hphase hstatuses hphases =>
    refine ⟨fun x phase' hx => ?_, fun x hx => ?_⟩
    · rw [recordedPhase_insert hstatuses]
      rw [phases_insert hphases] at hx
      by_cases hname : x = name
      · rw [if_pos hname] at hx ⊢
        cases hx
        exact hphase
      · rw [if_neg hname] at hx ⊢
        exact h.known x phase' hx
    · rw [recordedPhase_insert hstatuses]
      rw [phases_insert hphases] at hx
      by_cases hname : x = name
      · rw [if_pos hname] at hx
        cases hx
      · rw [if_neg hname] at hx ⊢
        exact h.unknown x hx
  | pending status hphase hstatuses hphases =>
    refine ⟨fun x phase' hx => ?_, fun x hx => ?_⟩
    · rw [hphases] at hx
      rw [recordedPhase_insert hstatuses]
      by_cases hname : x = name
      · rw [hname, hfresh] at hx
        cases hx
      · rw [if_neg hname]
        exact h.known x phase' hx
    · rw [hphases] at hx
      rw [recordedPhase_insert hstatuses]
      by_cases hname : x = name
      · rw [if_pos hname]
        exact .inr hphase
      · rw [if_neg hname]
        exact h.unknown x hx

theorem records_foldl {order : List String} (horder : order.Nodup) (h : Records pass)
    (hfresh : ∀ name ∈ order, pass.phases.get? name = none) :
    Records (order.foldl (reconcileNamed valueText cluster flowName steps) pass) := by
  induction order generalizing pass with
  | nil => exact h
  | cons name order ih =>
    obtain ⟨hname, horder⟩ := List.nodup_cons.mp horder
    have hturn : Turn pass name (reconcileNamed valueText cluster flowName steps pass name) :=
      turn_reconcileNamed name
    refine ih horder (h.turn hturn (hfresh name List.mem_cons_self)) fun x hx => ?_
    rw [hturn.phases_of_ne fun heq => hname (heq ▸ hx)]
    exact hfresh x (List.mem_cons_of_mem _ hx)

/-- A flow whose steps can be sorted gets its statuses. -/
theorem reconcileSteps_records (h : FlowOrder.Sortable steps) :
    ∃ order pass, reconcileSteps valueText cluster flowName steps = .ok (.ok pass) ∧
      Records pass ∧ FlowOrder.Sorts steps order := by
  obtain ⟨order, horder, hsorts⟩ := FlowOrder.toposort_of_sortable h
  have hnodup : order.Nodup := hsorts.perm.nodup_iff.mpr h.distinct
  have hempty : Records .empty := by
    refine ⟨fun name phase hx => ?_, fun _ _ => .inl rfl⟩
    cases hx
  refine ⟨order, order.foldl (reconcileNamed valueText cluster flowName steps) .empty, ?_,
    records_foldl hnodup hempty fun _ _ => rfl, hsorts⟩
  rw [reconcileSteps, horder]
  rfl

end Records

end FlowPass

end PangeaOperator
