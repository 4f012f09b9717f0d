import PangeaOperator.FlowGate
import PangeaOperator.Lib.Run

/-!
# Runs of a flow

`reconcile_flow` as a step on the stored status. Each call has the flow as the watch has delivered
it, with the status that was read then, which need not be the stored one.
-/

namespace PangeaOperator

open Json

/-- What a reconcile reads of an `InfrastructureFlow`. -/
structure Flow where
  name : Option String
  generation : Option Int
  suspend : Bool
  steps : List FlowStep
  status : Option FlowStatus

/-- A call of `reconcile_flow`: whether the policy of the operator skips it, and whether the API
server refuses the patch that it sends. -/
structure FlowCall where
  skipped : Bool
  flow : Flow
  cluster : StepCluster
  now : Time
  refused : Bool
  distinct : ∀ templateName template, cluster.getOpt templateName = .ok (some template) →
    ∀ outputs, template.outputs = some outputs → DistinctKeys (outputsJson outputs)

namespace FlowCall

section Reconcile

variable (valueText : Doc → String) (call : FlowCall)

/-- The pass over the steps of an order. -/
def passOver (order : List String) : FlowPass :=
  order.foldl (reconcileNamed valueText call.cluster call.flow.name call.flow.steps) .empty

/-- The phase of a template that is found. -/
def foundPhase (stepName : String) : Option Phase :=
  match call.cluster.getOpt (templateNameForStep call.flow.name stepName) with
  | .ok (some template) => some (template.phase.getD .pending)
  | _ => none

def totalSteps : Nat := call.flow.steps.length % 2 ^ 32

def readyCount (order : List String) : Nat :=
  order.countP (fun stepName => call.foundPhase stepName = some .ready) % 2 ^ 32

def anyFailed (order : List String) : Bool :=
  order.any (fun stepName => call.foundPhase stepName = some .failed)

def flowPhase (order : List String) : FlowPhase :=
  if call.readyCount order = call.totalSteps then .ready
  else if call.anyFailed order then .failed
  else .progressing

def newStatus (order : List String) : FlowStatus where
  phase := some (call.flowPhase order)
  totalSteps := call.totalSteps
  readySteps := call.readyCount order
  steps := (call.passOver valueText order).stepStatuses
  conditions := flowConditions (call.flowPhase order) call.now
  observedGeneration := call.flow.generation.getD 0

def needsPatch (order : List String) : Bool :=
  flowStatusNeedsPatch call.flow.status (call.flowPhase order) call.totalSteps
    (call.readyCount order) (flowConditions (call.flowPhase order) call.now)
    (call.flow.generation.getD 0)

/-- The stored status after a patch is sent. -/
def sendPatch (stored body : Doc) : Doc := if call.refused then stored else patchStatus stored body

def suspendFlow (stored : Doc) : Doc :=
  let newConditions := conditionsForSuspended call.now
  if conditionsObservablyEqual ((call.flow.status.map FlowStatus.conditions).getD []) newConditions
  then stored
  else call.sendPatch stored (flowConditionsPatch newConditions)

def reconcileFlow (stored : Doc) : Doc :=
  if call.skipped then stored
  else if call.flow.suspend then call.suspendFlow stored
  else
    match toposort call.flow.steps with
    | .error _ => stored
    | .ok (.error e) => call.sendPatch stored (flowPhasePatch .failed (some e) call.now)
    | .ok (.ok order) =>
      if call.needsPatch order then
        call.sendPatch stored (flowStatusPatch (call.newStatus valueText order).toJson)
      else stored

end Reconcile

section Turn

variable (valueText : Doc → String) (cluster : StepCluster) (pass : FlowPass)
  (templateName : String) (step : FlowStep)

/-- A template is due, and there is nothing to create it from. -/
structure LeavesOut : Prop where
  missing : cluster.getOpt templateName = .ok none
  due : pass.depsReady step = true
  resolves : ∃ vars, pass.resolveVariables valueText step = .ok vars
  sourceless : step.source = none

/-- What is known of a status that is computed. -/
structure Told (status : FlowStepStatus) : Prop where
  phase : status.phase.isSome
  outputs : ∀ outputs, status.outputs = some outputs →
    ∃ template, cluster.getOpt templateName = .ok (some template) ∧ template.outputs = some outputs

/-- A turn computes a status for each template that was looked up, unless it leaves the step out. -/
inductive Turned (pass' : FlowPass) : Prop where
  | unanswered (e : Unit) (hanswer : cluster.getOpt templateName = .error e)
      (hstatuses : pass'.stepStatuses = pass.stepStatuses)
  | leftOut (hleft : LeavesOut valueText cluster pass templateName step)
      (hstatuses : pass'.stepStatuses = pass.stepStatuses)
  | told (status : FlowStepStatus) (found : Option StepTemplate)
      (hanswer : cluster.getOpt templateName = .ok found)
      (hleft : ¬ LeavesOut valueText cluster pass templateName step)
      (htold : Told cluster templateName status)
      (hstatuses : pass'.stepStatuses = pass.stepStatuses.insert step.name status)

theorem told_pendingStatus (name : Option String) (ready : Bool) (lastError : Option String) :
    Told cluster templateName (FlowPass.pendingStatus name ready lastError) where
  phase := rfl
  outputs _ h := by cases h

theorem turned_reconcileStep : Turned valueText cluster pass templateName step
    (pass.reconcileStep valueText cluster templateName step) := by
  rw [FlowPass.reconcileStep]
  cases hanswer : cluster.getOpt templateName with
  | error e => exact .unanswered e hanswer rfl
  | ok found =>
    cases found with
    | some template =>
      refine .told _ (some template) hanswer (fun h => ?_) ⟨rfl, fun outputs h => ?_⟩ rfl
      · cases hanswer.symm.trans h.missing
      · exact ⟨template, hanswer, h⟩
    | none =>
      simp only [FlowPass.templateMissing]
      split
      · next hdue =>
        cases hresolve : pass.resolveVariables valueText step with
        | error e =>
          refine .told _ none hanswer (fun h => ?_) (told_pendingStatus cluster templateName _ _ _)
            rfl
          obtain ⟨vars, hvars⟩ := h.resolves
          cases hresolve.symm.trans hvars
        | ok vars =>
          cases hsource : step.source with
          | none => exact .leftOut ⟨hanswer, hdue, ⟨vars, hresolve⟩, hsource⟩ rfl
          | some source =>
            refine .told _ none hanswer (fun h => ?_)
              (told_pendingStatus cluster templateName _ _ _) rfl
            cases hsource.symm.trans h.sourceless
      · next hdue =>
        refine .told _ none hanswer (fun h => hdue h.due)
          (told_pendingStatus cluster templateName _ _ _) rfl

end Turn

section Pass

variable (valueText : Doc → String) (call : FlowCall)

theorem passOver_concat (order : List String) (name : String) :
    call.passOver valueText (order ++ [name]) = reconcileNamed valueText call.cluster
      call.flow.name call.flow.steps (call.passOver valueText order) name := by
  rw [passOver, passOver, List.foldl_append]
  rfl

/-- The template of a step of the spec was looked up, and the cluster has answered. -/
def Answered (name : String) : Prop :=
  name ∈ call.flow.steps.map FlowStep.name ∧
    ∃ found, call.cluster.getOpt (templateNameForStep call.flow.name name) = .ok found

/-- The turn of a step leaves it out. -/
def LeftOut (order : List String) (name : String) : Prop :=
  ∃ before step, before ++ [name] <+: order ∧
    call.flow.steps.find? (fun step => step.name = name) = some step ∧
    LeavesOut valueText call.cluster (call.passOver valueText before)
      (templateNameForStep call.flow.name name) step

variable {valueText call}

theorem mem_of_leftOut {order : List String} {name : String}
    (h : call.LeftOut valueText order name) : name ∈ order := by
  obtain ⟨before, -, hfront, -⟩ := h
  exact hfront.subset (List.mem_append_right _ List.mem_cons_self)

theorem answered_of_leftOut {order : List String} {name : String}
    (h : call.LeftOut valueText order name) : call.Answered name := by
  obtain ⟨before, step, -, hfind, hleaves⟩ := h
  have hname : step.name = name := by simpa using List.find?_some hfind
  exact ⟨List.mem_map.mpr ⟨step, List.mem_of_find?_eq_some hfind, hname⟩, none, hleaves.missing⟩

theorem leftOut_concat_iff {order : List String} {n name : String} :
    call.LeftOut valueText (order ++ [n]) name ↔ call.LeftOut valueText order name ∨
      name = n ∧ ∃ step, call.flow.steps.find? (fun step => step.name = n) = some step ∧
        LeavesOut valueText call.cluster (call.passOver valueText order)
          (templateNameForStep call.flow.name n) step := by
  constructor
  · rintro ⟨before, step, hfront, hfind, hleaves⟩
    rcases List.prefix_concat_iff.mp hfront with heq | hfront
    · obtain ⟨rfl, hname⟩ := List.append_inj' heq rfl
      cases hname
      exact .inr ⟨rfl, step, hfind, hleaves⟩
    · exact .inl ⟨before, step, hfront, hfind, hleaves⟩
  · rintro (⟨before, step, hfront, hfind, hleaves⟩ | ⟨rfl, step, hfind, hleaves⟩)
    · exact ⟨before, step, hfront.trans (List.prefix_append order [n]), hfind, hleaves⟩
    · exact ⟨order, step, List.prefix_rfl, hfind, hleaves⟩

variable (valueText call)

/-- The statuses are those of the steps that were looked up, without the ones that are left out. -/
structure Computed (order : List String) (pass : FlowPass) : Prop where
  names : ∀ name, (pass.stepStatuses.get? name).isSome ↔
    name ∈ order ∧ call.Answered name ∧ ¬ call.LeftOut valueText order name
  told : ∀ name s, pass.stepStatuses.get? name = some s →
    Told call.cluster (templateNameForStep call.flow.name name) s

variable {valueText call}

/-- A turn without a status. -/
theorem Computed.silent {order : List String} {pass pass' : FlowPass} {n : String}
    (h : call.Computed valueText order pass) (hn : n ∉ order)
    (hstatuses : pass'.stepStatuses = pass.stepStatuses)
    (hsilent : ¬ (call.Answered n ∧ ¬ call.LeftOut valueText (order ++ [n]) n)) :
    call.Computed valueText (order ++ [n]) pass' where
  names name := by
    rw [hstatuses, h.names]
    by_cases hname : name = n
    · subst hname
      exact iff_of_false (fun hmem => hn hmem.1) fun hmem => hsilent hmem.2
    · simp [leftOut_concat_iff, hname]
  told name s hs := h.told name s (hstatuses ▸ hs)

theorem Computed.insert {order : List String} {pass pass' : FlowPass} {n : String}
    (h : call.Computed valueText order pass) {status : FlowStepStatus}
    (hstatuses : pass'.stepStatuses = pass.stepStatuses.insert n status)
    (htold : Told call.cluster (templateNameForStep call.flow.name n) status)
    (hread : call.Answered n ∧ ¬ call.LeftOut valueText (order ++ [n]) n) :
    call.Computed valueText (order ++ [n]) pass' where
  names name := by
    rw [hstatuses, SortedMap.insert, SortedMap.get?_upsert]
    by_cases hname : name = n
    · subst hname
      simpa using hread
    · rw [if_neg hname, h.names]
      simp [leftOut_concat_iff, hname]
  told name s hs := by
    rw [hstatuses, SortedMap.insert, SortedMap.get?_upsert] at hs
    by_cases hname : name = n
    · rw [if_pos hname] at hs
      cases hs
      exact hname ▸ htold
    · rw [if_neg hname] at hs
      exact h.told name s hs

/-- The induction is over the order, from its end. -/
theorem computed_passOver {order : List String} (hnodup : order.Nodup)
    (hnames : ∀ name ∈ order, name ∈ call.flow.steps.map FlowStep.name) :
    call.Computed valueText order (call.passOver valueText order) := by
  induction order using List.reverseRecOn with
  | nil =>
    refine ⟨fun name => ?_, fun name s h => ?_⟩
    · simp [passOver, FlowPass.empty, SortedMap.empty, SortedMap.get?]
    · cases h
  | append_singleton order n ih =>
    have hn : n ∉ order := by
      intro hmem
      exact (List.disjoint_of_nodup_append hnodup) hmem List.mem_cons_self
    have hcomputed := ih (hnodup.sublist (List.sublist_append_left order [n]))
      fun name hname => hnames name (List.mem_append_left _ hname)
    have hmem := hnames n (List.mem_append_right _ List.mem_cons_self)
    obtain ⟨step, hfind⟩ : ∃ step, call.flow.steps.find? (fun step => step.name = n) =
        some step := by
      rw [← Option.isSome_iff_exists, List.find?_isSome]
      obtain ⟨step, hstep, hname⟩ := List.mem_map.mp hmem
      exact ⟨step, hstep, by simpa using hname⟩
    have hname : step.name = n := by simpa using List.find?_some hfind
    have hleft : call.LeftOut valueText (order ++ [n]) n ↔
        LeavesOut valueText call.cluster (call.passOver valueText order)
          (templateNameForStep call.flow.name n) step := by
      have hfresh : ¬ call.LeftOut valueText order n := fun h => hn (mem_of_leftOut h)
      rw [leftOut_concat_iff]
      simp [hfresh, hfind]
    have hturn := turned_reconcileStep valueText call.cluster (call.passOver valueText order)
      (templateNameForStep call.flow.name n) step
    rw [passOver_concat, reconcileNamed, hfind]
    cases hturn with
    | unanswered e hanswer hstatuses =>
      refine hcomputed.silent hn hstatuses fun h => ?_
      obtain ⟨found, hfound⟩ := h.1.2
      cases hanswer.symm.trans hfound
    | leftOut hleaves hstatuses =>
      exact hcomputed.silent hn hstatuses fun h => h.2 (hleft.mpr hleaves)
    | told status found hanswer hleaves htold hstatuses =>
      rw [hname] at hstatuses
      exact hcomputed.insert hstatuses htold ⟨⟨hmem, found, hanswer⟩, fun h => hleaves (hleft.mp h)⟩

end Pass

section Run

variable (valueText : Doc → String)

/-- The call gets as far as to read the steps, in this order. -/
structure Reads (call : FlowCall) (order : List String) : Prop where
  admitted : call.skipped = false
  active : call.flow.suspend = false
  sorted : toposort call.flow.steps = .ok (.ok order)

/-- The stored status tells of the steps what the call has computed, and of no error. -/
structure Tells (call : FlowCall) (order : List String) (stored : Doc) : Prop where
  steps : ShowsSteps stored (call.passOver valueText order).stepStatuses
  lastError : stored.get? "lastError" = none

/-- The stored status speaks of the steps whose templates were looked up. -/
def Covers (call : FlowCall) (stored : Doc) : Prop :=
  ∀ name, (storedStep stored name).isSome ↔ call.Answered name

/-- The patch is due and is taken. -/
def writes (call : FlowCall) (order : List String) : Bool := call.needsPatch order && !call.refused

/-- No error is stored. A patch leaves nothing of the statuses that were stored, and where there is
no patch they are those of the call. -/
structure Replaces (call : FlowCall) (order : List String) (stored : Doc) : Prop where
  lastError : stored.get? "lastError" = none
  written : call.writes order = true →
    ReplacesSteps stored (call.passOver valueText order).stepStatuses
  unwritten : call.writes order = false →
    ShowsSteps stored (call.passOver valueText order).stepStatuses

variable {valueText} {call : FlowCall} {order : List String}

/-- The steps that were read are sorted, so their names are distinct. -/
theorem sorts_of_reads (h : call.Reads order) :
    FlowOrder.Sortable call.flow.steps ∧ FlowOrder.Sorts call.flow.steps order := by
  rcases FlowOrder.toposort_cases call.flow.steps with
    ⟨order', horder, hsortable, hsorts⟩ | ⟨message, hmessage, -⟩
  · cases horder.symm.trans h.sorted
    exact ⟨hsortable, hsorts⟩
  · cases hmessage.symm.trans h.sorted

theorem computed_of_reads (valueText : Doc → String) (h : call.Reads order) :
    call.Computed valueText order (call.passOver valueText order) := by
  obtain ⟨hsortable, hsorts⟩ := sorts_of_reads h
  exact computed_passOver (hsorts.perm.nodup_iff.mpr hsortable.distinct)
    fun name hname => hsorts.perm.mem_iff.mp hname

theorem reconcileFlow_of_reads (h : call.Reads order) (stored : Doc) :
    call.reconcileFlow valueText stored =
      if call.writes order then mergePatch stored (call.newStatus valueText order).toJson
      else stored := by
  have hpatch : patchStatus stored (flowStatusPatch (call.newStatus valueText order).toJson) =
      mergePatch stored (call.newStatus valueText order).toJson :=
    patchStatus_flowStatusPatch stored _
  rw [reconcileFlow, h.admitted, h.active, h.sorted, writes]
  simp only [Bool.false_eq_true, if_false, sendPatch, hpatch]
  cases call.needsPatch order <;> cases call.refused <;> rfl

theorem distinctOutputs_of_told {templateName : String} {s : FlowStepStatus}
    (h : Told call.cluster templateName s) : DistinctOutputs s := by
  intro outputs houtputs
  obtain ⟨template, htemplate, hsame⟩ := h.outputs outputs houtputs
  exact call.distinct templateName template htemplate outputs hsame

/-- One call, exactly. -/
theorem tells_reconcileFlow_iff (h : call.Reads order) (stored : Doc) :
    call.Tells valueText order (call.reconcileFlow valueText stored) ↔
      call.Replaces valueText order stored := by
  have hcomputed := computed_of_reads valueText h
  have hmerge : ShowsSteps (mergePatch stored (call.newStatus valueText order).toJson)
      (call.passOver valueText order).stepStatuses ↔
        ReplacesSteps stored (call.passOver valueText order).stepStatuses :=
    showsSteps_mergePatch_iff stored (call.newStatus valueText order)
      (fun name s hs => (hcomputed.told name s hs).phase)
      fun name s hs => distinctOutputs_of_told (hcomputed.told name s hs)
  have hlastError : (mergePatch stored (call.newStatus valueText order).toJson).get? "lastError" =
      stored.get? "lastError" := lastError_mergePatch stored (call.newStatus valueText order)
  rw [reconcileFlow_of_reads h]
  cases hwrites : call.writes order with
  | true =>
    rw [if_pos rfl]
    constructor
    · intro htells
      exact ⟨hlastError ▸ htells.lastError, fun _ => hmerge.mp htells.steps,
        fun hnot => absurd hnot (by simp [hwrites])⟩
    · intro hreplaces
      exact ⟨hmerge.mpr (hreplaces.written hwrites), hlastError ▸ hreplaces.lastError⟩
  | false =>
    rw [if_neg Bool.false_ne_true]
    constructor
    · intro htells
      exact ⟨htells.lastError, fun hdoes => absurd hdoes (by simp [hwrites]),
        fun _ => htells.steps⟩
    · intro hreplaces
      exact ⟨hreplaces.unwritten hwrites, hreplaces.lastError⟩

theorem isSome_storedStep {stored : Doc} {statuses : SortedMap String FlowStepStatus}
    (h : ShowsSteps stored statuses) (name : String) :
    (storedStep stored name).isSome ↔ (statuses.get? name).isSome := by
  cases hstatus : statuses.get? name with
  | none => simp [h.absent name hstatus]
  | some s =>
    obtain ⟨v, hv, -⟩ := h.present name s hstatus
    simp [hv]

/-- The steps that were looked up are told of where none of them is left out. -/
theorem covers_iff (h : call.Reads order) {stored : Doc}
    (htells : call.Tells valueText order stored) :
    call.Covers stored ↔ ∀ name, ¬ call.LeftOut valueText order name := by
  have hcomputed := computed_of_reads valueText h
  have hread (name : String) (hanswered : call.Answered name) : name ∈ order :=
    (sorts_of_reads h).2.perm.mem_iff.mpr hanswered.1
  have hstored (name : String) : (storedStep stored name).isSome ↔
      name ∈ order ∧ call.Answered name ∧ ¬ call.LeftOut valueText order name :=
    (isSome_storedStep htells.steps name).trans (hcomputed.names name)
  constructor
  · intro hcovers name hleft
    exact ((hstored name).mp ((hcovers name).mpr (answered_of_leftOut hleft))).2.2 hleft
  · intro hnone name
    rw [hstored]
    exact ⟨fun hmem => hmem.2.1, fun hanswered => ⟨hread name hanswered, hanswered, hnone name⟩⟩

/-- Over any run: after each call that reads the steps the status tells what it has computed, just
in case each such call finds no error and replaces what is stored; and it tells of all steps that
were looked up just in case none of them is left out besides. -/
theorem along_tells_iff (valueText : Doc → String) (stored : Doc) (calls : List FlowCall) :
    (Along (fun stored call => reconcileFlow valueText call stored) stored calls
        (fun stored call => ∀ order, call.Reads order →
          call.Tells valueText order (call.reconcileFlow valueText stored)) ↔
      Along (fun stored call => reconcileFlow valueText call stored) stored calls
        (fun stored call => ∀ order, call.Reads order → call.Replaces valueText order stored)) ∧
    (Along (fun stored call => reconcileFlow valueText call stored) stored calls
        (fun stored call => ∀ order, call.Reads order →
          call.Tells valueText order (call.reconcileFlow valueText stored) ∧
            call.Covers (call.reconcileFlow valueText stored)) ↔
      Along (fun stored call => reconcileFlow valueText call stored) stored calls
        (fun stored call => ∀ order, call.Reads order → call.Replaces valueText order stored ∧
          ∀ name, ¬ call.LeftOut valueText order name)) := by
  constructor
  · refine along_congr_all (fun stored call => ?_) stored calls
    exact forall₂_congr fun order h => tells_reconcileFlow_iff h stored
  · refine along_congr_all (fun stored call => ?_) stored calls
    refine forall₂_congr fun order h => ?_
    rw [← tells_reconcileFlow_iff h stored]
    exact and_congr_right fun htells => covers_iff h htells

/-- A flow of one step, whose template is found without outputs. -/
def networkCall (phase : Phase) (lastError : Option String) (status : Option FlowStatus) :
    FlowCall where
  skipped := false
  flow := ⟨some "shop", some 1, false, [⟨"network", [], none, some (.str "network.rb")⟩], status⟩
  cluster :=
    { getOpt := fun _ => .ok (some ⟨some phase, none, lastError⟩)
      create := fun _ _ _ => true }
  now := 0
  refused := false
  distinct _ found hfound outputs houtputs := by
    cases hfound
    cases houtputs

def compilingCall : FlowCall := networkCall .compiling none none

/-- The template does not compile. The flow is `Progressing` as before. -/
def blockedCall : FlowCall := networkCall .compileBlocked (some "undefined method")
  (some (compilingCall.newStatus (fun _ => "") ["network"]))

/-- The status that the first call writes hides the error of the second. -/
theorem not_along_tells_blockedCall : ¬ Along
    (fun stored call => reconcileFlow (fun _ => "") call stored) .null [compilingCall, blockedCall]
    (fun stored call => ∀ order, call.Reads order →
      call.Tells (fun _ => "") order (call.reconcileFlow (fun _ => "") stored)) := by
  intro h
  have hsorted : toposort compilingCall.flow.steps = .ok (.ok ["network"]) := by decide +kernel
  have hcompiling : compilingCall.Reads ["network"] := ⟨rfl, rfl, hsorted⟩
  have hblocked : blockedCall.Reads ["network"] := ⟨rfl, rfl, hsorted⟩
  have htells := h [compilingCall] blockedCall [] rfl ["network"] hblocked
  have hwrites : compilingCall.writes ["network"] = true := by decide +kernel
  have hskips : blockedCall.writes ["network"] = false := by decide +kernel
  rw [reconcileFlow_of_reads hblocked, hskips, if_neg Bool.false_ne_true, run_cons, run_nil,
    reconcileFlow_of_reads hcompiling, hwrites, if_pos rfl] at htells
  have hshown : ((storedStep (mergePatch .null
      (compilingCall.newStatus (fun _ => "") ["network"]).toJson) "network").bind
        (fun v => v.get? "lastError")) = none := by decide +kernel
  have herror : ((blockedCall.passOver (fun _ => "") ["network"]).stepStatuses.get? "network").bind
      FlowStepStatus.lastError = some "undefined method" := by decide +kernel
  obtain ⟨s, hs, hlast⟩ := Option.bind_eq_some_iff.mp herror
  obtain ⟨v, hv, hshows⟩ := htells.steps.present "network" s hs
  rw [hv, Option.bind_some, hshows.lastError, hlast] at hshown
  cases hshown

end Run

end FlowCall

end PangeaOperator
