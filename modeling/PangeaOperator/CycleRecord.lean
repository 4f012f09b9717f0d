import PangeaOperator.CycleReceipt
import PangeaOperator.PhaseUpdate

/-!
# Recording a cycle

`record_reconcile_cycle` of `controller/template/cycle_receipts.rs`: build the receipt,
skip the write when nothing a reader sees has changed, and merge it into
`status.lastCycle` otherwise. The theorem at the end says for which pairs of recordings
the first is stored as it was built and the second stays quiet.
-/

namespace PangeaOperator

open Json

/-- What the artifact store answers: the artifact its bundle holds, and the apply frontier. -/
structure StoreAnswer where
  bundle : Option (Option PlanArtifact)
  cursor : Option Nat
  deriving DecidableEq, Repr

/-- One call of `record_reconcile_cycle`, with the answers it gets and the clock it reads. -/
structure CycleRecording where
  executor : String
  backend : Option String
  store : Option StoreAnswer
  disk : Option PlanArtifact
  given : Option PlanArtifact
  drifts : List DriftDetail
  planSummary : Option String
  result : CycleResult
  resultingPhase : Phase
  now : Time
  completedAt : Time
  deriving DecidableEq, Repr

namespace CycleRecording

variable (r : CycleRecording) (s : Status)

/-- Only magma keeps its bundle and its frontier in the artifact store. -/
def magmaStore : Option StoreAnswer := if r.executor = "magma" then r.store else none

def artifact : Option PlanArtifact :=
  match r.given, r.magmaStore.bind StoreAnswer.bundle with
  | some a, _ => some a
  | none, some parsed => parsed
  | none, none => r.disk

def appliedCount : Option Nat := r.magmaStore.bind StoreAnswer.cursor

def total : Nat := (s.resources.map ResourceSummary.total).getD 0

def receipt : ReconcileCycle :=
  { buildReconcileCycle (min (s.cycleCount + 1) (2 ^ 64 - 1)) (s.lastPlannedAt.getD r.now)
      r.completedAt r.drifts (total s) r.planSummary s.lastAppliedRevision (some r.executor)
      r.artifact r.result with
    appliedCount := r.appliedCount }

/-- `should_clear_stale_error`, as it is called. -/
def clearsStaleError : Bool :=
  r.result.isClean && (r.receipt s).summary.failed = 0 && s.lastError.isSome &&
    r.resultingPhase != .failed

def runtimeIdentityUnchanged : Bool := s.executor = some r.executor && s.backend = r.backend

/-- Nothing that a reader sees would change. -/
def skips (prev : Option ReconcileCycle) : Bool :=
  prev.any (fun p => cycleContentEqual p (r.receipt s)) && r.runtimeIdentityUnchanged s &&
    !r.clearsStaleError s

def fields : List (StatusField × Option Doc) :=
  [(.cycleCount, some (Codec.nat.enc (r.receipt s).cycle)),
    (.lastCycle, some (ReconcileCycle.codec.enc (r.receipt s))),
    (.executor, some (Codec.string.enc r.executor)),
    (.backend, some (optionDoc .string r.backend))] ++
  if r.clearsStaleError s then [(.lastError, some .null), (.failureCount, some (Codec.nat.enc 0))]
  else []

end CycleRecording

/-- `record_reconcile_cycle`: the patch it issues, if any. -/
def recordReconcileCycle (s : Status) (prev : Option ReconcileCycle) (r : CycleRecording) :
    Option Doc :=
  if r.skips s prev then none else some (statusBody (r.fields s))

/-- The stored document after the call. -/
def afterRecording (stored : Doc) (s : Status) (prev : Option ReconcileCycle)
    (r : CycleRecording) : Doc :=
  ((recordReconcileCycle s prev r).map (patchStatus stored)).getD stored

/-- The stored receipt. -/
def storedCycle (stored : Doc) : Option (Option ReconcileCycle) :=
  Slot.readOption ReconcileCycle.codec (stored.get? "lastCycle")

/-- A stored document reads as this status with this receipt. -/
structure ReadsCycle (stored : Doc) (s : Status) (prev : Option ReconcileCycle) : Prop where
  status : Status.read stored = some s
  lastCycle : storedCycle stored = some prev

/-- Another writer's changes since a recording leave its members alone. -/
structure CarriesCycle (recorded later : Doc) : Prop where
  lastCycle : later.get? "lastCycle" = recorded.get? "lastCycle"
  executor : later.get? "executor" = recorded.get? "executor"
  backend : later.get? "backend" = recorded.get? "backend"

/-- Two recordings say the same but for the cycle number and the times. -/
structure SameContent (r₁ : CycleRecording) (s₁ : Status) (r₂ : CycleRecording) (s₂ : Status) :
    Prop where
  receipt : r₁.receipt s₁ =
    { r₂.receipt s₂ with
      cycle := (r₁.receipt s₁).cycle
      startedAt := (r₁.receipt s₁).startedAt
      completedAt := (r₁.receipt s₁).completedAt }
  backend : r₁.backend = r₂.backend

theorem cycleContentEqual_refl (c : ReconcileCycle) : cycleContentEqual c c = true := by
  simp [cycleContentEqual]

section Recorded

variable {stored : Doc} {s : Status} {prev : Option ReconcileCycle} {r : CycleRecording}

theorem CycleRecording.fields_nodup : ((r.fields s).map Prod.fst).Nodup := by
  unfold CycleRecording.fields
  split <;> simp

theorem recordReconcileCycle_of_not_skips (h : r.skips s prev = false) :
    recordReconcileCycle s prev r = some (statusBody (r.fields s)) := by
  simp [recordReconcileCycle, h]

/-- What a member of the patch leaves, whatever else the patch sends. -/
theorem get?_afterRecording (h : r.skips s prev = false) {f : StatusField} {o : Option Doc}
    (hm : (f, o) ∈ r.fields s) :
    (afterRecording stored s prev r).get? f.name = mergeSlot (stored.get? f.name) o := by
  rw [afterRecording, recordReconcileCycle_of_not_skips h, Option.map_some, Option.getD_some,
    get?_patchStatus stored _ CycleRecording.fields_nodup,
    sent_of_mem CycleRecording.fields_nodup hm]

/-- The receipt that is read back after it was written. -/
theorem storedCycle_afterRecording (hread : ReadsCycle stored s prev)
    (h : r.skips s prev = false) :
    storedCycle (afterRecording stored s prev r) =
      some (some (ReconcileCycle.stored prev (r.receipt s))) := by
  have hmember : (afterRecording stored s prev r).get? StatusField.lastCycle.name =
      mergeSlot (stored.get? StatusField.lastCycle.name)
        (some (ReconcileCycle.codec.enc (r.receipt s))) :=
    get?_afterRecording h (by simp [CycleRecording.fields])
  unfold storedCycle
  rw [show "lastCycle" = StatusField.lastCycle.name from rfl, hmember]
  exact ReconcileCycle.readOption_merge hread.lastCycle _

theorem afterRecording_of_skips (h : r.skips s prev = true) :
    afterRecording stored s prev r = stored := by
  simp [afterRecording, recordReconcileCycle, h]

end Recorded

section Repeated

variable {stored later : Doc} {s s' : Status} {prev prev' : Option ReconcileCycle}
  {r₁ r₂ : CycleRecording}

/-- The echo of the executor that a recording writes, or found as it would write it. -/
theorem echo_of_carries (hread : ReadsCycle stored s prev)
    (hcarries : CarriesCycle (afterRecording stored s prev r₁) later)
    (hlater : ReadsCycle later s' prev') :
    s'.executor = some r₁.executor ∧ s'.backend = r₁.backend := by
  have hexecutor := Status.read_eq_some_iff.mp hlater.status .executor
  have hbackend := Status.read_eq_some_iff.mp hlater.status .backend
  rw [show StatusField.executor.name = "executor" from rfl, hcarries.executor] at hexecutor
  rw [show StatusField.backend.name = "backend" from rfl, hcarries.backend] at hbackend
  cases hskip : r₁.skips s prev with
  | true =>
    rw [afterRecording_of_skips hskip] at hexecutor hbackend
    have hidentity : r₁.runtimeIdentityUnchanged s = true := by
      simp only [CycleRecording.skips, Bool.and_eq_true] at hskip
      exact hskip.1.2
    simp only [CycleRecording.runtimeIdentityUnchanged, Bool.and_eq_true, decide_eq_true_eq]
      at hidentity
    have hexecutor' := Status.read_eq_some_iff.mp hread.status .executor
    have hbackend' := Status.read_eq_some_iff.mp hread.status .backend
    refine ⟨?_, ?_⟩
    · rw [← hidentity.1]
      exact Option.some_injective _ (hexecutor.symm.trans hexecutor')
    · rw [← hidentity.2]
      exact Option.some_injective _ (hbackend.symm.trans hbackend')
  | false =>
    rw [show "executor" = StatusField.executor.name from rfl,
      get?_afterRecording hskip (o := some (Codec.string.enc r₁.executor))
        (by simp [CycleRecording.fields])] at hexecutor
    rw [show "backend" = StatusField.backend.name from rfl,
      get?_afterRecording hskip (o := some (optionDoc .string r₁.backend))
        (by simp [CycleRecording.fields])] at hbackend
    have hwritten := readOption_mergeSlot Codec.string_flat
      (stored.get? StatusField.executor.name) r₁.executor
    have hechoed := readOption_mergeSlot_getD Codec.string_flat
      (stored.get? StatusField.backend.name) r₁.backend
    exact ⟨Option.some_injective _ (hexecutor.symm.trans hwritten),
      Option.some_injective _ (hbackend.symm.trans hechoed)⟩

/-- A receipt stored as it was built silences a recording of the same content. -/
theorem skips_of_same (hread : ReadsCycle stored s prev)
    (hcarries : CarriesCycle (afterRecording stored s prev r₁) later)
    (hlater : ReadsCycle later s' prev') (hsame : SameContent r₁ s r₂ s')
    (hquiet : r₂.clearsStaleError s' = false)
    (hstored : r₁.skips s prev = false →
      ReconcileCycle.stored prev (r₁.receipt s) = r₁.receipt s) :
    r₂.skips s' prev' = true := by
  obtain ⟨hexecutor, hbackend⟩ := echo_of_carries hread hcarries hlater
  have hname : r₁.executor = r₂.executor :=
    Option.some_injective _ (congrArg ReconcileCycle.executor hsame.receipt)
  have hcontent (p : ReconcileCycle) :
      cycleContentEqual p (r₂.receipt s') = cycleContentEqual p (r₁.receipt s) := by
    rw [hsame.receipt]
    rfl
  have hread' : storedCycle (afterRecording stored s prev r₁) = some prev' := by
    rw [← hlater.lastCycle, storedCycle, storedCycle, hcarries.lastCycle]
  have hany : prev'.any (fun p => cycleContentEqual p (r₂.receipt s')) = true := by
    simp only [hcontent]
    cases hskip : r₁.skips s prev with
    | true =>
      rw [afterRecording_of_skips hskip, hread.lastCycle] at hread'
      cases hread'
      simp only [CycleRecording.skips, Bool.and_eq_true] at hskip
      exact hskip.1.1
    | false =>
      rw [storedCycle_afterRecording hread hskip, hstored hskip] at hread'
      cases hread'
      exact cycleContentEqual_refl _
  simp [CycleRecording.skips, CycleRecording.runtimeIdentityUnchanged, hany, hexecutor, hbackend,
    hname, hsame.backend, hquiet]

end Repeated

/-- The receipt is stored as it was built, and the same content recorded again, with no stale
error to take back, issues no patch. -/
def StoredThenQuiet (stored : Doc) (s s' : Status) (prev prev' : Option ReconcileCycle)
    (r₁ r₂ : CycleRecording) : Prop :=
  (recordReconcileCycle s prev r₁ ≠ none →
    storedCycle (afterRecording stored s prev r₁) = some (some (r₁.receipt s))) ∧
  (SameContent r₁ s r₂ s' → r₂.clearsStaleError s' = false →
    recordReconcileCycle s' prev' r₂ = none)

/-- The cycle went through and changed nothing. -/
def CycleRecording.convergedNoOp (r : CycleRecording) (s : Status) : Bool :=
  r.result.succeeded &&
    (cycleSummary ((r.drifts.take 100).map r.result.resourceOutcome)
      (CycleRecording.total s - r.drifts.length % 2 ^ 32)).changedNothing

/-- Whatever a recording has nothing for, the stored receipt has nothing for either. -/
structure CycleRecording.Covers (r : CycleRecording) (s : Status) (p : ReconcileCycle) : Prop where
  sourceRevision : s.lastAppliedRevision = none → p.sourceRevision = none
  planSummary : r.planSummary = none → r.convergedNoOp s = false → p.planSummary = none
  outcomes : r.drifts = [] → p.outcomes = []
  actionDistribution : r.artifact = none → p.actionDistribution = none
  bundleRef : r.artifact.bind PlanArtifact.artifactRef = none → p.bundleRef = none
  severityRollup : r.artifact.bind PlanArtifact.severities = none → p.severityRollup = none
  lifecyclePhase : r.artifact.bind PlanArtifact.lifecyclePhase = none → p.lifecyclePhase = none
  appliedCount : r.appliedCount = none → p.appliedCount = none

theorem CycleRecording.receipt_covers_iff (r : CycleRecording) (s : Status) (p : ReconcileCycle) :
    (r.receipt s).Covers p ↔ r.Covers s p := by
  have hsummary : (r.receipt s).planSummary = none ↔
      r.planSummary = none ∧ r.convergedNoOp s = false := by
    change (if r.convergedNoOp s then some "No changes" else r.planSummary) = none ↔ _
    cases r.convergedNoOp s <;> simp
  have houtcomes : (r.receipt s).outcomes = [] ↔ r.drifts = [] := by
    change (r.drifts.take 100).map r.result.resourceOutcome = [] ↔ _
    simp
  have hdistribution : (r.receipt s).actionDistribution = none ↔ r.artifact = none := by
    change r.artifact.map _ = none ↔ _
    simp
  constructor
  · intro h
    exact ⟨h.sourceRevision, fun hp hc => h.planSummary (hsummary.mpr ⟨hp, hc⟩),
      fun hd => h.outcomes (houtcomes.mpr hd),
      fun ha => h.actionDistribution (hdistribution.mpr ha), h.bundleRef, h.severityRollup,
      h.lifecyclePhase, h.appliedCount⟩
  · intro h
    exact ⟨h.sourceRevision, fun hp => h.planSummary (hsummary.mp hp).1 (hsummary.mp hp).2,
      fun ho => h.outcomes (houtcomes.mp ho), nofun,
      fun ha => h.actionDistribution (hdistribution.mp ha), h.bundleRef, h.severityRollup,
      h.lifecyclePhase, h.appliedCount⟩

/-- Two recordings in a row, the second on what the first left, whatever else was written in
between. The merge keeps what the new receipt leaves out, so a stored receipt must have
nothing there. -/
theorem stored_then_quiet_iff {stored later : Doc} {s s' : Status}
    {prev prev' : Option ReconcileCycle} (hread : ReadsCycle stored s prev) (r₁ r₂ : CycleRecording)
    (hcarries : CarriesCycle (afterRecording stored s prev r₁) later)
    (hlater : ReadsCycle later s' prev') :
    StoredThenQuiet stored s s' prev prev' r₁ r₂ ↔
      (r₁.skips s prev = true ∨ ∀ p, prev = some p → r₁.Covers s p) := by
  have hcovers : (∀ p, prev = some p → r₁.Covers s p) ↔
      ReconcileCycle.stored prev (r₁.receipt s) = r₁.receipt s := by
    simp only [ReconcileCycle.stored_eq_self_iff, CycleRecording.receipt_covers_iff]
  rw [hcovers]
  constructor
  · rintro ⟨hfirst, -⟩
    cases hskip : r₁.skips s prev with
    | true => exact .inl rfl
    | false =>
      have hstored := hfirst (by simp [recordReconcileCycle_of_not_skips hskip])
      rw [storedCycle_afterRecording hread hskip] at hstored
      exact .inr (Option.some_injective _ (Option.some_injective _ hstored))
  · intro h
    have hstored (hskip : r₁.skips s prev = false) :
        ReconcileCycle.stored prev (r₁.receipt s) = r₁.receipt s := by
      rcases h with h | h
      · simp [hskip] at h
      · exact h
    refine ⟨fun hissued => ?_, fun hsame hquiet => ?_⟩
    · have hskip : r₁.skips s prev = false := by
        by_contra hskip
        exact hissued (by simp [recordReconcileCycle, hskip])
      rw [storedCycle_afterRecording hread hskip, hstored hskip]
    · have hskip := skips_of_same hread hcarries hlater hsame hquiet hstored
      simp [recordReconcileCycle, hskip]

/-- The same call made again finds no error to take back that the first did not. -/
theorem clearsStaleError_of_repeat {s s' : Status} {r₁ r₂ : CycleRecording}
    (hsame : SameContent r₁ s r₂ s') (hresult : r₂.result = r₁.result)
    (hphase : r₂.resultingPhase = r₁.resultingPhase)
    (herror : s'.lastError = if r₁.clearsStaleError s then none else s.lastError) :
    r₂.clearsStaleError s' = false := by
  have hfailed : (r₂.receipt s').summary.failed = (r₁.receipt s).summary.failed := by
    rw [hsame.receipt]
  cases hclears : r₁.clearsStaleError s with
  | true =>
    rw [hclears] at herror
    simp [CycleRecording.clearsStaleError, herror]
  | false =>
    rw [hclears] at herror
    rw [← hclears]
    simp only [CycleRecording.clearsStaleError, hresult, hphase, hfailed, herror]
    rfl

/-- One resource is created. -/
def createdRecording : CycleRecording :=
  { executor := "tofu", backend := none, store := none, disk := none, given := none,
    drifts := [⟨"aws_vpc.main", "create", "low", [], none, none⟩], planSummary := some "+1 ~0 -0",
    result := .appliedSuccess [], resultingPhase := .ready, now := 0, completedAt := 1 }

def createdStatus : Status :=
  { cycleCount := 1
    lastCycle := some (ReconcileCycle.codec.enc (createdRecording.receipt {})).members
    executor := some "tofu" }

theorem createdStatus_reads :
    ReadsCycle createdStatus.toJson createdStatus (some (createdRecording.receipt {})) :=
  ⟨Status.read_toJson _, by decide +kernel⟩

theorem first_receipt_then_quiet :
    StoredThenQuiet (Status.toJson {}) {} createdStatus none (some (createdRecording.receipt {}))
      createdRecording createdRecording := by
  have hcarries : CarriesCycle (afterRecording (Status.toJson {}) {} none createdRecording)
      createdStatus.toJson :=
    ⟨by decide +kernel, by decide +kernel, by decide +kernel⟩
  exact (stored_then_quiet_iff ⟨Status.read_toJson _, by decide +kernel⟩ createdRecording
    createdRecording hcarries createdStatus_reads).mpr
    (.inr (fun p hp => absurd hp (Option.some_ne_none p).symm))

/-- The next cycle finds nothing to do. -/
def idleRecording : CycleRecording :=
  { createdRecording with drifts := [], planSummary := some "No changes", result := .noChanges }

/-- What it leaves: the list of created resources is still there. -/
def idleStatus : Status :=
  { createdStatus with
    cycleCount := 2
    lastCycle := (afterRecording createdStatus.toJson createdStatus
      (some (createdRecording.receipt {})) idleRecording).get? "lastCycle" |>.map members }

def idleStored : ReconcileCycle :=
  { idleRecording.receipt createdStatus with
    outcomes := [⟨"aws_vpc.main", .created, some "create", none⟩] }

/-- After a create, a cycle without changes is not stored as built, and is written every time. -/
theorem created_receipt_never_quiet :
    ReadsCycle createdStatus.toJson createdStatus (some (createdRecording.receipt {})) ∧
    CarriesCycle (afterRecording createdStatus.toJson createdStatus
      (some (createdRecording.receipt {})) idleRecording) idleStatus.toJson ∧
    ReadsCycle idleStatus.toJson idleStatus (some idleStored) ∧
    SameContent idleRecording createdStatus idleRecording idleStatus ∧
    recordReconcileCycle idleStatus (some idleStored) idleRecording ≠ none ∧
    ¬ StoredThenQuiet createdStatus.toJson createdStatus idleStatus
      (some (createdRecording.receipt {})) (some idleStored) idleRecording idleRecording := by
  refine ⟨createdStatus_reads, ⟨by decide +kernel, by decide +kernel, by decide +kernel⟩,
    ⟨Status.read_toJson _, by decide +kernel⟩, ⟨by decide +kernel, rfl⟩, by decide +kernel, ?_⟩
  rintro ⟨hstored, -⟩
  exact absurd (hstored (by decide +kernel)) (by decide +kernel)

end PangeaOperator
