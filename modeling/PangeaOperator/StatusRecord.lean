import PangeaOperator.Crd

/-!
# The status on the API server

`Status` is `InfrastructureTemplateStatus` with serde's wire form: one slot a field,
in the order and under the names of the source. The API server holds the document;
a reconcile reads it, and every write is a merge patch. The lemmas at the end say
what a patch made of status fields does to the record that is read back.
-/

namespace PangeaOperator

open Json

/-- A record that no modelled function looks into. -/
abbrev Members := List (String × Doc)

structure Status where
  phase : Option Phase := none
  conditions : List Condition := []
  lastAppliedRevision : Option String := none
  compiledRevision : Option String := none
  compiledAt : Option Time := none
  observedHeadRevision : Option String := none
  lastFreshnessCheckAt : Option Time := none
  lastPlannedAt : Option Time := none
  lastAppliedAt : Option Time := none
  lastDriftCheckAt : Option Time := none
  resources : Option ResourceSummary := none
  outputs : Option Members := none
  planSummary : Option String := none
  stateKey : Option String := none
  observedGeneration : Int := 0
  acknowledgedGeneration : Int := 0
  pass : Option PassStatus := none
  lastReconcileRequestHandled : Option String := none
  failureCount : Nat := 0
  lastError : Option String := none
  driftDetails : List DriftDetail := []
  driftFingerprint : Option String := none
  driftTotal : Nat := 0
  observedSpecDigest : Option String := none
  pendingPlanHash : Option String := none
  approvedPlanHash : Option String := none
  compliance : Option Members := none
  policyEvaluation : Option PolicyEvaluation := none
  consecutiveDriftCycles : Nat := 0
  consecutiveCompileFailures : Nat := 0
  stuckResources : List String := []
  cycleCount : Nat := 0
  lastCycle : Option Members := none
  phaseEnteredAt : Option Time := none
  applyCursorCount : Option Nat := none
  applyCursorAdvancedAt : Option Time := none
  verifiedBlockedSince : Option Time := none
  autoSuspended : Bool := false
  lastEscalatedAt : Option Time := none
  lastEscalationReason : Option String := none
  executor : Option String := none
  backend : Option String := none
  progress : Option LiveProgress := none
  recentEvents : List Members := []
  pendingCreates : Option Members := none
  generationLagSince : Option Time := none
  preflight : Option Members := none
  reactions : Option Members := none
  leaf : Option Members := none
  rateLimitedUntil : Option Time := none

inductive StatusField where
  | phase
  | conditions
  | lastAppliedRevision
  | compiledRevision
  | compiledAt
  | observedHeadRevision
  | lastFreshnessCheckAt
  | lastPlannedAt
  | lastAppliedAt
  | lastDriftCheckAt
  | resources
  | outputs
  | planSummary
  | stateKey
  | observedGeneration
  | acknowledgedGeneration
  | pass
  | lastReconcileRequestHandled
  | failureCount
  | lastError
  | driftDetails
  | driftFingerprint
  | driftTotal
  | observedSpecDigest
  | pendingPlanHash
  | approvedPlanHash
  | compliance
  | policyEvaluation
  | consecutiveDriftCycles
  | consecutiveCompileFailures
  | stuckResources
  | cycleCount
  | lastCycle
  | phaseEnteredAt
  | applyCursorCount
  | applyCursorAdvancedAt
  | verifiedBlockedSince
  | autoSuspended
  | lastEscalatedAt
  | lastEscalationReason
  | executor
  | backend
  | progress
  | recentEvents
  | pendingCreates
  | generationLagSince
  | preflight
  | reactions
  | leaf
  | rateLimitedUntil
  deriving DecidableEq, Repr

namespace StatusField

def name : StatusField → String
  | phase => "phase"
  | conditions => "conditions"
  | lastAppliedRevision => "lastAppliedRevision"
  | compiledRevision => "compiledRevision"
  | compiledAt => "compiledAt"
  | observedHeadRevision => "observedHeadRevision"
  | lastFreshnessCheckAt => "lastFreshnessCheckAt"
  | lastPlannedAt => "lastPlannedAt"
  | lastAppliedAt => "lastAppliedAt"
  | lastDriftCheckAt => "lastDriftCheckAt"
  | resources => "resources"
  | outputs => "outputs"
  | planSummary => "planSummary"
  | stateKey => "stateKey"
  | observedGeneration => "observedGeneration"
  | acknowledgedGeneration => "acknowledgedGeneration"
  | pass => "pass"
  | lastReconcileRequestHandled => "lastReconcileRequestHandled"
  | failureCount => "failureCount"
  | lastError => "lastError"
  | driftDetails => "driftDetails"
  | driftFingerprint => "driftFingerprint"
  | driftTotal => "driftTotal"
  | observedSpecDigest => "observedSpecDigest"
  | pendingPlanHash => "pendingPlanHash"
  | approvedPlanHash => "approvedPlanHash"
  | compliance => "compliance"
  | policyEvaluation => "policyEvaluation"
  | consecutiveDriftCycles => "consecutiveDriftCycles"
  | consecutiveCompileFailures => "consecutiveCompileFailures"
  | stuckResources => "stuckResources"
  | cycleCount => "cycleCount"
  | lastCycle => "lastCycle"
  | phaseEnteredAt => "phaseEnteredAt"
  | applyCursorCount => "applyCursorCount"
  | applyCursorAdvancedAt => "applyCursorAdvancedAt"
  | verifiedBlockedSince => "verifiedBlockedSince"
  | autoSuspended => "autoSuspended"
  | lastEscalatedAt => "lastEscalatedAt"
  | lastEscalationReason => "lastEscalationReason"
  | executor => "executor"
  | backend => "backend"
  | progress => "progress"
  | recentEvents => "recentEvents"
  | pendingCreates => "pendingCreates"
  | generationLagSince => "generationLagSince"
  | preflight => "preflight"
  | reactions => "reactions"
  | leaf => "leaf"
  | rateLimitedUntil => "rateLimitedUntil"

abbrev Value : StatusField → Type
  | phase => Option Phase
  | conditions => List Condition
  | lastAppliedRevision => Option String
  | compiledRevision => Option String
  | compiledAt => Option Time
  | observedHeadRevision => Option String
  | lastFreshnessCheckAt => Option Time
  | lastPlannedAt => Option Time
  | lastAppliedAt => Option Time
  | lastDriftCheckAt => Option Time
  | resources => Option ResourceSummary
  | outputs => Option Members
  | planSummary => Option String
  | stateKey => Option String
  | observedGeneration => Int
  | acknowledgedGeneration => Int
  | pass => Option PassStatus
  | lastReconcileRequestHandled => Option String
  | failureCount => Nat
  | lastError => Option String
  | driftDetails => List DriftDetail
  | driftFingerprint => Option String
  | driftTotal => Nat
  | observedSpecDigest => Option String
  | pendingPlanHash => Option String
  | approvedPlanHash => Option String
  | compliance => Option Members
  | policyEvaluation => Option PolicyEvaluation
  | consecutiveDriftCycles => Nat
  | consecutiveCompileFailures => Nat
  | stuckResources => List String
  | cycleCount => Nat
  | lastCycle => Option Members
  | phaseEnteredAt => Option Time
  | applyCursorCount => Option Nat
  | applyCursorAdvancedAt => Option Time
  | verifiedBlockedSince => Option Time
  | autoSuspended => Bool
  | lastEscalatedAt => Option Time
  | lastEscalationReason => Option String
  | executor => Option String
  | backend => Option String
  | progress => Option LiveProgress
  | recentEvents => List Members
  | pendingCreates => Option Members
  | generationLagSince => Option Time
  | preflight => Option Members
  | reactions => Option Members
  | leaf => Option Members
  | rateLimitedUntil => Option Time

/-- How serde writes and reads the field. -/
def slot : (f : StatusField) → Slot f.Value
  | phase => .optional Phase.codec
  | conditions => .nonempty Condition.codec
  | lastAppliedRevision => .optional .string
  | compiledRevision => .optional .string
  | compiledAt => .optional .time
  | observedHeadRevision => .optional .string
  | lastFreshnessCheckAt => .optional .time
  | lastPlannedAt => .optional .time
  | lastAppliedAt => .optional .time
  | lastDriftCheckAt => .optional .time
  | resources => .optional ResourceSummary.codec
  | outputs => .optional .map
  | planSummary => .optional .string
  | stateKey => .optional .string
  | observedGeneration => .withDefault .int 0
  | acknowledgedGeneration => .withDefault .int 0
  | pass => .optional PassStatus.codec
  | lastReconcileRequestHandled => .optional .string
  | failureCount => .withDefault .nat 0
  | lastError => .optional .string
  | driftDetails => .withDefault (.list DriftDetail.codec) []
  | driftFingerprint => .optional .string
  | driftTotal => .withDefault .nat 0
  | observedSpecDigest => .optional .string
  | pendingPlanHash => .optional .string
  | approvedPlanHash => .optional .string
  | compliance => .optional .map
  | policyEvaluation => .optional PolicyEvaluation.codec
  | consecutiveDriftCycles => .withDefault .nat 0
  | consecutiveCompileFailures => .withDefault .nat 0
  | stuckResources => .withDefault (.list .string) []
  | cycleCount => .withDefault .nat 0
  | lastCycle => .optional .map
  | phaseEnteredAt => .optional .time
  | applyCursorCount => .optional .nat
  | applyCursorAdvancedAt => .optional .time
  | verifiedBlockedSince => .optional .time
  | autoSuspended => .withDefault .bool false
  | lastEscalatedAt => .optional .time
  | lastEscalationReason => .optional .string
  | executor => .optional .string
  | backend => .optional .string
  | progress => .optional LiveProgress.codec
  | recentEvents => .nonempty .map
  | pendingCreates => .optional .map
  | generationLagSince => .optional .time
  | preflight => .optional .map
  | reactions => .optional .map
  | leaf => .optional .map
  | rateLimitedUntil => .optional .time

def get : (f : StatusField) → Status → f.Value
  | phase => Status.phase
  | conditions => Status.conditions
  | lastAppliedRevision => Status.lastAppliedRevision
  | compiledRevision => Status.compiledRevision
  | compiledAt => Status.compiledAt
  | observedHeadRevision => Status.observedHeadRevision
  | lastFreshnessCheckAt => Status.lastFreshnessCheckAt
  | lastPlannedAt => Status.lastPlannedAt
  | lastAppliedAt => Status.lastAppliedAt
  | lastDriftCheckAt => Status.lastDriftCheckAt
  | resources => Status.resources
  | outputs => Status.outputs
  | planSummary => Status.planSummary
  | stateKey => Status.stateKey
  | observedGeneration => Status.observedGeneration
  | acknowledgedGeneration => Status.acknowledgedGeneration
  | pass => Status.pass
  | lastReconcileRequestHandled => Status.lastReconcileRequestHandled
  | failureCount => Status.failureCount
  | lastError => Status.lastError
  | driftDetails => Status.driftDetails
  | driftFingerprint => Status.driftFingerprint
  | driftTotal => Status.driftTotal
  | observedSpecDigest => Status.observedSpecDigest
  | pendingPlanHash => Status.pendingPlanHash
  | approvedPlanHash => Status.approvedPlanHash
  | compliance => Status.compliance
  | policyEvaluation => Status.policyEvaluation
  | consecutiveDriftCycles => Status.consecutiveDriftCycles
  | consecutiveCompileFailures => Status.consecutiveCompileFailures
  | stuckResources => Status.stuckResources
  | cycleCount => Status.cycleCount
  | lastCycle => Status.lastCycle
  | phaseEnteredAt => Status.phaseEnteredAt
  | applyCursorCount => Status.applyCursorCount
  | applyCursorAdvancedAt => Status.applyCursorAdvancedAt
  | verifiedBlockedSince => Status.verifiedBlockedSince
  | autoSuspended => Status.autoSuspended
  | lastEscalatedAt => Status.lastEscalatedAt
  | lastEscalationReason => Status.lastEscalationReason
  | executor => Status.executor
  | backend => Status.backend
  | progress => Status.progress
  | recentEvents => Status.recentEvents
  | pendingCreates => Status.pendingCreates
  | generationLagSince => Status.generationLagSince
  | preflight => Status.preflight
  | reactions => Status.reactions
  | leaf => Status.leaf
  | rateLimitedUntil => Status.rateLimitedUntil

def all : List StatusField := [
  phase, conditions, lastAppliedRevision, compiledRevision, compiledAt, observedHeadRevision,
  lastFreshnessCheckAt, lastPlannedAt, lastAppliedAt, lastDriftCheckAt, resources, outputs,
  planSummary, stateKey, observedGeneration, acknowledgedGeneration, pass,
  lastReconcileRequestHandled, failureCount, lastError, driftDetails, driftFingerprint,
  driftTotal, observedSpecDigest, pendingPlanHash, approvedPlanHash, compliance,
  policyEvaluation, consecutiveDriftCycles, consecutiveCompileFailures, stuckResources,
  cycleCount, lastCycle, phaseEnteredAt, applyCursorCount, applyCursorAdvancedAt,
  verifiedBlockedSince, autoSuspended, lastEscalatedAt, lastEscalationReason, executor, backend,
  progress, recentEvents, pendingCreates, generationLagSince, preflight, reactions, leaf,
  rateLimitedUntil]

theorem mem_all (f : StatusField) : f ∈ all := by cases f <;> decide

theorem names_nodup : (all.map name).Nodup := by decide

theorem name_injective : Function.Injective name := by
  intro f g h
  exact List.inj_on_of_nodup_map names_nodup (mem_all f) (mem_all g) h

end StatusField

namespace Status

/-- The record with these field values. -/
def ofFields (g : (f : StatusField) → f.Value) : Status where
  phase := g .phase
  conditions := g .conditions
  lastAppliedRevision := g .lastAppliedRevision
  compiledRevision := g .compiledRevision
  compiledAt := g .compiledAt
  observedHeadRevision := g .observedHeadRevision
  lastFreshnessCheckAt := g .lastFreshnessCheckAt
  lastPlannedAt := g .lastPlannedAt
  lastAppliedAt := g .lastAppliedAt
  lastDriftCheckAt := g .lastDriftCheckAt
  resources := g .resources
  outputs := g .outputs
  planSummary := g .planSummary
  stateKey := g .stateKey
  observedGeneration := g .observedGeneration
  acknowledgedGeneration := g .acknowledgedGeneration
  pass := g .pass
  lastReconcileRequestHandled := g .lastReconcileRequestHandled
  failureCount := g .failureCount
  lastError := g .lastError
  driftDetails := g .driftDetails
  driftFingerprint := g .driftFingerprint
  driftTotal := g .driftTotal
  observedSpecDigest := g .observedSpecDigest
  pendingPlanHash := g .pendingPlanHash
  approvedPlanHash := g .approvedPlanHash
  compliance := g .compliance
  policyEvaluation := g .policyEvaluation
  consecutiveDriftCycles := g .consecutiveDriftCycles
  consecutiveCompileFailures := g .consecutiveCompileFailures
  stuckResources := g .stuckResources
  cycleCount := g .cycleCount
  lastCycle := g .lastCycle
  phaseEnteredAt := g .phaseEnteredAt
  applyCursorCount := g .applyCursorCount
  applyCursorAdvancedAt := g .applyCursorAdvancedAt
  verifiedBlockedSince := g .verifiedBlockedSince
  autoSuspended := g .autoSuspended
  lastEscalatedAt := g .lastEscalatedAt
  lastEscalationReason := g .lastEscalationReason
  executor := g .executor
  backend := g .backend
  progress := g .progress
  recentEvents := g .recentEvents
  pendingCreates := g .pendingCreates
  generationLagSince := g .generationLagSince
  preflight := g .preflight
  reactions := g .reactions
  leaf := g .leaf
  rateLimitedUntil := g .rateLimitedUntil

@[simp] theorem get_ofFields (g : (f : StatusField) → f.Value) (f : StatusField) :
    f.get (ofFields g) = g f := by
  cases f <;> rfl

theorem ext_get {s t : Status} (h : ∀ f : StatusField, f.get s = f.get t) : s = t := by
  have hf : (fun f : StatusField => f.get s) = fun f => f.get t := funext h
  exact congrArg ofFields hf

/-- The wire form of one field, absent when serde skips it. -/
def wire (s : Status) (f : StatusField) : Option Doc := f.slot.put (f.get s)

def toJson (s : Status) : Doc := record (StatusField.all.map (fun f => (f.name, s.wire f)))

@[simp] theorem get?_toJson (s : Status) (f : StatusField) : s.toJson.get? f.name = s.wire f := by
  refine lookup_written ?_ (List.mem_map.mpr ⟨f, f.mem_all, rfl⟩)
  rw [List.map_map]
  exact StatusField.names_nodup

/-- Reading a stored document: every field has to decode. -/
def read (v : Doc) : Option Status :=
  if h : StatusField.all.all (fun f => (f.slot.take (v.get? f.name)).isSome) = true then
    some (ofFields (fun f => (f.slot.take (v.get? f.name)).get
      (List.all_eq_true.mp h f f.mem_all)))
  else none

theorem read_eq_some_iff {v : Doc} {s : Status} :
    read v = some s ↔ ∀ f : StatusField, f.slot.take (v.get? f.name) = some (f.get s) := by
  unfold read
  constructor
  · intro h f
    split at h
    · cases h
      simp
    · simp at h
  · intro h
    have hall : StatusField.all.all (fun f => (f.slot.take (v.get? f.name)).isSome) = true := by
      simp [h]
    rw [dif_pos hall]
    refine congrArg some (ext_get (fun f => ?_))
    simp [h]

@[simp] theorem read_toJson (s : Status) : read s.toJson = some s := by
  rw [read_eq_some_iff]
  intro f
  rw [get?_toJson]
  exact f.slot.take_put _

end Status

/-- A patch body: `status` with the members of the fields that have something to send. -/
def statusBody (fs : List (StatusField × Option Doc)) : Doc :=
  .obj [("status", record (fs.map (fun m => (m.1.name, m.2))))]

/-- `patch_status`: the merge patch on the object, seen at its `status`. -/
def patchStatus (stored body : Doc) : Doc :=
  ((mergePatch (.obj [("status", stored)]) body).get? "status").getD .null

/-- What the patch sends for a field. -/
def sent (fs : List (StatusField × Option Doc)) (f : StatusField) : Option Doc :=
  (fs.find? (fun m => m.1 = f)).bind Prod.snd

theorem patchStatus_statusBody (stored : Doc) (fs : List (StatusField × Option Doc)) :
    patchStatus stored (statusBody fs) =
      mergePatch stored (record (fs.map (fun m => (m.1.name, m.2)))) := by
  simp [patchStatus, statusBody, record, mergePatch, mergeMembers, mergeMember, members, Json.set,
    get?]

theorem sent_of_mem {fs : List (StatusField × Option Doc)} (hn : (fs.map Prod.fst).Nodup)
    {f : StatusField} {o : Option Doc} (h : (f, o) ∈ fs) : sent fs f = o := by
  induction fs with
  | nil => simp at h
  | cons m fs ih =>
    obtain ⟨g, p⟩ := m
    simp only [List.map_cons, List.nodup_cons] at hn
    rcases List.mem_cons.mp h with he | h
    · cases he
      simp [sent]
    · have hg : g ≠ f := by
        rintro rfl
        exact hn.1 (List.mem_map.mpr ⟨_, h, rfl⟩)
      rw [← ih hn.2 h]
      simp [sent, hg]

theorem sent_of_not_mem {fs : List (StatusField × Option Doc)} {f : StatusField}
    (h : f ∉ fs.map Prod.fst) : sent fs f = none := by
  have hf : fs.find? (fun m => m.1 = f) = none := by
    rw [List.find?_eq_none]
    intro m hm he
    exact h (List.mem_map.mpr ⟨m, hm, by simpa using he⟩)
  rw [sent, hf]
  rfl

theorem lookup_sent (fs : List (StatusField × Option Doc)) (hn : (fs.map Prod.fst).Nodup)
    (f : StatusField) :
    lookup f.name (written (fs.map (fun m => (m.1.name, m.2)))) = sent fs f := by
  have hnames : ((fs.map (fun m => (m.1.name, m.2))).map Prod.fst).Nodup := by
    have := hn.map StatusField.name_injective
    rwa [List.map_map] at this ⊢
  by_cases hf : f ∈ fs.map Prod.fst
  · obtain ⟨⟨g, o⟩, hm, rfl⟩ := List.mem_map.mp hf
    rw [sent_of_mem hn hm]
    exact lookup_written hnames (List.mem_map.mpr ⟨_, hm, rfl⟩)
  · rw [sent_of_not_mem hf]
    refine lookup_written_eq_none (fun hk => hf ?_)
    simp only [List.map_map, List.mem_map, Function.comp_apply] at hk
    obtain ⟨m, hm, he⟩ := hk
    exact List.mem_map.mpr ⟨m, hm, StatusField.name_injective he⟩

/-- Field by field, a patch acts on the stored member alone. -/
theorem get?_patchStatus (stored : Doc) (fs : List (StatusField × Option Doc))
    (hn : (fs.map Prod.fst).Nodup) (f : StatusField) :
    (patchStatus stored (statusBody fs)).get? f.name =
      mergeSlot (stored.get? f.name) (sent fs f) := by
  have hnames : ((fs.map (fun m => (m.1.name, m.2))).map Prod.fst).Nodup := by
    have := hn.map StatusField.name_injective
    rwa [List.map_map] at this ⊢
  rw [patchStatus_statusBody, get?_mergePatch_record stored hnames, lookup_sent fs hn]

/-- The record read back after a patch, given what each field decodes to. -/
theorem read_patchStatus {stored : Doc} {t : Status} {fs : List (StatusField × Option Doc)}
    (hn : (fs.map Prod.fst).Nodup)
    (h : ∀ f : StatusField,
      f.slot.take (mergeSlot (stored.get? f.name) (sent fs f)) = some (f.get t)) :
    Status.read (patchStatus stored (statusBody fs)) = some t := by
  rw [Status.read_eq_some_iff]
  intro f
  rw [get?_patchStatus stored fs hn f]
  exact h f

/-- A document that reads as a status, the invariant of a run. -/
def Reads (stored : Doc) : Prop := ∃ s, Status.read stored = some s

/-- A patch body that leaves a field of every document alone. -/
def Frames (body : Doc) (f : StatusField) : Prop :=
  ∀ stored, (patchStatus stored body).get? f.name = stored.get? f.name

/-- A patch body after which a readable document still reads. -/
def KeepsReadable (body : Doc) : Prop := ∀ stored, Reads stored → Reads (patchStatus stored body)

theorem frames_statusBody {fs : List (StatusField × Option Doc)} (hn : (fs.map Prod.fst).Nodup)
    {f : StatusField} (hf : f ∉ fs.map Prod.fst) : Frames (statusBody fs) f := by
  intro stored
  rw [get?_patchStatus stored fs hn, sent_of_not_mem hf]
  rfl

/-- What is sent for a field decodes, whatever it is merged into. -/
def Decodes (f : StatusField) (v : Option Doc) : Prop :=
  ∀ d, v = some d → ∀ w, ∃ x, f.slot.take (mergeSlot w (some d)) = some x

theorem decodes_none (f : StatusField) : Decodes f none := by
  intro d h
  cases h

theorem keepsReadable_statusBody {fs : List (StatusField × Option Doc)}
    (hn : (fs.map Prod.fst).Nodup) (h : ∀ m ∈ fs, Decodes m.1 m.2) :
    KeepsReadable (statusBody fs) := by
  rintro stored ⟨s, hs⟩
  rw [Status.read_eq_some_iff] at hs
  have hfield (f : StatusField) :
      ∃ x, f.slot.take (mergeSlot (stored.get? f.name) (sent fs f)) = some x := by
    cases hd : sent fs f with
    | none => exact ⟨_, hs f⟩
    | some d =>
      obtain ⟨m, hm, hmd⟩ := Option.bind_eq_some_iff.mp hd
      have hf : m.1 = f := by simpa using List.find?_some hm
      subst hf
      exact h m (List.mem_of_find?_eq_some hm) d hmd _
  choose g hg using hfield
  refine ⟨.ofFields g, read_patchStatus hn (fun f => ?_)⟩
  rw [hg, Status.get_ofFields]

end PangeaOperator
