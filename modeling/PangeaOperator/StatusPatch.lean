import PangeaOperator.PhaseUpdate
import PangeaOperator.Settling

/-!
# Field-scoped status patches

The plan, apply and settling writers of `controller/template/status.rs`. Each mutates
a copy of the reconcile's snapshot and sends the members of a hand-kept list of
names, as serde writes them. `Realises` is what such a patch is meant to do to the
stored status; the theorem at the end says when each writer does it.
-/

namespace PangeaOperator

open Json

/-- How many drift entries the status carries. -/
def driftStatusCap : Nat := 50

def scopedStatusPatch (status : Status) (names : List StatusField) : Doc :=
  statusBody (names.map (fun f => (f, status.wire f)))

def planStatusFields : List StatusField :=
  [.resources, .planSummary, .lastPlannedAt, .driftDetails, .policyEvaluation]

/-- The status a plan update builds. -/
def planStatus (prev : Status) (resources : Option ResourceSummary) (planSummary : Option String)
    (driftDetails : List DriftDetail) (policyEvaluation : Option PolicyEvaluation) (now : Time) :
    Status :=
  { prev with
    resources
    planSummary
    lastPlannedAt := some now
    driftTotal := driftDetails.length % 2 ^ 32
    driftDetails := driftDetails.take driftStatusCap
    policyEvaluation }

def buildPlanStatusPatch (prev : Status) (resources : Option ResourceSummary)
    (planSummary : Option String) (driftDetails : List DriftDetail)
    (policyEvaluation : Option PolicyEvaluation) (now : Time) : Doc :=
  scopedStatusPatch (planStatus prev resources planSummary driftDetails policyEvaluation now)
    planStatusFields

def applyStatusFields : List StatusField :=
  [.outputs, .lastAppliedAt, .lastAppliedRevision, .observedHeadRevision, .pendingPlanHash,
    .approvedPlanHash, .conditions]

def buildApplyStatus (status : Status) (outputs : Option Members) (revision : Option String)
    (now : Time) : Status :=
  { status with
    outputs
    lastAppliedAt := some now
    lastAppliedRevision := revision.or status.lastAppliedRevision
    observedHeadRevision := revision.or status.observedHeadRevision
    pendingPlanHash := none
    approvedPlanHash := none
    conditions := conditionsForPhase .ready none
      (if revision.isSome then .fresh else .notApplicable) now }

/-- The status `update_apply_status` sends a part of. -/
def applyStatus (prev : Status) (outputs : Option Members) (revision : Option String) (live : Int)
    (now : Time) : Status :=
  let status := buildApplyStatus prev outputs revision now
  let pass := (status.storedPass now).observe live now
  { status with
    conditions := projectConditions status.conditions pass
      (pass.observedGeneration status.observedGeneration) live now }

def updateApplyStatus (prev : Status) (outputs : Option Members) (revision : Option String)
    (live : Int) (now : Time) : Doc :=
  scopedStatusPatch (applyStatus prev outputs revision live now) applyStatusFields

inductive Freshness where
  | fresh
  | stale (compiled : Option String) (head : String)
  | unknown
  deriving DecidableEq, Repr

def settledMessage (compiledRev : Option String) (freshness : Option Freshness) : String :=
  match compiledRev, freshness with
  | some rev, some .fresh =>
    s!"Drift check found no changes against compiled revision {rev} (HEAD: {rev})."
  | some rev, some .unknown =>
    s!"Drift check found no changes against compiled revision {rev} (HEAD: unverified)."
  | some rev, some (.stale _ head) =>
    s!"Drift check found no changes against compiled revision {rev} (HEAD: {head} — STALE; recompile pending)."
  | some rev, none => s!"Drift check found no changes against compiled revision {rev}."
  | none, _ => "Drift check found no changes — desired state matches actual state."

/-- Status, reason and message of the `Settled` condition. -/
def settledVerdict (prev : Status) (outcome : SettlingOutcome) (freshness : Option Freshness) :
    String × String × String :=
  match outcome with
  | .settled => ("True", "Settled", settledMessage prev.compiledRevision freshness)
  | .progressing cycles =>
    ("False", "Reconciling", s!"Drift detected; reconciling (cycle {cycles}).")
  | .stuckByFingerprint cycles fingerprint _ =>
    ("False", "StuckByFingerprint",
      s!"Drift fingerprint {fingerprint} unchanged across {cycles} cycle(s) — system is not converging.")
  | .stuckByCount cycles _ =>
    ("False", "StuckByCount",
      s!"Exceeded max consecutive drift cycles ({cycles}) without settling.")

def settledCondition (prev : Status) (outcome : SettlingOutcome) (freshness : Option Freshness)
    (now : Time) : Condition :=
  let (status, reason, message) := settledVerdict prev outcome freshness
  let transition := match prev.conditions.find? (fun c => c.type = "Settled") with
    | some p =>
      if p.status = status ∧ p.reason = reason ∧ p.message = message then p.lastTransitionTime
      else now
    | none => now
  ⟨"Settled", status, transition, reason, message, none⟩

def settlingConditions (prev : Status) (outcome : SettlingOutcome) (freshness : Option Freshness)
    (live : Int) (now : Time) : List Condition :=
  let pass := PassPhase.settled prev.acknowledged
  mergeConditionTransitions prev.conditions
    (projectConditions
      (prev.conditions.filter (fun c => c.type ≠ "Settled") ++
        [settledCondition prev outcome freshness now])
      pass (pass.observedGeneration prev.observedGeneration) live now)

/-- Whether a settling update rewrites the drift list, its total and its fingerprint. -/
def rewritesDrift (outcome : SettlingOutcome) (driftDetails : List DriftDetail) : Bool :=
  !driftDetails.isEmpty || outcome == .settled

/-- The status a settling update builds, before it stamps the check. -/
def settlingStatus (prev : Status) (outcome : SettlingOutcome) (driftDetails : List DriftDetail)
    (freshness : Option Freshness) (live : Int) (now : Time) : Status :=
  let status := { prev with
    consecutiveDriftCycles := outcome.cycleCount
    stuckResources := outcome.stuckAddresses
    conditions := settlingConditions prev outcome freshness live now }
  if !driftDetails.isEmpty then
    { status with
      driftFingerprint := some (fingerprint driftDetails)
      driftTotal := driftDetails.length % 2 ^ 32
      driftDetails := driftDetails.take driftStatusCap }
  else if outcome == .settled then
    { status with driftDetails := [], driftFingerprint := none, driftTotal := 0 }
  else status

def conditionChanged (p n : Condition) : Bool :=
  p.type ≠ n.type || p.status ≠ n.status || p.reason ≠ n.reason || p.message ≠ n.message ||
    p.lastTransitionTime ≠ n.lastTransitionTime

def settlingStatusNeedsPatch (prev new : Status) : Bool :=
  prev.driftDetails ≠ new.driftDetails ||
    prev.consecutiveDriftCycles ≠ new.consecutiveDriftCycles ||
    prev.stuckResources ≠ new.stuckResources ||
    prev.conditions.length ≠ new.conditions.length ||
    (prev.conditions.zip new.conditions).any (fun pn => conditionChanged pn.1 pn.2)

def settlingStatusFields : List StatusField :=
  [.consecutiveDriftCycles, .stuckResources, .driftDetails, .conditions, .lastDriftCheckAt]

/-- The settling patch, or nothing when the snapshot already says the same. -/
def buildSettlingStatusPatch (prev : Status) (outcome : SettlingOutcome)
    (driftDetails : List DriftDetail) (freshness : Option Freshness) (live : Int) (now : Time) :
    Option Doc :=
  let status := settlingStatus prev outcome driftDetails freshness live now
  if settlingStatusNeedsPatch prev status then
    some (scopedStatusPatch { status with lastDriftCheckAt := some now } settlingStatusFields)
  else none

/-- The merged document holds the builder's value in every field it assigned, a `None` as an
absent member, and the stored value in every other field. -/
def Realises (assigned : List StatusField) (target stored : Status) (merged : Doc) : Prop :=
  ∀ f : StatusField, Option.Rel Same (merged.get? f.name)
    (if f ∈ assigned then target.wire f else stored.wire f)

theorem rel_same_refl (v : Option Doc) : Option.Rel Same v v := by
  cases v with
  | none => exact .none
  | some v => exact .some (same_refl v)

theorem sent_scoped (target : Status) (names : List StatusField) (f : StatusField) :
    sent (names.map (fun f => (f, target.wire f))) f =
      if f ∈ names then target.wire f else none := by
  induction names with
  | nil => rfl
  | cons g names ih =>
    by_cases hg : g = f
    · subst hg
      simp [sent]
    · have hf : f ≠ g := Ne.symm hg
      simp only [List.mem_cons, hf, false_or, ← ih]
      simp [sent, hg]

/-- A scoped patch merges the named fields and leaves the others. -/
theorem get?_scopedStatusPatch (stored target : Status) {names : List StatusField}
    (hn : names.Nodup) (f : StatusField) :
    (patchStatus stored.toJson (scopedStatusPatch target names)).get? f.name =
      if f ∈ names then mergeSlot (stored.wire f) (target.wire f) else stored.wire f := by
  have hfst : ((names.map (fun f => (f, target.wire f))).map Prod.fst).Nodup := by
    simpa [List.map_map, Function.comp_def] using hn
  rw [scopedStatusPatch, get?_patchStatus _ _ hfst, sent_scoped, Status.get?_toJson]
  split
  · rfl
  · rfl

section Slots

variable {α : Type} {c : Codec α}

/-- A cleared option is left out of the patch, so the stored value survives. -/
theorem rel_optional_iff (hc : c.Flat) (s t : Option α) :
    Option.Rel Same (mergeSlot ((Slot.optional c).put s) ((Slot.optional c).put t))
        ((Slot.optional c).put t) ↔ (t = none → s = none) := by
  cases t with
  | none =>
    cases s with
    | none => exact iff_of_true .none (fun _ => rfl)
    | some a => exact iff_of_false (fun h => by cases h) (fun h => by cases h rfl)
  | some b =>
    refine iff_of_true ?_ (fun h => by cases h)
    have hm := mergeSlot_enc hc ((Slot.optional c).put s) b
    exact hm ▸ rel_same_refl _

theorem rel_withDefault (hc : c.Flat) (d s t : α) :
    Option.Rel Same (mergeSlot ((Slot.withDefault c d).put s) ((Slot.withDefault c d).put t))
      ((Slot.withDefault c d).put t) := by
  have hm := mergeSlot_enc hc (some (c.enc s)) t
  exact hm ▸ rel_same_refl _

theorem rel_nonempty (s : List α) {t : List α} (ht : t ≠ []) :
    Option.Rel Same (mergeSlot ((Slot.nonempty c).put s) ((Slot.nonempty c).put t))
      ((Slot.nonempty c).put t) := by
  have hp : (Slot.nonempty c).put t = some (c.list.enc t) := by
    cases t with
    | nil => exact absurd rfl ht
    | cons a t => rfl
  rw [hp, mergeSlot_enc c.list_flat]
  exact rel_same_refl _

theorem rel_optional_text_iff (s t : Option String) :
    Option.Rel Same ((Slot.optional .string).put s) ((Slot.optional .string).put t) ↔ s = t := by
  constructor
  · intro h
    cases s with
    | none =>
      cases t with
      | none => rfl
      | some b => cases h
    | some a =>
      cases t with
      | none => cases h
      | some b =>
        cases h with
        | some h => cases h; rfl
  · rintro rfl
    exact rel_same_refl _

/-- A snapshot value that is sent though the builder did not assign it. -/
theorem rel_optional_text_keep_iff (s t : Option String) :
    Option.Rel Same (mergeSlot ((Slot.optional .string).put s) ((Slot.optional .string).put t))
        ((Slot.optional .string).put s) ↔ t = none ∨ t = s := by
  cases t with
  | none => exact iff_of_true (rel_same_refl _) (.inl rfl)
  | some b =>
    have hm := mergeSlot_enc Codec.string_flat ((Slot.optional .string).put s) b
    have hp : (Slot.optional Codec.string).put (some b) = some (Codec.string.enc b) := rfl
    rw [hp, hm, ← hp, rel_optional_text_iff]
    simp

theorem rel_nat_iff (s t : Nat) :
    Option.Rel Same ((Slot.withDefault .nat 0).put s) ((Slot.withDefault .nat 0).put t) ↔
      s = t := by
  constructor
  · intro h
    cases h with
    | some h =>
      simp only [Codec.nat] at h
      cases h
      rfl
  · rintro rfl
    exact rel_same_refl _

end Slots

/-- An object is reached exactly when it overwrites the stored one. -/
theorem rel_optional_object_iff {α : Type} (c : Codec α) (s t : Option α)
    (hd : ∀ b, t = some b → DistinctKeys (c.enc b)) :
    Option.Rel Same (mergeSlot ((Slot.optional c).put s) ((Slot.optional c).put t))
        ((Slot.optional c).put t) ↔
      (t = none → s = none) ∧
        ∀ b, t = some b → overwrites (c.enc b) ((s.map c.enc).getD .null) = true := by
  cases t with
  | none =>
    cases s with
    | none => exact iff_of_true .none ⟨fun _ => rfl, fun b h => by cases h⟩
    | some a => exact iff_of_false (fun h => by cases h) (fun h => Option.some_ne_none a (h.1 rfl))
  | some b =>
    have hp : (Slot.optional c).put (some b) = some (c.enc b) := rfl
    rw [hp, mergeSlot_some (c.enc_ne_null b)]
    constructor
    · intro h
      refine ⟨(fun h => by cases h), ?_⟩
      intro b' hb
      cases hb
      cases h with
      | some h => exact (same_mergePatch_iff _ _ (hd b rfl)).mp h
    · intro h
      exact .some ((same_mergePatch_iff _ _ (hd b rfl)).mpr (h.2 b rfl))

theorem ResourceSummary.plain_fields (r : ResourceSummary) (k : String) (v : Doc)
    (h : (k, some v) ∈ r.fields) : Plain v := by
  simp only [fields, Slot.withDefault, List.mem_cons, Prod.mk.injEq, Option.some.injEq,
    List.not_mem_nil, or_false] at h
  rcases h with ⟨_, rfl⟩ | ⟨_, rfl⟩ | ⟨_, rfl⟩ | ⟨_, rfl⟩ <;> exact Codec.nat_flat.plain _

theorem PolicyEvaluation.plain_fields (e : PolicyEvaluation) (k : String) (v : Doc)
    (h : (k, some v) ∈ e.fields) : Plain v := by
  simp only [fields, Slot.withDefault, Slot.required, Slot.nonempty, List.mem_cons, Prod.mk.injEq,
    Option.some.injEq, List.not_mem_nil, or_false] at h
  rcases h with ⟨_, rfl⟩ | ⟨_, rfl⟩ | ⟨_, rfl⟩ | ⟨_, rfl⟩ | ⟨_, h⟩ | ⟨_, rfl⟩
  · exact Codec.string_flat.plain _
  · exact Codec.nat_flat.plain _
  · exact Codec.nat_flat.plain _
  · exact Codec.nat_flat.plain _
  · split at h
    · cases h
    · cases h
      exact (Codec.list_flat _).plain _
  · exact Codec.nat_flat.plain _

theorem distinctKeys_texts (ts : List String) : DistinctKeys ((Codec.list .string).enc ts) := by
  refine .arr ?_
  intro v hv
  obtain ⟨t, _, rfl⟩ := List.mem_map.mp hv
  exact .str t

theorem ResourceSummary.distinctKeys_enc (r : ResourceSummary) :
    DistinctKeys (ResourceSummary.codec.enc r) := by
  refine distinctKeys_record (by simp [fields]) ?_
  intro k v h
  simp only [fields, Slot.withDefault, List.mem_cons, Prod.mk.injEq, Option.some.injEq,
    List.not_mem_nil, or_false] at h
  rcases h with ⟨_, rfl⟩ | ⟨_, rfl⟩ | ⟨_, rfl⟩ | ⟨_, rfl⟩ <;> exact .num _

theorem PolicyEvaluation.distinctKeys_enc (e : PolicyEvaluation) :
    DistinctKeys (PolicyEvaluation.codec.enc e) := by
  refine distinctKeys_record (by simp [fields]) ?_
  intro k v h
  simp only [fields, Slot.withDefault, Slot.required, Slot.nonempty, List.mem_cons, Prod.mk.injEq,
    Option.some.injEq, List.not_mem_nil, or_false] at h
  rcases h with ⟨_, rfl⟩ | ⟨_, rfl⟩ | ⟨_, rfl⟩ | ⟨_, rfl⟩ | ⟨_, h⟩ | ⟨_, rfl⟩
  · exact .str _
  · exact .num _
  · exact .num _
  · exact .num _
  · split at h
    · cases h
    · cases h
      exact distinctKeys_texts _
  · exact .num _

theorem overwrites_null {v : Doc} {fs : List (String × Option Doc)} (hv : v = record fs)
    (hp : ∀ k v, (k, some v) ∈ fs → Plain v) : overwrites v .null = true := by
  have h := (overwrites_record_iff hp []).mpr (fun k v h => by simp at h)
  rw [hv]
  exact h

theorem rel_resources_iff (s t : Option ResourceSummary) :
    Option.Rel Same
        (mergeSlot ((Slot.optional ResourceSummary.codec).put s)
          ((Slot.optional ResourceSummary.codec).put t))
        ((Slot.optional ResourceSummary.codec).put t) ↔ (t = none → s = none) := by
  rw [rel_optional_object_iff _ s t (fun b _ => b.distinctKeys_enc)]
  refine and_iff_left_of_imp (fun _ b _ => ?_)
  cases s with
  | none => exact overwrites_null rfl b.plain_fields
  | some a =>
    refine (overwrites_record_iff b.plain_fields a.fields).mpr ?_
    intro k v h
    simp only [ResourceSummary.fields, List.mem_cons, Prod.mk.injEq, List.not_mem_nil,
      or_false] at h
    rcases h with ⟨rfl, _⟩ | ⟨rfl, _⟩ | ⟨rfl, _⟩ | ⟨rfl, _⟩ <;>
      simp [ResourceSummary.fields, Slot.withDefault]

theorem PolicyEvaluation.overwrites_iff (a b : PolicyEvaluation) :
    overwrites (PolicyEvaluation.codec.enc b) (PolicyEvaluation.codec.enc a) = true ↔
      (b.refusedAddresses = [] → a.refusedAddresses = []) := by
  have hlookup (e : PolicyEvaluation) : lookup "refusedAddresses" (written e.fields) =
      (Slot.nonempty .string).put e.refusedAddresses := by
    simp [fields]
  have hnone (ts : List String) : (Slot.nonempty Codec.string).put ts = none ↔ ts = [] := by
    cases ts <;> simp [Slot.nonempty]
  refine (overwrites_record_iff b.plain_fields a.fields).trans ?_
  constructor
  · intro h hb
    by_contra ha
    obtain ⟨v, hv⟩ := Option.ne_none_iff_exists'.mp (mt (hnone _).mp ha)
    refine h "refusedAddresses" v ?_ (by rw [hlookup, hb]; rfl)
    simp [fields, hv]
  · intro h k v hm
    simp only [fields, List.mem_cons, Prod.mk.injEq, List.not_mem_nil, or_false] at hm
    rcases hm with ⟨rfl, _⟩ | ⟨rfl, _⟩ | ⟨rfl, _⟩ | ⟨rfl, _⟩ | ⟨rfl, hv⟩ | ⟨rfl, _⟩
    · simp [fields, Slot.required]
    · simp [fields, Slot.withDefault]
    · simp [fields, Slot.withDefault]
    · simp [fields, Slot.withDefault]
    · rw [hlookup]
      intro hb
      rw [(hnone _).mpr (h ((hnone _).mp hb))] at hv
      cases hv
    · simp [fields, Slot.withDefault]

/-- An evaluation without refused addresses does not send the member that would clear them. -/
theorem rel_policyEvaluation_iff (s t : Option PolicyEvaluation) :
    Option.Rel Same
        (mergeSlot ((Slot.optional PolicyEvaluation.codec).put s)
          ((Slot.optional PolicyEvaluation.codec).put t))
        ((Slot.optional PolicyEvaluation.codec).put t) ↔
      (t = none → s = none) ∧ ∀ a b, s = some a → t = some b →
        b.refusedAddresses = [] → a.refusedAddresses = [] := by
  rw [rel_optional_object_iff _ s t (fun b _ => b.distinctKeys_enc)]
  refine and_congr_right (fun _ => ?_)
  cases s with
  | none =>
    refine iff_of_true (fun b _ => overwrites_null rfl b.plain_fields) ?_
    intro a b h
    cases h
  | some a =>
    constructor
    · intro h a' b ha hb
      cases ha
      exact (PolicyEvaluation.overwrites_iff a b).mp (h b hb)
    · intro h b hb
      exact (PolicyEvaluation.overwrites_iff a b).mpr (h a b rfl hb)

theorem eq_of_forall₂_same {α : Type} {enc : α → Doc} (h : ∀ a b, Same (enc a) (enc b) → a = b)
    {as bs : List α} (hs : List.Forall₂ Same (as.map enc) (bs.map enc)) : as = bs := by
  induction as generalizing bs with
  | nil => cases bs <;> cases hs; rfl
  | cons a as ih =>
    cases bs with
    | nil => cases hs
    | cons b bs =>
      cases hs with
      | cons hab hrest => rw [h a b hab, ih hrest]

theorem rel_nonempty_text_iff (s t : List String) :
    Option.Rel Same ((Slot.nonempty .string).put s) ((Slot.nonempty .string).put t) ↔ s = t := by
  constructor
  · intro h
    cases s with
    | nil => cases t <;> cases h; rfl
    | cons a s =>
      cases t with
      | nil => cases h
      | cons b t =>
        cases h with
        | some h =>
          cases h with
          | arr h => exact eq_of_forall₂_same (fun a b h => by cases h; rfl) h
  · rintro rfl
    exact rel_same_refl _

theorem same_required_text {s t : String}
    (h : Option.Rel Same ((Slot.required .string).put s) ((Slot.required .string).put t)) :
    s = t := by
  cases h with
  | some h => cases h; rfl

/-- The wire form of a drift entry determines it. -/
theorem DriftDetail.eq_of_same {d e : DriftDetail}
    (h : Same (DriftDetail.codec.enc d) (DriftDetail.codec.enc e)) : d = e := by
  have hk := same_obj_iff.mp h
  have haddress := hk "address"
  have haction := hk "action"
  have hrisk := hk "risk"
  have hattributes := hk "attributes"
  have hdecision := hk "policyDecision"
  have hpolicy := hk "matchedPolicy"
  simp only [fields, lookup_written_cons, lookup_written_nil, String.reduceEq, if_true, if_false,
    Option.or_none] at haddress haction hrisk hattributes hdecision hpolicy
  obtain ⟨address, action, risk, attributes, policyDecision, matchedPolicy⟩ := d
  rw [DriftDetail.mk.injEq]
  exact ⟨same_required_text haddress, same_required_text haction, same_required_text hrisk,
    (rel_nonempty_text_iff _ _).mp hattributes, (rel_optional_text_iff _ _).mp hdecision,
    (rel_optional_text_iff _ _).mp hpolicy⟩

theorem rel_driftDetails_keep_iff (s t : List DriftDetail) :
    Option.Rel Same
        (mergeSlot ((Slot.withDefault (.list DriftDetail.codec) []).put s)
          ((Slot.withDefault (.list DriftDetail.codec) []).put t))
        ((Slot.withDefault (.list DriftDetail.codec) []).put s) ↔ t = s := by
  have hput (ds : List DriftDetail) : (Slot.withDefault (.list DriftDetail.codec) []).put ds =
      some ((Codec.list DriftDetail.codec).enc ds) := rfl
  rw [hput, hput, mergeSlot_enc (Codec.list_flat DriftDetail.codec)]
  constructor
  · intro h
    cases h with
    | some h =>
      cases h with
      | arr h => exact eq_of_forall₂_same (fun d e => DriftDetail.eq_of_same) h
  · rintro rfl
    exact rel_same_refl _

def planAssigned : List StatusField :=
  [.resources, .planSummary, .lastPlannedAt, .driftTotal, .driftDetails, .policyEvaluation]

/-- When the plan writer realises its status: nothing it clears is stored, the stored total is
already right, and no refused address is left from an earlier evaluation. -/
structure PlanRealised (stored : Status) (resources : Option ResourceSummary)
    (planSummary : Option String) (driftDetails : List DriftDetail)
    (policyEvaluation : Option PolicyEvaluation) : Prop where
  noResources : resources = none → stored.resources = none
  noSummary : planSummary = none → stored.planSummary = none
  total : stored.driftTotal = driftDetails.length % 2 ^ 32
  noEvaluation : policyEvaluation = none → stored.policyEvaluation = none
  refused : ∀ a b, stored.policyEvaluation = some a → policyEvaluation = some b →
    b.refusedAddresses = [] → a.refusedAddresses = []

def applyAssigned (revision : Option String) : List StatusField :=
  [.outputs, .lastAppliedAt, .pendingPlanHash, .approvedPlanHash, .conditions] ++
    (if revision.isSome then [.lastAppliedRevision, .observedHeadRevision] else [])

/-- When the apply writer realises its status: no output and no plan hash is stored that it would
have to clear, and without a revision the snapshot's revisions are not stale. -/
structure ApplyRealised (prev stored : Status) (outputs : Option Members)
    (revision : Option String) : Prop where
  noOutputs : outputs = none → stored.outputs = none
  outputs : ∀ o, outputs = some o →
    overwrites (.obj o) ((stored.outputs.map Json.obj).getD .null) = true
  pending : stored.pendingPlanHash = none
  approved : stored.approvedPlanHash = none
  applied : revision = none →
    prev.lastAppliedRevision = none ∨ prev.lastAppliedRevision = stored.lastAppliedRevision
  head : revision = none →
    prev.observedHeadRevision = none ∨ prev.observedHeadRevision = stored.observedHeadRevision

def settlingAssigned (outcome : SettlingOutcome) (driftDetails : List DriftDetail) :
    List StatusField :=
  [.consecutiveDriftCycles, .stuckResources, .conditions, .lastDriftCheckAt] ++
    (if rewritesDrift outcome driftDetails then [.driftFingerprint, .driftTotal, .driftDetails]
      else [])

/-- When the settling writer realises its status: the stored fingerprint and total are already
those of the new drift list, and a list it does not rewrite is not stale in the snapshot. -/
structure SettlingRealised (prev stored : Status) (outcome : SettlingOutcome)
    (driftDetails : List DriftDetail) : Prop where
  fingerprint : rewritesDrift outcome driftDetails = true →
    stored.driftFingerprint =
      if driftDetails = [] then none else some (fingerprint driftDetails)
  total : rewritesDrift outcome driftDetails = true →
    stored.driftTotal = driftDetails.length % 2 ^ 32
  details : rewritesDrift outcome driftDetails = false → prev.driftDetails = stored.driftDetails

theorem projectConditions_ne_nil (conditions : List Condition) (pass : PassPhase)
    (observed live : Int) (now : Time) :
    projectConditions conditions pass observed live now ≠ [] := by
  simp [projectConditions]

theorem mergeConditionTransitions_ne_nil (prev : List Condition) {new : List Condition}
    (h : new ≠ []) : mergeConditionTransitions prev new ≠ [] := by
  simpa [mergeConditionTransitions] using h

section Writers

variable (prev stored : Status) (now : Time)

theorem plan_realises_iff (resources : Option ResourceSummary) (planSummary : Option String)
    (driftDetails : List DriftDetail) (policyEvaluation : Option PolicyEvaluation) :
    Realises planAssigned
        (planStatus prev resources planSummary driftDetails policyEvaluation now) stored
        (patchStatus stored.toJson
          (buildPlanStatusPatch prev resources planSummary driftDetails policyEvaluation now)) ↔
      PlanRealised stored resources planSummary driftDetails policyEvaluation := by
  unfold Realises buildPlanStatusPatch
  simp only [get?_scopedStatusPatch stored _ (show planStatusFields.Nodup by decide)]
  constructor
  · intro h
    refine ⟨?_, ?_, ?_, ?_, ?_⟩
    · exact (rel_resources_iff _ _).mp (h .resources)
    · exact (rel_optional_iff Codec.string_flat _ _).mp (h .planSummary)
    · exact (rel_nat_iff _ _).mp (h .driftTotal)
    · exact ((rel_policyEvaluation_iff _ _).mp (h .policyEvaluation)).1
    · exact ((rel_policyEvaluation_iff _ _).mp (h .policyEvaluation)).2
  · intro h f
    cases f
    case resources => exact (rel_resources_iff _ _).mpr h.noResources
    case planSummary => exact (rel_optional_iff Codec.string_flat _ _).mpr h.noSummary
    case lastPlannedAt =>
      exact (rel_optional_iff Codec.time_flat stored.lastPlannedAt (some now)).mpr (by simp)
    case driftTotal => exact (rel_nat_iff _ _).mpr h.total
    case driftDetails => exact rel_withDefault (Codec.list_flat _) _ _ _
    case policyEvaluation =>
      exact (rel_policyEvaluation_iff _ _).mpr ⟨h.noEvaluation, h.refused⟩
    all_goals exact rel_same_refl _

theorem apply_realises_iff (outputs : Option Members) (revision : Option String) (live : Int)
    (hd : ∀ o, outputs = some o → DistinctKeys (.obj o)) :
    Realises (applyAssigned revision) (applyStatus prev outputs revision live now) stored
        (patchStatus stored.toJson (updateApplyStatus prev outputs revision live now)) ↔
      ApplyRealised prev stored outputs revision := by
  unfold Realises updateApplyStatus
  simp only [get?_scopedStatusPatch stored _ (show applyStatusFields.Nodup by decide)]
  have houtputs := rel_optional_object_iff Codec.map stored.outputs outputs hd
  have hhash (s : Option String) := rel_optional_iff Codec.string_flat s none
  cases revision with
  | none =>
    constructor
    · intro h
      refine ⟨(houtputs.mp (h .outputs)).1, (houtputs.mp (h .outputs)).2, ?_, ?_, ?_, ?_⟩
      · exact (hhash _).mp (h .pendingPlanHash) rfl
      · exact (hhash _).mp (h .approvedPlanHash) rfl
      · exact fun _ => (rel_optional_text_keep_iff _ _).mp (h .lastAppliedRevision)
      · exact fun _ => (rel_optional_text_keep_iff _ _).mp (h .observedHeadRevision)
    · intro h f
      cases f
      case outputs => exact houtputs.mpr ⟨h.noOutputs, h.outputs⟩
      case lastAppliedAt =>
        exact (rel_optional_iff Codec.time_flat stored.lastAppliedAt (some now)).mpr (by simp)
      case pendingPlanHash => exact (hhash _).mpr (fun _ => h.pending)
      case approvedPlanHash => exact (hhash _).mpr (fun _ => h.approved)
      case conditions => exact rel_nonempty _ (projectConditions_ne_nil _ _ _ _ _)
      case lastAppliedRevision => exact (rel_optional_text_keep_iff _ _).mpr (h.applied rfl)
      case observedHeadRevision => exact (rel_optional_text_keep_iff _ _).mpr (h.head rfl)
      all_goals exact rel_same_refl _
  | some revision =>
    constructor
    · intro h
      refine ⟨(houtputs.mp (h .outputs)).1, (houtputs.mp (h .outputs)).2, ?_, ?_,
        fun h => (by cases h), fun h => (by cases h)⟩
      · exact (hhash _).mp (h .pendingPlanHash) rfl
      · exact (hhash _).mp (h .approvedPlanHash) rfl
    · intro h f
      cases f
      case outputs => exact houtputs.mpr ⟨h.noOutputs, h.outputs⟩
      case lastAppliedAt =>
        exact (rel_optional_iff Codec.time_flat stored.lastAppliedAt (some now)).mpr (by simp)
      case pendingPlanHash => exact (hhash _).mpr (fun _ => h.pending)
      case approvedPlanHash => exact (hhash _).mpr (fun _ => h.approved)
      case conditions => exact rel_nonempty _ (projectConditions_ne_nil _ _ _ _ _)
      case lastAppliedRevision =>
        exact (rel_optional_iff Codec.string_flat stored.lastAppliedRevision (some revision)).mpr
          (by simp)
      case observedHeadRevision =>
        exact (rel_optional_iff Codec.string_flat stored.observedHeadRevision (some revision)).mpr
          (by simp)
      all_goals exact rel_same_refl _

theorem settlingStatus_of_rewrites {outcome : SettlingOutcome} {driftDetails : List DriftDetail}
    (h : rewritesDrift outcome driftDetails = true) (freshness : Option Freshness) (live : Int) :
    (settlingStatus prev outcome driftDetails freshness live now).driftFingerprint =
        (if driftDetails = [] then none else some (fingerprint driftDetails)) ∧
      (settlingStatus prev outcome driftDetails freshness live now).driftTotal =
        driftDetails.length % 2 ^ 32 := by
  unfold settlingStatus
  cases driftDetails with
  | nil =>
    simp only [rewritesDrift, List.isEmpty_nil, Bool.not_true, Bool.false_or] at h
    simp [h]
  | cons d ds => simp

theorem settlingStatus_of_keeps {outcome : SettlingOutcome} {driftDetails : List DriftDetail}
    (h : rewritesDrift outcome driftDetails = false) (freshness : Option Freshness) (live : Int) :
    (settlingStatus prev outcome driftDetails freshness live now).driftDetails =
      prev.driftDetails := by
  simp only [rewritesDrift, Bool.or_eq_false_iff, Bool.not_eq_false'] at h
  simp [settlingStatus, h]

theorem settlingStatus_conditions (outcome : SettlingOutcome) (driftDetails : List DriftDetail)
    (freshness : Option Freshness) (live : Int) :
    (settlingStatus prev outcome driftDetails freshness live now).conditions =
      settlingConditions prev outcome freshness live now := by
  simp only [settlingStatus]
  split
  · rfl
  · split <;> rfl

theorem settlingConditions_ne_nil (outcome : SettlingOutcome) (driftDetails : List DriftDetail)
    (freshness : Option Freshness) (live : Int) :
    (settlingStatus prev outcome driftDetails freshness live now).conditions ≠ [] := by
  rw [settlingStatus_conditions]
  exact mergeConditionTransitions_ne_nil _ (projectConditions_ne_nil _ _ _ _ _)

theorem settlingPatch_eq {outcome : SettlingOutcome} {driftDetails : List DriftDetail}
    {freshness : Option Freshness} {live : Int} {body : Doc}
    (hb : buildSettlingStatusPatch prev outcome driftDetails freshness live now = some body) :
    body = scopedStatusPatch
      { settlingStatus prev outcome driftDetails freshness live now with
        lastDriftCheckAt := some now } settlingStatusFields := by
  simp only [buildSettlingStatusPatch] at hb
  split at hb
  · cases hb
    rfl
  · cases hb

theorem settling_realises_iff (outcome : SettlingOutcome) (driftDetails : List DriftDetail)
    (freshness : Option Freshness) (live : Int) {body : Doc}
    (hb : buildSettlingStatusPatch prev outcome driftDetails freshness live now = some body) :
    Realises (settlingAssigned outcome driftDetails)
        { settlingStatus prev outcome driftDetails freshness live now with
          lastDriftCheckAt := some now }
        stored (patchStatus stored.toJson body) ↔
      SettlingRealised prev stored outcome driftDetails := by
  rw [settlingPatch_eq prev now hb]
  unfold Realises
  simp only [get?_scopedStatusPatch stored _ (show settlingStatusFields.Nodup by decide)]
  have hcond := settlingConditions_ne_nil prev now outcome driftDetails freshness live
  have hchecked := (rel_optional_iff Codec.time_flat stored.lastDriftCheckAt (some now)).mpr
    (by simp)
  cases hr : rewritesDrift outcome driftDetails with
  | true =>
    obtain ⟨hfp, htotal⟩ := settlingStatus_of_rewrites prev now hr freshness live
    have ha : settlingAssigned outcome driftDetails =
        [.consecutiveDriftCycles, .stuckResources, .conditions, .lastDriftCheckAt,
          .driftFingerprint, .driftTotal, .driftDetails] := by
      simp [settlingAssigned, hr]
    rw [ha]
    constructor
    · intro h
      refine ⟨fun _ => ?_, fun _ => ?_, fun hk => ?_⟩
      · rw [← hfp]
        exact (rel_optional_text_iff _ _).mp (h .driftFingerprint)
      · rw [← htotal]
        exact (rel_nat_iff _ _).mp (h .driftTotal)
      · rw [hr] at hk
        cases hk
    · intro h f
      cases f
      case consecutiveDriftCycles => exact rel_withDefault Codec.nat_flat _ _ _
      case stuckResources => exact rel_withDefault (Codec.list_flat _) _ _ _
      case conditions => exact rel_nonempty _ hcond
      case lastDriftCheckAt => exact hchecked
      case driftFingerprint =>
        exact (rel_optional_text_iff _ _).mpr ((h.fingerprint hr).trans hfp.symm)
      case driftTotal => exact (rel_nat_iff _ _).mpr ((h.total hr).trans htotal.symm)
      case driftDetails => exact rel_withDefault (Codec.list_flat _) _ _ _
      all_goals exact rel_same_refl _
  | false =>
    have hkeep := settlingStatus_of_keeps prev now hr freshness live
    have ha : settlingAssigned outcome driftDetails =
        [.consecutiveDriftCycles, .stuckResources, .conditions, .lastDriftCheckAt] := by
      simp [settlingAssigned, hr]
    rw [ha]
    constructor
    · intro h
      refine ⟨fun hk => ?_, fun hk => ?_, fun _ => ?_⟩
      · rw [hr] at hk
        cases hk
      · rw [hr] at hk
        cases hk
      · rw [← hkeep]
        exact (rel_driftDetails_keep_iff _ _).mp (h .driftDetails)
    · intro h f
      cases f
      case consecutiveDriftCycles => exact rel_withDefault Codec.nat_flat _ _ _
      case stuckResources => exact rel_withDefault (Codec.list_flat _) _ _ _
      case conditions => exact rel_nonempty _ hcond
      case lastDriftCheckAt => exact hchecked
      case driftDetails => exact (rel_driftDetails_keep_iff _ _).mpr (hkeep.trans (h.details hr))
      all_goals exact rel_same_refl _

end Writers

/-- Each writer realises the status it built exactly on the stored statuses named by its
condition, whatever snapshot it started from. -/
theorem scoped_patches_realise_iff (prev stored : Status) (now : Time) :
    (∀ resources planSummary driftDetails policyEvaluation,
      Realises planAssigned
          (planStatus prev resources planSummary driftDetails policyEvaluation now) stored
          (patchStatus stored.toJson
            (buildPlanStatusPatch prev resources planSummary driftDetails policyEvaluation now)) ↔
        PlanRealised stored resources planSummary driftDetails policyEvaluation) ∧
    (∀ outputs revision live, (∀ o, outputs = some o → DistinctKeys (.obj o)) →
      (Realises (applyAssigned revision) (applyStatus prev outputs revision live now) stored
          (patchStatus stored.toJson (updateApplyStatus prev outputs revision live now)) ↔
        ApplyRealised prev stored outputs revision)) ∧
    (∀ outcome driftDetails freshness live body,
      buildSettlingStatusPatch prev outcome driftDetails freshness live now = some body →
      (Realises (settlingAssigned outcome driftDetails)
          { settlingStatus prev outcome driftDetails freshness live now with
            lastDriftCheckAt := some now }
          stored (patchStatus stored.toJson body) ↔
        SettlingRealised prev stored outcome driftDetails)) :=
  ⟨plan_realises_iff prev stored now,
    fun outputs revision live => apply_realises_iff prev stored now outputs revision live,
    fun outcome driftDetails freshness live _ =>
      settling_realises_iff prev stored now outcome driftDetails freshness live⟩

def vpcOutputs : Members := [("vpc_id", .str "vpc-1")]

/-- On a template without history all three writers do what they say. -/
theorem new_template_writers_realise :
    Realises planAssigned (planStatus {} none none [] none 0) {}
        (patchStatus (Status.toJson {}) (buildPlanStatusPatch {} none none [] none 0)) ∧
      Realises (applyAssigned none) (applyStatus {} (some vpcOutputs) none 1 0) {}
        (patchStatus (Status.toJson {}) (updateApplyStatus {} (some vpcOutputs) none 1 0)) ∧
      ∃ body, buildSettlingStatusPatch {} .settled [] none 1 0 = some body ∧
        Realises (settlingAssigned .settled [])
          { settlingStatus {} .settled [] none 1 0 with lastDriftCheckAt := some 0 } {}
          (patchStatus (Status.toJson {}) body) := by
  obtain ⟨hplan, happly, hsettling⟩ := scoped_patches_realise_iff {} {} 0
  refine ⟨(hplan none none [] none).mpr ?_, (happly (some vpcOutputs) none 1 ?_).mpr ?_, _, rfl,
    (hsettling .settled [] none 1 _ rfl).mpr ?_⟩
  · exact ⟨fun _ => rfl, fun _ => rfl, rfl, fun _ => rfl, fun a b h => by cases h⟩
  · intro o ho
    cases ho
    exact .obj (by decide) (by simpa [vpcOutputs] using .str "vpc-1")
  · exact ⟨fun _ => rfl, fun o ho => by cases ho; rfl, rfl, rfl, fun _ => .inl rfl,
      fun _ => .inl rfl⟩
  · exact ⟨fun _ => rfl, fun _ => rfl, fun _ => rfl⟩

/-- After an apply the approval it consumed is still stored. -/
theorem apply_keeps_approved_plan_hash :
    ¬Realises (applyAssigned none)
      (applyStatus { approvedPlanHash := some "eac9f28515f12ae7" } none none 1 0)
      { approvedPlanHash := some "eac9f28515f12ae7" }
      (patchStatus (Status.toJson { approvedPlanHash := some "eac9f28515f12ae7" })
        (updateApplyStatus { approvedPlanHash := some "eac9f28515f12ae7" } none none 1 0)) := by
  rw [apply_realises_iff _ _ _ _ _ _ (fun o h => by cases h)]
  intro h
  exact absurd h.approved (by simp)

end PangeaOperator
