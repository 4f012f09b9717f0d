import PangeaOperator.Plan
import PangeaOperator.Policy
import PangeaOperator.StatusRecord

/-!
# Receipts of reconcile cycles

`ReconcileCycle` and its parts from `crd/infrastructure_template.rs`, and
`build_reconcile_cycle` of `controller/template/cycle_receipts.rs`. A receipt is merged
into the stored one member by member: what is read back is known exactly, and it is the
receipt that was built unless the stored one has a member that the new one leaves out.
-/

namespace PangeaOperator

open Json

inductive Outcome where
  | matched
  | updated
  | created
  | destroyed
  | imported
  | drifted
  | failed
  deriving DecidableEq, Repr

namespace Outcome

def name : Outcome → String
  | matched => "Matched"
  | updated => "Updated"
  | created => "Created"
  | destroyed => "Destroyed"
  | imported => "Imported"
  | drifted => "Drifted"
  | failed => "Failed"

def parse (s : String) : Option Outcome :=
  [matched, updated, created, destroyed, imported, drifted, failed].find? (fun o => o.name == s)

def codec : Codec Outcome := .enum name parse (by intro o; cases o <;> rfl)

end Outcome

structure ResourceOutcome where
  address : String
  outcome : Outcome
  action : Option String
  message : Option String
  deriving DecidableEq, Repr

namespace ResourceOutcome

def enc (r : ResourceOutcome) : Doc :=
  record [
    ("address", (Slot.required .string).put r.address),
    ("outcome", (Slot.required Outcome.codec).put r.outcome),
    ("action", (Slot.optional .string).put r.action),
    ("message", (Slot.optional .string).put r.message)]

def dec (v : Doc) : Option ResourceOutcome := do
  let address ← (Slot.required .string).take (v.get? "address")
  let outcome ← (Slot.required Outcome.codec).take (v.get? "outcome")
  let action ← (Slot.optional .string).take (v.get? "action")
  let message ← (Slot.optional .string).take (v.get? "message")
  pure ⟨address, outcome, action, message⟩

def codec : Codec ResourceOutcome where
  enc := enc
  dec := dec
  dec_enc r := by simp [enc, dec]
  enc_ne_null r := by simp [enc]

end ResourceOutcome

structure CycleSummary where
  matched : Nat := 0
  updated : Nat := 0
  created : Nat := 0
  destroyed : Nat := 0
  imported : Nat := 0
  driftedUncorrected : Nat := 0
  failed : Nat := 0
  deriving DecidableEq, Repr

namespace CycleSummary

def fields (s : CycleSummary) : List (String × Option Doc) := [
  ("matched", (Slot.withDefault .nat 0).put s.matched),
  ("updated", (Slot.withDefault .nat 0).put s.updated),
  ("created", (Slot.withDefault .nat 0).put s.created),
  ("destroyed", (Slot.withDefault .nat 0).put s.destroyed),
  ("imported", (Slot.withDefault .nat 0).put s.imported),
  ("driftedUncorrected", (Slot.withDefault .nat 0).put s.driftedUncorrected),
  ("failed", (Slot.withDefault .nat 0).put s.failed)]

def dec (v : Doc) : Option CycleSummary := do
  let matched ← (Slot.withDefault .nat 0).take (v.get? "matched")
  let updated ← (Slot.withDefault .nat 0).take (v.get? "updated")
  let created ← (Slot.withDefault .nat 0).take (v.get? "created")
  let destroyed ← (Slot.withDefault .nat 0).take (v.get? "destroyed")
  let imported ← (Slot.withDefault .nat 0).take (v.get? "imported")
  let driftedUncorrected ← (Slot.withDefault .nat 0).take (v.get? "driftedUncorrected")
  let failed ← (Slot.withDefault .nat 0).take (v.get? "failed")
  pure ⟨matched, updated, created, destroyed, imported, driftedUncorrected, failed⟩

def codec : Codec CycleSummary where
  enc s := record s.fields
  dec := dec
  dec_enc s := by simp [dec, fields]
  enc_ne_null s := by simp

end CycleSummary

namespace ActionDistribution

def fields (d : ActionDistribution) : List (String × Option Doc) := [
  ("noOp", (Slot.withDefault .nat 0).put d.noOp),
  ("create", (Slot.withDefault .nat 0).put d.create),
  ("update", (Slot.withDefault .nat 0).put d.update),
  ("delete", (Slot.withDefault .nat 0).put d.delete),
  ("replace", (Slot.withDefault .nat 0).put d.replace),
  ("other", (Slot.withDefault .nat 0).put d.other)]

def dec (v : Doc) : Option ActionDistribution := do
  let noOp ← (Slot.withDefault .nat 0).take (v.get? "noOp")
  let create ← (Slot.withDefault .nat 0).take (v.get? "create")
  let update ← (Slot.withDefault .nat 0).take (v.get? "update")
  let delete ← (Slot.withDefault .nat 0).take (v.get? "delete")
  let replace ← (Slot.withDefault .nat 0).take (v.get? "replace")
  let other ← (Slot.withDefault .nat 0).take (v.get? "other")
  pure ⟨noOp, create, update, delete, replace, other⟩

def codec : Codec ActionDistribution where
  enc d := record d.fields
  dec := dec
  dec_enc d := by simp [dec, fields]
  enc_ne_null d := by simp

end ActionDistribution

structure BundleRef where
  kind : String
  bundleId : String
  sizeBytes : Nat
  deriving DecidableEq, Repr

namespace BundleRef

def fields (b : BundleRef) : List (String × Option Doc) := [
  ("kind", (Slot.required .string).put b.kind),
  ("bundleId", (Slot.required .string).put b.bundleId),
  ("sizeBytes", (Slot.required .nat).put b.sizeBytes)]

def dec (v : Doc) : Option BundleRef := do
  let kind ← (Slot.required .string).take (v.get? "kind")
  let bundleId ← (Slot.required .string).take (v.get? "bundleId")
  let sizeBytes ← (Slot.required .nat).take (v.get? "sizeBytes")
  pure ⟨kind, bundleId, sizeBytes⟩

def codec : Codec BundleRef where
  enc b := record b.fields
  dec := dec
  dec_enc b := by simp [dec, fields]
  enc_ne_null b := by simp

end BundleRef

structure SeverityRollup where
  cosmetic : Nat := 0
  functional : Nat := 0
  breaking : Nat := 0
  deriving DecidableEq, Repr

namespace SeverityRollup

def fields (r : SeverityRollup) : List (String × Option Doc) := [
  ("cosmetic", (Slot.withDefault .nat 0).put r.cosmetic),
  ("functional", (Slot.withDefault .nat 0).put r.functional),
  ("breaking", (Slot.withDefault .nat 0).put r.breaking)]

def dec (v : Doc) : Option SeverityRollup := do
  let cosmetic ← (Slot.withDefault .nat 0).take (v.get? "cosmetic")
  let functional ← (Slot.withDefault .nat 0).take (v.get? "functional")
  let breaking ← (Slot.withDefault .nat 0).take (v.get? "breaking")
  pure ⟨cosmetic, functional, breaking⟩

def codec : Codec SeverityRollup where
  enc r := record r.fields
  dec := dec
  dec_enc r := by simp [dec, fields]
  enc_ne_null r := by simp

end SeverityRollup

structure ReconcileCycle where
  cycle : Nat
  startedAt : Time
  completedAt : Time
  sourceRevision : Option String
  planSummary : Option String
  summary : CycleSummary
  outcomes : List ResourceOutcome
  executor : Option String
  actionDistribution : Option ActionDistribution
  bundleRef : Option BundleRef
  severityRollup : Option SeverityRollup
  lifecyclePhase : Option String
  appliedCount : Option Nat
  deriving DecidableEq, Repr

namespace ReconcileCycle

def fields (c : ReconcileCycle) : List (String × Option Doc) := [
  ("cycle", (Slot.required .nat).put c.cycle),
  ("startedAt", (Slot.required .time).put c.startedAt),
  ("completedAt", (Slot.required .time).put c.completedAt),
  ("sourceRevision", (Slot.optional .string).put c.sourceRevision),
  ("planSummary", (Slot.optional .string).put c.planSummary),
  ("summary", (Slot.withDefault CycleSummary.codec {}).put c.summary),
  ("outcomes", (Slot.nonempty ResourceOutcome.codec).put c.outcomes),
  ("executor", (Slot.optional .string).put c.executor),
  ("actionDistribution", (Slot.optional ActionDistribution.codec).put c.actionDistribution),
  ("bundleRef", (Slot.optional BundleRef.codec).put c.bundleRef),
  ("severityRollup", (Slot.optional SeverityRollup.codec).put c.severityRollup),
  ("lifecyclePhase", (Slot.optional .string).put c.lifecyclePhase),
  ("appliedCount", (Slot.optional .nat).put c.appliedCount)]

def dec (v : Doc) : Option ReconcileCycle := do
  let cycle ← (Slot.required .nat).take (v.get? "cycle")
  let startedAt ← (Slot.required .time).take (v.get? "startedAt")
  let completedAt ← (Slot.required .time).take (v.get? "completedAt")
  let sourceRevision ← (Slot.optional .string).take (v.get? "sourceRevision")
  let planSummary ← (Slot.optional .string).take (v.get? "planSummary")
  let summary ← (Slot.withDefault CycleSummary.codec {}).take (v.get? "summary")
  let outcomes ← (Slot.nonempty ResourceOutcome.codec).take (v.get? "outcomes")
  let executor ← (Slot.optional .string).take (v.get? "executor")
  let actionDistribution ←
    (Slot.optional ActionDistribution.codec).take (v.get? "actionDistribution")
  let bundleRef ← (Slot.optional BundleRef.codec).take (v.get? "bundleRef")
  let severityRollup ← (Slot.optional SeverityRollup.codec).take (v.get? "severityRollup")
  let lifecyclePhase ← (Slot.optional .string).take (v.get? "lifecyclePhase")
  let appliedCount ← (Slot.optional .nat).take (v.get? "appliedCount")
  pure ⟨cycle, startedAt, completedAt, sourceRevision, planSummary, summary, outcomes, executor,
    actionDistribution, bundleRef, severityRollup, lifecyclePhase, appliedCount⟩

def codec : Codec ReconcileCycle where
  enc c := record c.fields
  dec := dec
  dec_enc c := by simp [dec, fields]
  enc_ne_null c := by simp

end ReconcileCycle

section Replaces

/-- Every count is written, so nothing of a stored summary stays. -/
theorem CycleSummary.replaces : CycleSummary.codec.Replaces := by
  intro stored s
  have hmember := get?_mergePatch_record stored
    (show (s.fields.map Prod.fst).Nodup by simp [fields])
  have hnat := Codec.nat_flat.replaces.withDefault 0
  simp only [codec, dec, hmember]
  simp [fields, hnat _ _]

theorem ActionDistribution.replaces : ActionDistribution.codec.Replaces := by
  intro stored d
  have hmember := get?_mergePatch_record stored
    (show (d.fields.map Prod.fst).Nodup by simp [fields])
  have hnat := Codec.nat_flat.replaces.withDefault 0
  simp only [codec, dec, hmember]
  simp [fields, hnat _ _]

theorem BundleRef.replaces : BundleRef.codec.Replaces := by
  intro stored b
  have hmember := get?_mergePatch_record stored
    (show (b.fields.map Prod.fst).Nodup by simp [fields])
  have hstring := Codec.string_flat.replaces.required
  have hnat := Codec.nat_flat.replaces.required
  simp only [codec, dec, hmember]
  simp [fields, hstring _ _, hnat _ _]

theorem SeverityRollup.replaces : SeverityRollup.codec.Replaces := by
  intro stored r
  have hmember := get?_mergePatch_record stored
    (show (r.fields.map Prod.fst).Nodup by simp [fields])
  have hnat := Codec.nat_flat.replaces.withDefault 0
  simp only [codec, dec, hmember]
  simp [fields, hnat _ _]

end Replaces

namespace ReconcileCycle

theorem dec_eq_some_iff {v : Doc} {c : ReconcileCycle} :
    dec v = some c ↔
      (Slot.required .nat).take (v.get? "cycle") = some c.cycle ∧
      (Slot.required .time).take (v.get? "startedAt") = some c.startedAt ∧
      (Slot.required .time).take (v.get? "completedAt") = some c.completedAt ∧
      (Slot.optional .string).take (v.get? "sourceRevision") = some c.sourceRevision ∧
      (Slot.optional .string).take (v.get? "planSummary") = some c.planSummary ∧
      (Slot.withDefault CycleSummary.codec {}).take (v.get? "summary") = some c.summary ∧
      (Slot.nonempty ResourceOutcome.codec).take (v.get? "outcomes") = some c.outcomes ∧
      (Slot.optional .string).take (v.get? "executor") = some c.executor ∧
      (Slot.optional ActionDistribution.codec).take (v.get? "actionDistribution") =
        some c.actionDistribution ∧
      (Slot.optional BundleRef.codec).take (v.get? "bundleRef") = some c.bundleRef ∧
      (Slot.optional SeverityRollup.codec).take (v.get? "severityRollup") =
        some c.severityRollup ∧
      (Slot.optional .string).take (v.get? "lifecyclePhase") = some c.lifecyclePhase ∧
      (Slot.optional .nat).take (v.get? "appliedCount") = some c.appliedCount := by
  constructor
  · intro h
    unfold dec at h
    obtain ⟨_, h1, h⟩ := Option.bind_eq_some_iff.mp h
    obtain ⟨_, h2, h⟩ := Option.bind_eq_some_iff.mp h
    obtain ⟨_, h3, h⟩ := Option.bind_eq_some_iff.mp h
    obtain ⟨_, h4, h⟩ := Option.bind_eq_some_iff.mp h
    obtain ⟨_, h5, h⟩ := Option.bind_eq_some_iff.mp h
    obtain ⟨_, h6, h⟩ := Option.bind_eq_some_iff.mp h
    obtain ⟨_, h7, h⟩ := Option.bind_eq_some_iff.mp h
    obtain ⟨_, h8, h⟩ := Option.bind_eq_some_iff.mp h
    obtain ⟨_, h9, h⟩ := Option.bind_eq_some_iff.mp h
    obtain ⟨_, h10, h⟩ := Option.bind_eq_some_iff.mp h
    obtain ⟨_, h11, h⟩ := Option.bind_eq_some_iff.mp h
    obtain ⟨_, h12, h⟩ := Option.bind_eq_some_iff.mp h
    obtain ⟨_, h13, h⟩ := Option.bind_eq_some_iff.mp h
    cases h
    exact ⟨h1, h2, h3, h4, h5, h6, h7, h8, h9, h10, h11, h12, h13⟩
  · rintro ⟨h1, h2, h3, h4, h5, h6, h7, h8, h9, h10, h11, h12, h13⟩
    simp only [dec, h1, h2, h3, h4, h5, h6, h7, h8, h9, h10, h11, h12, h13]
    rfl

/-- What is read back after a receipt was merged into a stored one. -/
def mergedInto (new old : ReconcileCycle) : ReconcileCycle :=
  { new with
    sourceRevision := new.sourceRevision.or old.sourceRevision
    planSummary := new.planSummary.or old.planSummary
    outcomes := if new.outcomes.isEmpty then old.outcomes else new.outcomes
    executor := new.executor.or old.executor
    actionDistribution := new.actionDistribution.or old.actionDistribution
    bundleRef := new.bundleRef.or old.bundleRef
    severityRollup := new.severityRollup.or old.severityRollup
    lifecyclePhase := new.lifecyclePhase.or old.lifecyclePhase
    appliedCount := new.appliedCount.or old.appliedCount }

/-- The members of a document that a receipt may leave out read as those of this one. -/
structure Keeps (v : Doc) (old : ReconcileCycle) : Prop where
  sourceRevision : (Slot.optional .string).take (v.get? "sourceRevision") = some old.sourceRevision
  planSummary : (Slot.optional .string).take (v.get? "planSummary") = some old.planSummary
  outcomes : (Slot.nonempty ResourceOutcome.codec).take (v.get? "outcomes") = some old.outcomes
  executor : (Slot.optional .string).take (v.get? "executor") = some old.executor
  actionDistribution : (Slot.optional ActionDistribution.codec).take (v.get? "actionDistribution") =
    some old.actionDistribution
  bundleRef : (Slot.optional BundleRef.codec).take (v.get? "bundleRef") = some old.bundleRef
  severityRollup : (Slot.optional SeverityRollup.codec).take (v.get? "severityRollup") =
    some old.severityRollup
  lifecyclePhase : (Slot.optional .string).take (v.get? "lifecyclePhase") = some old.lifecyclePhase
  appliedCount : (Slot.optional .nat).take (v.get? "appliedCount") = some old.appliedCount

theorem keeps_of_dec {v : Doc} {old : ReconcileCycle} (h : dec v = some old) : Keeps v old := by
  obtain ⟨-, -, -, h4, h5, -, h7, h8, h9, h10, h11, h12, h13⟩ := dec_eq_some_iff.mp h
  exact ⟨h4, h5, h7, h8, h9, h10, h11, h12, h13⟩

/-- Merged member by member, only a member that the new receipt leaves out stays. -/
theorem dec_mergePatch {v : Doc} {old : ReconcileCycle} (h : Keeps v old)
    (new : ReconcileCycle) :
    dec (mergePatch v (record new.fields)) = some (new.mergedInto old) := by
  have hnames : (new.fields.map Prod.fst).Nodup := by simp [fields]
  have hl {k : String} {o : Option Doc} (hm : (k, o) ∈ new.fields) :
      (mergePatch v (record new.fields)).get? k = mergeSlot (v.get? k) o := by
    rw [get?_mergePatch_record v hnames, lookup_written hnames hm]
  have sent {β : Type} {sl : Slot β} (hs : sl.Replaces) {k : String} {n : β}
      (hm : (k, sl.put n) ∈ new.fields) :
      sl.take ((mergePatch v (record new.fields)).get? k) = some n := by
    rw [hl hm]
    exact hs _ n
  have optional {β : Type} {c : Codec β} (hc : c.Replaces) {k : String} {n o : Option β}
      (hm : (k, (Slot.optional c).put n) ∈ new.fields)
      (ho : (Slot.optional c).take (v.get? k) = some o) :
      (Slot.optional c).take ((mergePatch v (record new.fields)).get? k) = some (n.or o) := by
    rw [hl hm]
    exact hc.optional ho n
  have hstring := Codec.string_flat.replaces
  have hnat := Codec.nat_flat.replaces
  have htime := Codec.time_flat.replaces
  rw [dec_eq_some_iff]
  refine ⟨?_, ?_, ?_, ?_, ?_, ?_, ?_, ?_, ?_, ?_, ?_, ?_, ?_⟩
  · exact sent hnat.required (by simp [fields, mergedInto])
  · exact sent htime.required (by simp [fields, mergedInto])
  · exact sent htime.required (by simp [fields, mergedInto])
  · exact optional hstring (by simp [fields]) h.sourceRevision
  · exact optional hstring (by simp [fields]) h.planSummary
  · exact sent (CycleSummary.replaces.withDefault {}) (by simp [fields, mergedInto])
  · rw [hl (o := (Slot.nonempty ResourceOutcome.codec).put new.outcomes) (by simp [fields])]
    exact take_mergeSlot_nonempty h.outcomes new.outcomes
  · exact optional hstring (by simp [fields]) h.executor
  · exact optional ActionDistribution.replaces (by simp [fields]) h.actionDistribution
  · exact optional BundleRef.replaces (by simp [fields]) h.bundleRef
  · exact optional SeverityRollup.replaces (by simp [fields]) h.severityRollup
  · exact optional hstring (by simp [fields]) h.lifecyclePhase
  · exact optional hnat (by simp [fields]) h.appliedCount

/-- A receipt leaves out no member that an earlier one has. -/
structure Covers (new old : ReconcileCycle) : Prop where
  sourceRevision : new.sourceRevision = none → old.sourceRevision = none
  planSummary : new.planSummary = none → old.planSummary = none
  outcomes : new.outcomes = [] → old.outcomes = []
  executor : new.executor = none → old.executor = none
  actionDistribution : new.actionDistribution = none → old.actionDistribution = none
  bundleRef : new.bundleRef = none → old.bundleRef = none
  severityRollup : new.severityRollup = none → old.severityRollup = none
  lifecyclePhase : new.lifecyclePhase = none → old.lifecyclePhase = none
  appliedCount : new.appliedCount = none → old.appliedCount = none

theorem or_eq_self_iff {α : Type} (a b : Option α) : a.or b = a ↔ (a = none → b = none) := by
  cases a <;> simp

theorem mergedInto_eq_self_iff (new old : ReconcileCycle) :
    new.mergedInto old = new ↔ new.Covers old := by
  have houtcomes : (if new.outcomes.isEmpty then old.outcomes else new.outcomes) = new.outcomes ↔
      (new.outcomes = [] → old.outcomes = []) := by
    cases new.outcomes <;> simp
  constructor
  · intro h
    refine ⟨?_, ?_, ?_, ?_, ?_, ?_, ?_, ?_, ?_⟩
    · exact (or_eq_self_iff _ _).mp (congrArg sourceRevision h)
    · exact (or_eq_self_iff _ _).mp (congrArg planSummary h)
    · exact houtcomes.mp (congrArg outcomes h)
    · exact (or_eq_self_iff _ _).mp (congrArg executor h)
    · exact (or_eq_self_iff _ _).mp (congrArg actionDistribution h)
    · exact (or_eq_self_iff _ _).mp (congrArg bundleRef h)
    · exact (or_eq_self_iff _ _).mp (congrArg severityRollup h)
    · exact (or_eq_self_iff _ _).mp (congrArg lifecyclePhase h)
    · exact (or_eq_self_iff _ _).mp (congrArg appliedCount h)
  · intro h
    unfold mergedInto
    rw [(or_eq_self_iff _ _).mpr h.sourceRevision, (or_eq_self_iff _ _).mpr h.planSummary,
      houtcomes.mpr h.outcomes, (or_eq_self_iff _ _).mpr h.executor,
      (or_eq_self_iff _ _).mpr h.actionDistribution, (or_eq_self_iff _ _).mpr h.bundleRef,
      (or_eq_self_iff _ _).mpr h.severityRollup, (or_eq_self_iff _ _).mpr h.lifecyclePhase,
      (or_eq_self_iff _ _).mpr h.appliedCount]

/-- A receipt with nothing in the members that may be left out. -/
def blank : ReconcileCycle :=
  ⟨0, 0, 0, none, none, {}, [], none, none, none, none, none, none⟩

theorem mergedInto_blank (new : ReconcileCycle) : new.mergedInto blank = new := by
  obtain ⟨cycle, startedAt, completedAt, sourceRevision, planSummary, summary, outcomes, executor,
    actionDistribution, bundleRef, severityRollup, lifecyclePhase, appliedCount⟩ := new
  cases outcomes <;> simp [mergedInto, blank]

theorem keeps_null : Keeps .null blank := ⟨rfl, rfl, rfl, rfl, rfl, rfl, rfl, rfl, rfl⟩

/-- What is read back where a receipt was stored, or none. -/
def stored (old : Option ReconcileCycle) (new : ReconcileCycle) : ReconcileCycle :=
  new.mergedInto (old.getD blank)

theorem stored_eq_self_iff (old : Option ReconcileCycle) (new : ReconcileCycle) :
    stored old new = new ↔ ∀ p, old = some p → new.Covers p := by
  cases old with
  | none => simpa [stored] using mergedInto_blank new
  | some p => simpa [stored] using mergedInto_eq_self_iff new p

theorem readOption_merge {v : Option Doc} {old : Option ReconcileCycle}
    (h : Slot.readOption codec v = some old) (new : ReconcileCycle) :
    Slot.readOption codec (mergeSlot v (some (codec.enc new))) = some (some (stored old new)) := by
  have hkeeps : Keeps (v.getD .null) (old.getD blank) := by
    cases v with
    | none =>
      cases h
      exact keeps_null
    | some d =>
      by_cases hd : d = .null
      · subst hd
        cases h
        exact keeps_null
      · rw [Slot.readOption_some codec hd] at h
        obtain ⟨c, hc, rfl⟩ := Option.map_eq_some_iff.mp h
        exact keeps_of_dec hc
  have hmerged : codec.dec (mergePatch (v.getD .null) (codec.enc new)) = some (stored old new) :=
    dec_mergePatch hkeeps new
  rw [mergeSlot_some (codec.enc_ne_null new),
    Slot.readOption_some codec (mergePatch_ne_null (codec.enc_ne_null new) _), hmerged,
    Option.map_some]

end ReconcileCycle

/-- A plan's artifact with what a receipt takes from it. -/
structure PlanArtifact extends CycleArtifact where
  artifactRef : Option BundleRef
  severities : Option SeverityRollup
  lifecyclePhase : Option String
  deriving DecidableEq, Repr

inductive CycleResult where
  | noChanges
  | appliedSuccess (importedAddresses : List String)
  | appliedFailure (error : String)
  | policyGated (decision : PolicyDecision)
  deriving DecidableEq, Repr

def outcomeForAction : String → Outcome
  | "no-op" | "noop" => .matched
  | "create" => .created
  | "update" => .updated
  | "delete" => .destroyed
  | "replace" => .updated
  | "import" => .imported
  | _ => .updated

/-- `truncate_for_status`: 256 characters, and an ellipsis if there were more. -/
def truncateForStatus (s : String) : String :=
  if s.toList.length ≤ 256 then s else String.ofList (s.toList.take 256) ++ "…"

namespace CycleResult

/-- Outcome and message of one entry of the drift list. -/
def outcome (result : CycleResult) (d : DriftDetail) : Outcome × Option String :=
  match result with
  | appliedFailure err => (.failed, some (truncateForStatus err))
  | policyGated decision => (.drifted, some s!"policy decision: {decision.asStr}")
  | noChanges => (.matched, none)
  | appliedSuccess imported =>
    if d.address ∈ imported then (.imported, some "adopted via tofu import")
    else (outcomeForAction d.action, none)

def resourceOutcome (result : CycleResult) (d : DriftDetail) : ResourceOutcome :=
  ⟨d.address, (result.outcome d).1, some d.action, (result.outcome d).2⟩

/-- Nothing went wrong that an error of an earlier cycle could still stand for. -/
def isClean : CycleResult → Bool
  | appliedFailure _ => false
  | policyGated .refuse => false
  | _ => true

def succeeded : CycleResult → Bool
  | appliedSuccess _ | noChanges => true
  | _ => false

end CycleResult

/-- The counts of the listed outcomes; what the plan did not touch counts as matched. -/
def cycleSummary (outcomes : List ResourceOutcome) (untouched : Nat) : CycleSummary :=
  let count (o : Outcome) := outcomes.countP (fun r => r.outcome = o)
  { matched := saturatingAdd (count .matched) untouched
    updated := count .updated
    created := count .created
    destroyed := count .destroyed
    imported := count .imported
    driftedUncorrected := count .drifted
    failed := count .failed }

def CycleSummary.changedNothing (s : CycleSummary) : Bool :=
  s.created = 0 && s.updated = 0 && s.destroyed = 0 && s.imported = 0 && s.driftedUncorrected = 0 &&
    s.failed = 0

/-- `build_reconcile_cycle`; the drift list is counted in a `u32`. -/
def buildReconcileCycle (nextCycle : Nat) (startedAt completedAt : Time) (drifts : List DriftDetail)
    (total : Nat) (planSummary sourceRevision executorName : Option String)
    (artifact : Option PlanArtifact) (result : CycleResult) : ReconcileCycle :=
  let outcomes := (drifts.take 100).map result.resourceOutcome
  let summary := cycleSummary outcomes (total - drifts.length % 2 ^ 32)
  { cycle := nextCycle
    startedAt
    completedAt
    sourceRevision
    planSummary := if result.succeeded && summary.changedNothing then some "No changes"
      else planSummary
    summary
    outcomes
    executor := executorName
    actionDistribution := artifact.map (fun a => a.actionDistribution)
    bundleRef := artifact.bind PlanArtifact.artifactRef
    severityRollup := artifact.bind PlanArtifact.severities
    lifecyclePhase := artifact.bind PlanArtifact.lifecyclePhase
    appliedCount := none }

/-- `cycle_content_equal`: everything but the number, the times and the apply frontier, and a
bundle by its id. -/
def cycleContentEqual (a b : ReconcileCycle) : Bool :=
  a.summary = b.summary && a.sourceRevision = b.sourceRevision && a.planSummary = b.planSummary &&
    a.executor = b.executor &&
    a.bundleRef.map BundleRef.bundleId = b.bundleRef.map BundleRef.bundleId &&
    a.actionDistribution = b.actionDistribution && a.severityRollup = b.severityRollup &&
    a.lifecyclePhase = b.lifecyclePhase && a.outcomes = b.outcomes

end PangeaOperator
