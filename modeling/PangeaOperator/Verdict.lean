import PangeaOperator.Plan
import PangeaOperator.Policy

/-!
# One plan through two executors

`executor/magma_bundle.rs` reads a bundle where `executor/plan.rs` reads a shown plan. The
same changes written both ways give drift lists with the same addresses and actions, so
rules that look at nothing else decide alike. The risk words of the two readers differ.
-/

namespace PangeaOperator

open Json

namespace PlanAction

def parse : String → PlanAction
  | "no_op" | "no-op" | "noop" => noOp
  | "create" => create
  | "update" => update
  | "delete" => delete
  | "replace" => replace
  | verb => other verb

end PlanAction

def actionToSeverity : PlanAction → Severity
  | .noOp => .cosmetic
  | .create | .update => .functional
  | .delete | .replace => .breaking
  | .other _ => .functional

def mapSeverityWithFallback (raw : String) : Severity :=
  match raw.map Char.toLower with
  | "cosmetic" => .cosmetic
  | "functional" => .functional
  | "critical" | "breaking" => .breaking
  | _ => .functional

/-- `Value::as_str` of a member. -/
def textMember (v : Doc) (name : String) : Option String :=
  match v.get? name with
  | some (.str s) => some s
  | _ => none

section Bundle

variable (valueText : Doc → String)

def addressFromChange (c : Doc) : String :=
  match c.get? "address" with
  | some (.str s) => s
  | some v => valueText v
  | none => "<unknown-resource>"

def typedChange (c : Doc) : TypedResourceChange :=
  let action := PlanAction.parse ((textMember c "action").getD "")
  { address := addressFromChange valueText c
    action
    severity := ((textMember c "severity").map mapSeverityWithFallback).getD
      (actionToSeverity action) }

def resourceChangesFrom (bundle : Doc) : List TypedResourceChange :=
  match (bundle.get? "plan").bind (fun plan => plan.get? "changes") with
  | some (.arr changes) => changes.map (typedChange valueText)
  | _ => []

def actionDistributionFrom (changes : List TypedResourceChange) : ActionDistribution :=
  let count (p : PlanAction → Bool) := min (changes.countP (fun c => p c.action)) (2 ^ 32 - 1)
  { noOp := count (· = .noOp)
    create := count (· = .create)
    update := count (· = .update)
    delete := count (· = .delete)
    replace := count (· = .replace)
    other := count (fun a => match a with
      | .other _ => true
      | _ => false) }

/-- `read_cycle_artifact` on a parsed bundle, the part that drift is read from. -/
def bundleArtifact (bundle : Doc) : CycleArtifact :=
  let changes := resourceChangesFrom valueText bundle
  ⟨actionDistributionFrom changes, changes⟩

end Bundle

namespace ChangeType

/-- The verb of a bundle. -/
def bundleVerb : ChangeType → String
  | noOp => "no_op"
  | action => action.asStr

/-- The actions of a shown plan. -/
def showActions (createFirst : Bool) : ChangeType → List String
  | noOp => ["no-op"]
  | create => ["create"]
  | update => ["update"]
  | delete => ["delete"]
  | replace => if createFirst then ["create", "delete"] else ["delete", "create"]

theorem fromActions_showActions (createFirst : Bool) (action : ChangeType) :
    fromActions (action.showActions createFirst) = action := by
  cases action <;> cases createFirst <;> decide

theorem parse_bundleVerb_eq_noOp_iff (action : ChangeType) :
    PlanAction.parse action.bundleVerb = .noOp ↔ action = noOp := by
  cases action <;> decide

/-- A bundle's verb prints as the action of the shown plan. -/
theorem planActionToTerraformStr_parse {action : ChangeType} (h : action ≠ noOp) :
    planActionToTerraformStr (PlanAction.parse action.bundleVerb) = action.asStr := by
  cases action with
  | noOp => exact absurd rfl h
  | _ => rfl

end ChangeType

/-- A planned change with both encodings: the values and the order of a replacement for the shown
plan, and for the bundle a severity, if one is given. -/
structure EncodedChange where
  address : String
  resourceType : String
  action : ChangeType
  before : Option Doc
  after : Option Doc
  createFirst : Bool
  severity : Option String

namespace EncodedChange

def tofu (c : EncodedChange) : ResourceChange :=
  ⟨c.address, c.resourceType, ⟨c.action.showActions c.createFirst, c.before, c.after⟩⟩

/-- The action as it is read off the bundle. -/
def magmaAction (c : EncodedChange) : PlanAction := .parse c.action.bundleVerb

def magma (c : EncodedChange) : Doc :=
  record [
    ("address", (Slot.required .string).put c.address),
    ("action", (Slot.required .string).put c.action.bundleVerb),
    ("severity", (Slot.optional .string).put c.severity)]

/-- The severity of the bundle is the one of the action. -/
def SeverityMatches (c : EncodedChange) : Prop :=
  ∀ raw, c.severity = some raw → mapSeverityWithFallback raw = actionToSeverity c.magmaAction

theorem changeType_tofu (c : EncodedChange) : c.tofu.changeType = c.action :=
  ChangeType.fromActions_showActions c.createFirst c.action

theorem typedChange_magma (valueText : Doc → String) (c : EncodedChange)
    (h : c.SeverityMatches) :
    typedChange valueText c.magma =
      ⟨c.address, c.magmaAction, actionToSeverity c.magmaAction⟩ := by
  have haddress : c.magma.get? "address" = some (.str c.address) := by
    simp [magma, Slot.required, Codec.string]
  have haction : textMember c.magma "action" = some c.action.bundleVerb := by
    simp [textMember, magma, Slot.required, Codec.string]
  have hseverity : textMember c.magma "severity" = c.severity := by
    cases hs : c.severity <;> simp [textMember, magma, Slot.optional, Codec.string, hs]
  have hmapped : (c.severity.map mapSeverityWithFallback).getD (actionToSeverity c.magmaAction) =
      actionToSeverity c.magmaAction := by
    cases hs : c.severity with
    | none => rfl
    | some raw => exact h raw hs
  simp only [typedChange, addressFromChange, haddress, haction, hseverity, Option.getD_some]
  rw [← magmaAction, hmapped]

end EncodedChange

/-- The bundle of a list of changes. -/
def bundleOf (changes : List EncodedChange) : Doc :=
  record [("plan", some (record [("changes", some (.arr (changes.map EncodedChange.magma)))]))]

theorem resourceChangesFrom_bundleOf (valueText : Doc → String) {changes : List EncodedChange}
    (h : ∀ c ∈ changes, c.SeverityMatches) :
    resourceChangesFrom valueText (bundleOf changes) =
      changes.map (fun c => ⟨c.address, c.magmaAction, actionToSeverity c.magmaAction⟩) := by
  have hread : resourceChangesFrom valueText (bundleOf changes) =
      (changes.map EncodedChange.magma).map (typedChange valueText) := by
    simp [resourceChangesFrom, bundleOf]
  rw [hread, List.map_map]
  exact List.map_congr_left (fun c hc => c.typedChange_magma valueText (h c hc))

section Lists

variable (fromJson : String → Option Plan) (valueText : Doc → String)

/-- The drift list of a shown plan, as it reaches the policy engine. -/
def tofuDrifts (shown : String) : List DriftDetail :=
  (analysePlan fromJson ⟨none, shown, true, true, ""⟩ none).2

/-- The drift list of a bundle, as it reaches the policy engine. -/
def magmaDrifts (bundle : Doc) : List DriftDetail :=
  (analysePlan fromJson ⟨none, "", true, true, ""⟩ (some (bundleArtifact valueText bundle))).2

/-- The changes that are not no-ops. -/
def actualChanges (changes : List EncodedChange) : List (String × String) :=
  (changes.filter (fun c => c.action ≠ .noOp)).map (fun c => (c.address, c.action.asStr))

variable {fromJson} {shown : String} {changes : List EncodedChange}

theorem map_change_tofuDrifts (hne : shown.isEmpty = false)
    (hshown : fromJson shown = some ⟨changes.map EncodedChange.tofu⟩) :
    (tofuDrifts fromJson shown).map DriftDetail.change = actualChanges changes := by
  have hplan : planChanges fromJson ⟨none, shown, true, true, ""⟩ none =
      some (actualChanges changes) := by
    simp only [planChanges, hne, Bool.false_eq_true, if_false, hshown, Option.map_some,
      List.filter_map, List.map_map, Option.some.injEq, actualChanges]
    simp only [Function.comp_def, EncodedChange.changeType_tofu]
    rfl
  exact (analysePlan_of_planChanges hplan).2

theorem magmaDrifts_bundleOf (h : ∀ c ∈ changes, c.SeverityMatches) :
    magmaDrifts fromJson valueText (bundleOf changes) =
      (changes.filter (fun c => c.action ≠ .noOp)).map (fun c =>
        ⟨c.address, c.action.asStr, severityToRisk (actionToSeverity c.magmaAction), [], none,
          none⟩) := by
  have hdrifts : magmaDrifts fromJson valueText (bundleOf changes) =
      (bundleArtifact valueText (bundleOf changes)).driftDetails := by
    simp [magmaDrifts, analysePlan, planSummaryAndDriftsFromArtifact]
  rw [hdrifts, CycleArtifact.driftDetails, bundleArtifact, resourceChangesFrom_bundleOf valueText h,
    List.filter_map, List.map_map]
  have hfilter : changes.filter ((fun c : TypedResourceChange => decide (c.action ≠ .noOp)) ∘
      fun c : EncodedChange => ⟨c.address, c.magmaAction, actionToSeverity c.magmaAction⟩) =
      changes.filter (fun c => c.action ≠ .noOp) := by
    refine List.filter_congr (fun c _ => ?_)
    simp [EncodedChange.magmaAction, ChangeType.parse_bundleVerb_eq_noOp_iff]
  rw [hfilter]
  refine List.map_congr_left (fun c hc => ?_)
  have haction : c.action ≠ .noOp := by simpa using (List.mem_filter.mp hc).2
  simp [TypedResourceChange.driftDetail, EncodedChange.magmaAction,
    ChangeType.planActionToTerraformStr_parse haction]

/-- The two lists agree on addresses and actions. -/
theorem map_change_drifts_eq (hne : shown.isEmpty = false)
    (hshown : fromJson shown = some ⟨changes.map EncodedChange.tofu⟩)
    (h : ∀ c ∈ changes, c.SeverityMatches) :
    (tofuDrifts fromJson shown).map DriftDetail.change =
      (magmaDrifts fromJson valueText (bundleOf changes)).map DriftDetail.change := by
  rw [map_change_tofuDrifts hne hshown, magmaDrifts_bundleOf valueText h, List.map_map]
  rfl

end Lists

section Policy

variable (regex : String → Option (String → Bool)) {rules : List PolicyRule}
  (defaultDecision : Option PolicyDecision)

/-- Rules that name no risk level and no attribute see the address and the action alone. -/
theorem decideDrift_eq_of_change {d e : DriftDetail}
    (hrules : ∀ r ∈ rules, r.match_.riskLevels = [] ∧ r.match_.attributes = [])
    (h : d.change = e.change) :
    decideDrift regex rules defaultDecision d = decideDrift regex rules defaultDecision e := by
  have haddress : d.address = e.address := congrArg Prod.fst h
  have haction : d.action = e.action := congrArg Prod.snd h
  have hmatches (r : PolicyRule) (hr : r ∈ rules) : r.matches regex d = r.matches regex e := by
    obtain ⟨hrisk, hattributes⟩ := hrules r hr
    simp [PolicyRule.matches, riskLevelsMatch, wireMatch, hrisk, hattributes, haddress, haction]
  have hfind : rules.find? (fun r => r.matches regex d) =
      rules.find? (fun r => r.matches regex e) := by
    clear hrules
    induction rules with
    | nil => rfl
    | cons r rules ih =>
      rw [List.find?_cons, List.find?_cons, hmatches r List.mem_cons_self,
        ih (fun r' hr' => hmatches r' (List.mem_cons_of_mem _ hr'))]
  simp only [decideDrift, hfind, fallbackDecision, haddress, haction]

/-- So they decide the two lists alike. -/
theorem aggregateDecision_eq_of_changes {ds es : List DriftDetail}
    (hrules : ∀ r ∈ rules, r.match_.riskLevels = [] ∧ r.match_.attributes = [])
    (h : ds.map DriftDetail.change = es.map DriftDetail.change) :
    aggregateDecision regex rules defaultDecision ds =
      aggregateDecision regex rules defaultDecision es := by
  -- the decision as a function of address and action
  let onChange (c : String × String) : PolicyDecision :=
    (decideDrift regex rules defaultDecision ⟨c.1, c.2, "", [], none, none⟩).1
  have hcount (l : List DriftDetail) (decision : PolicyDecision) :
      decidedCount regex rules defaultDecision l decision =
        (l.map DriftDetail.change).countP (fun c => onChange c = decision) := by
    rw [List.countP_map]
    refine List.countP_congr (fun d _ => ?_)
    have hd : onChange d.change = (decideDrift regex rules defaultDecision d).1 :=
      congrArg Prod.fst (decideDrift_eq_of_change regex defaultDecision hrules rfl)
    simp [hd]
  simp only [aggregateDecision, hcount, h]

end Policy

/-- The words a risk is documented to be. -/
def riskWords : List String := ["none", "low", "medium", "high"]

/-- Both encodings of the changes reach the policy engine as the same plan. -/
structure SameVerdict (fromJson : String → Option Plan) (valueText : Doc → String) (shown : String)
    (changes : List EncodedChange) : Prop where
  listed : (tofuDrifts fromJson shown).map DriftDetail.change =
    (magmaDrifts fromJson valueText (bundleOf changes)).map DriftDetail.change
  risks : ∀ d ∈ tofuDrifts fromJson shown ++ magmaDrifts fromJson valueText (bundleOf changes),
    d.risk ∈ riskWords
  aggregate : ∀ (regex : String → Option (String → Bool)) (rules : List PolicyRule)
    (defaultDecision : Option PolicyDecision), (∀ r ∈ rules, r.match_.attributes = []) →
    (evaluatePolicy regex rules defaultDecision (tofuDrifts fromJson shown)).aggregate =
      (evaluatePolicy regex rules defaultDecision
        (magmaDrifts fromJson valueText (bundleOf changes))).aggregate

theorem severityToRisk_not_mem (severity : Severity) : severityToRisk severity ∉ riskWords := by
  cases severity <;> decide

/-- The verdict is independent of the executor in all three respects only of a plan that changes
nothing: every entry of a bundle has a risk outside the words. -/
theorem same_verdict_iff {fromJson : String → Option Plan} (valueText : Doc → String)
    {shown : String} {changes : List EncodedChange} (hne : shown.isEmpty = false)
    (hshown : fromJson shown = some ⟨changes.map EncodedChange.tofu⟩)
    (hseverity : ∀ c ∈ changes, c.SeverityMatches) :
    SameVerdict fromJson valueText shown changes ↔ ∀ c ∈ changes, c.action = .noOp := by
  have hmagma : magmaDrifts fromJson valueText (bundleOf changes) = _ :=
    magmaDrifts_bundleOf valueText hseverity
  constructor
  · intro h c hc
    by_contra haction
    have hentry : DriftDetail.mk c.address c.action.asStr
        (severityToRisk (actionToSeverity c.magmaAction)) [] none none ∈
        magmaDrifts fromJson valueText (bundleOf changes) := by
      rw [hmagma]
      exact List.mem_map.mpr ⟨c, List.mem_filter.mpr ⟨hc, by simpa using haction⟩, rfl⟩
    exact severityToRisk_not_mem _ (h.risks _ (List.mem_append_right _ hentry))
  · intro hall
    have hnone : changes.filter (fun c => c.action ≠ .noOp) = [] := by
      rw [List.filter_eq_nil_iff]
      intro c hc
      simp [hall c hc]
    have hempty : magmaDrifts fromJson valueText (bundleOf changes) = [] := by
      rw [hmagma, hnone]
      rfl
    have hlisted := map_change_drifts_eq valueText hne hshown hseverity
    have htofu : tofuDrifts fromJson shown = [] := by
      rw [hempty] at hlisted
      exact List.map_eq_nil_iff.mp hlisted
    refine ⟨hlisted, ?_, ?_⟩
    · intro d hd
      rw [htofu, hempty] at hd
      cases hd
    · intro regex rules defaultDecision _
      rw [htofu, hempty]

/-- A zone that stays and one that goes, under a rule that refuses high risks. -/
def zoneDelete : EncodedChange :=
  ⟨"cloudflare_zone.main", "cloudflare_zone", .delete, none, none, false, some "critical"⟩

def zoneKept : EncodedChange :=
  ⟨"cloudflare_zone.main", "cloudflare_zone", .noOp, none, none, false, some "cosmetic"⟩

def refuseHighRisk : PolicyRule := ⟨"no-high-risk", { riskLevels := ["high"] }, .refuse⟩

theorem kept_zone_same_verdict :
    SameVerdict (fun _ => some ⟨[zoneKept.tofu]⟩) (fun _ => "") "shown" [zoneKept] := by
  refine (same_verdict_iff (fun _ => "") rfl rfl ?_).mpr ?_
  · intro c hc raw hraw
    rw [List.mem_singleton.mp hc] at hraw ⊢
    cases hraw
    decide +kernel
  · intro c hc
    rw [List.mem_singleton.mp hc]
    rfl

/-- The rule refuses the delete of a shown plan and lets that of a bundle through to the floor. -/
theorem deleted_zone_two_verdicts :
    zoneDelete.SeverityMatches ∧
    (evaluatePolicy (fun _ => none) [refuseHighRisk] (some .autoApply)
      (tofuDrifts (fun _ => some ⟨[zoneDelete.tofu]⟩) "shown")).aggregate = .refuse ∧
    (evaluatePolicy (fun _ => none) [refuseHighRisk] (some .autoApply)
      (magmaDrifts (fun _ => none) (fun _ => "") (bundleOf [zoneDelete]))).aggregate =
        .requireApproval ∧
    ¬SameVerdict (fun _ => some ⟨[zoneDelete.tofu]⟩) (fun _ => "") "shown" [zoneDelete] := by
  refine ⟨?_, by decide +kernel, by decide +kernel, fun h => ?_⟩
  · intro raw hraw
    cases hraw
    decide +kernel
  · have hsame := h.aggregate (fun _ => none) [refuseHighRisk] (some .autoApply)
      (by simp [refuseHighRisk])
    exact absurd hsame (by decide +kernel)

end PangeaOperator
