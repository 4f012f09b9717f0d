import PangeaOperator.Verdict

/-!
# The readers of a bundle

`executor/magma_bundle.rs` reads the changes of a bundle twice: into typed entries, and into
counts straight from the action words. Both keep every entry. A severity that is not given
falls back on the action, and one that is given but not known does not.
-/

namespace PangeaOperator

open Json

/-- The array of changes of a bundle. -/
def bundleChanges (bundle : Doc) : Option (List Doc) :=
  match (bundle.get? "plan").bind (fun plan => plan.get? "changes") with
  | some (.arr changes) => some changes
  | _ => none

/-- The action word of an entry, empty where it has none. -/
def actionWord (c : Doc) : String := (textMember c "action").getD ""

/-- One more entry with this action word. -/
def ActionDistribution.bump (dist : ActionDistribution) : String → ActionDistribution
  | "no_op" | "no-op" | "noop" => { dist with noOp := saturatingAdd dist.noOp 1 }
  | "create" => { dist with create := saturatingAdd dist.create 1 }
  | "update" => { dist with update := saturatingAdd dist.update 1 }
  | "delete" => { dist with delete := saturatingAdd dist.delete 1 }
  | "replace" => { dist with replace := saturatingAdd dist.replace 1 }
  | _ => { dist with other := saturatingAdd dist.other 1 }

/-- `action_distribution_from` of `magma_bundle.rs`, on the bundle itself. -/
def bundleDistributionFrom (bundle : Doc) : Option ActionDistribution :=
  (bundleChanges bundle).map (fun changes =>
    changes.foldl (fun dist c => dist.bump (actionWord c)) {})

/-- The severity that a word of a bundle names. -/
def recognisedSeverity (raw : String) : Option Severity :=
  match raw.map Char.toLower with
  | "cosmetic" => some .cosmetic
  | "functional" => some .functional
  | "critical" | "breaking" => some .breaking
  | _ => none

/-- The severity of an entry as it is documented: the one it names, else that of its action. -/
def documentedSeverity (c : Doc) : Severity :=
  ((textMember c "severity").bind recognisedSeverity).getD
    (actionToSeverity (.parse (actionWord c)))

theorem mapSeverityWithFallback_eq (raw : String) :
    mapSeverityWithFallback raw = (recognisedSeverity raw).getD .functional := by
  unfold mapSeverityWithFallback recognisedSeverity
  generalize raw.map Char.toLower = word
  split <;> simp_all

section Counts

/-- A word counts where its action counts. -/
theorem actionDistributionFrom_append (changes : List TypedResourceChange) (address word : String)
    (severity : Severity) :
    actionDistributionFrom (changes ++ [⟨address, .parse word, severity⟩]) =
      (actionDistributionFrom changes).bump word := by
  have hstep (n : Nat) : min (n + 1) 4294967295 = saturatingAdd (min n 4294967295) 1 := by
    simp only [saturatingAdd]
    omega
  unfold ActionDistribution.bump PlanAction.parse
  split <;> simp [actionDistributionFrom, List.countP_append, hstep]

variable (valueText : Doc → String)

theorem foldl_bump (changes : List Doc) :
    changes.foldl (fun dist c => dist.bump (actionWord c)) {} =
      actionDistributionFrom (changes.map (typedChange valueText)) := by
  induction changes using List.reverseRecOn with
  | nil => simp [actionDistributionFrom]
  | append_singleton changes c ih =>
    rw [List.foldl_append, List.foldl_cons, List.foldl_nil, ih, List.map_append]
    exact (actionDistributionFrom_append _ _ _ _).symm

theorem bundleDistributionFrom_eq {bundle : Doc} {changes : List Doc}
    (h : bundleChanges bundle = some changes) :
    bundleDistributionFrom bundle =
      some (actionDistributionFrom (changes.map (typedChange valueText))) := by
  rw [bundleDistributionFrom, h, Option.map_some, foldl_bump valueText]

theorem resourceChangesFrom_eq {bundle : Doc} {changes : List Doc}
    (h : bundleChanges bundle = some changes) :
    resourceChangesFrom valueText bundle = changes.map (typedChange valueText) := by
  unfold bundleChanges at h
  unfold resourceChangesFrom
  split at h
  · cases h
    simp_all
  · cases h

/-- Every entry is in one of the six counts. -/
theorem countP_actions (changes : List TypedResourceChange) :
    changes.countP (fun c => c.action = .noOp) + changes.countP (fun c => c.action = .create) +
      changes.countP (fun c => c.action = .update) + changes.countP (fun c => c.action = .delete) +
      changes.countP (fun c => c.action = .replace) +
      changes.countP (fun c => match c.action with
        | .other _ => true
        | _ => false) = changes.length := by
  induction changes with
  | nil => rfl
  | cons c changes ih =>
    simp only [List.countP_cons, List.length_cons]
    cases c.action <;> simp <;> omega

theorem saturatingAdd_min (m n : Nat) :
    saturatingAdd (min m (2 ^ 32 - 1)) (min n (2 ^ 32 - 1)) = min (m + n) (2 ^ 32 - 1) := by
  simp only [saturatingAdd]
  omega

/-- The total is the number of entries until a `u32` is full. -/
theorem summaryCounts_total (changes : List TypedResourceChange) :
    (CycleArtifact.summaryCounts ⟨actionDistributionFrom changes, changes⟩).2.2.2 =
      min changes.length (2 ^ 32 - 1) := by
  simp only [CycleArtifact.summaryCounts, actionDistributionFrom, List.foldl_cons, List.foldl_nil,
    saturatingAdd_min]
  exact congrArg (fun n => min n (2 ^ 32 - 1)) (countP_actions changes)

end Counts

/-- The two readers tell the same of a bundle with these changes, and leave out none: an entry
for each change in order, the same counts, the total of the array, and the severities. -/
structure ReadersAgree (valueText : Doc → String) (bundle : Doc) (changes : List Doc) : Prop where
  entries : List.Forall₂ (fun c e => e.address = addressFromChange valueText c ∧
    e.action = .parse (actionWord c)) changes (resourceChangesFrom valueText bundle)
  counts : bundleDistributionFrom bundle =
    some (actionDistributionFrom (resourceChangesFrom valueText bundle))
  total : (bundleArtifact valueText bundle).summaryCounts.2.2.2 = changes.length
  severities : List.Forall₂ (fun c e => e.severity = documentedSeverity c) changes
    (resourceChangesFrom valueText bundle)

/-- The severity word of an entry is not known, and its action is not one of functional effect. -/
def SeverityLost (c : Doc) : Prop :=
  ∃ raw, textMember c "severity" = some raw ∧ recognisedSeverity raw = none ∧
    actionToSeverity (.parse (actionWord c)) ≠ .functional

theorem typedChange_severity_iff (valueText : Doc → String) (c : Doc) :
    (typedChange valueText c).severity = documentedSeverity c ↔ ¬SeverityLost c := by
  have hread : (typedChange valueText c).severity =
      ((textMember c "severity").map mapSeverityWithFallback).getD
        (actionToSeverity (.parse (actionWord c))) := rfl
  rw [hread, documentedSeverity, SeverityLost]
  cases hraw : textMember c "severity" with
  | none => simp
  | some raw =>
    cases hknown : recognisedSeverity raw with
    | none => simp [mapSeverityWithFallback_eq, hknown, eq_comm]
    | some severity => simp [mapSeverityWithFallback_eq, hknown]

/-- The readers agree on every bundle of fewer than 2^32 changes, save where an unknown severity
word hides the severity of a no-op, a delete or a replacement. -/
theorem readersAgree_iff (valueText : Doc → String) {bundle : Doc} {changes : List Doc}
    (h : bundleChanges bundle = some changes) :
    ReadersAgree valueText bundle changes ↔
      changes.length < 2 ^ 32 ∧ ∀ c ∈ changes, ¬SeverityLost c := by
  have hchanges := resourceChangesFrom_eq valueText h
  have htotal : (bundleArtifact valueText bundle).summaryCounts.2.2.2 =
      min changes.length (2 ^ 32 - 1) := by
    rw [bundleArtifact, summaryCounts_total, hchanges, List.length_map]
  have hseverities : List.Forall₂ (fun c e => e.severity = documentedSeverity c) changes
      (resourceChangesFrom valueText bundle) ↔ ∀ c ∈ changes, ¬SeverityLost c := by
    rw [hchanges, List.forall₂_map_right_iff, List.forall₂_same]
    simp only [typedChange_severity_iff]
  constructor
  · intro hagree
    refine ⟨?_, hseverities.mp hagree.severities⟩
    have hlength := hagree.total
    rw [htotal] at hlength
    omega
  · rintro ⟨hlength, hlost⟩
    refine ⟨?_, ?_, ?_, hseverities.mpr hlost⟩
    · rw [hchanges, List.forall₂_map_right_iff, List.forall₂_same]
      exact fun c _ => ⟨rfl, rfl⟩
    · rw [hchanges]
      exact bundleDistributionFrom_eq valueText h
    · rw [htotal]
      omega

/-- A subnet that is created under a severity word that is not known, and a network that is
deleted under one that is. -/
def createdSubnet : List Doc :=
  [.obj [("address", .str "aws_subnet.a"), ("action", .str "create"),
      ("severity", .str "moderate")],
    .obj [("address", .str "aws_vpc.main"), ("action", .str "delete"),
      ("severity", .str "Critical")]]

theorem createdSubnet_readers_agree :
    ReadersAgree (fun _ => "") (.obj [("plan", .obj [("changes", .arr createdSubnet)])])
      createdSubnet := by
  refine (readersAgree_iff _ rfl).mpr ⟨by decide, fun c hc => ?_⟩
  rcases List.mem_cons.mp hc with rfl | hc
  · rintro ⟨raw, -, -, hlost⟩
    exact hlost (by decide +kernel)
  · rw [List.mem_singleton.mp hc]
    rintro ⟨raw, hraw, hunknown, -⟩
    obtain rfl : "Critical" = raw := by simpa [textMember, Json.lookup] using hraw
    exact absurd hunknown (by decide +kernel)

/-- A network that is deleted under the severity word of another vocabulary. -/
def deletedNetwork : Doc :=
  .obj [("address", .str "aws_vpc.main"), ("action", .str "delete"), ("severity", .str "high")]

/-- It reads as functional, though deletes are breaking. -/
theorem deletedNetwork_severity :
    (resourceChangesFrom (fun _ => "")
      (.obj [("plan", .obj [("changes", .arr [deletedNetwork])])])).map
      (fun e => (e.action, e.severity)) = [(.delete, .functional)] ∧
    recognisedSeverity "high" = none ∧ documentedSeverity deletedNetwork = .breaking ∧
    actionToSeverity .delete = .breaking := by
  decide +kernel

end PangeaOperator
