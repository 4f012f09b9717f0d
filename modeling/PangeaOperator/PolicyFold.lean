import Mathlib
import PangeaOperator.Glob
import PangeaOperator.Policy

/-!
# The policy engine as a fold

`executor/policy.rs`. An entry is decided by the first rule that applies to it, or by the fallback
with its two floors, and a plan by the strictest decision of its entries. What applies depends on
the type of the resource, which the code reads off the address. The counters are taken not to run
over.
-/

namespace PangeaOperator

open Wildcard

/-- Some listed word names what the entry has; an unknown word names nothing. -/
def Names {α : Type} (parseWire : String → Option α) (listed : List String) (value : String) :
    Prop :=
  ∃ word ∈ listed, ∃ v, parseWire word = some v ∧ parseWire value = some v

/-- Each field of a rule that lists something meets the entry of a resource of this type. -/
structure RuleApplies (regex : String → Option (String → Bool)) (rule : PolicyRule)
    (type : String) (d : DriftDetail) : Prop where
  resourceTypes : rule.match_.resourceTypes = [] ∨ ∃ g ∈ rule.match_.resourceTypes,
    Fills '*' g.toList type.toList
  addressPatterns : rule.match_.addressPatterns = [] ∨ ∃ p ∈ rule.match_.addressPatterns,
    ∃ isMatch, regex p = some isMatch ∧ isMatch d.address = true
  actions : rule.match_.actions = [] ∨ Names DriftAction.parseWire rule.match_.actions d.action
  riskLevels : rule.match_.riskLevels = [] ∨ Names RiskLevel.parseWire rule.match_.riskLevels d.risk
  attributes : rule.match_.attributes = [] ∨ ∃ attr ∈ d.attributes, ∃ g ∈ rule.match_.attributes,
    Fills '*' g.toList attr.toList

def ProtectedType (type : String) : Prop := type ∈ protectedResourceTypes

/-- The action is known to destroy. -/
def DriftDestroys (d : DriftDetail) : Prop :=
  DriftAction.parseWire d.action = some .delete ∨ DriftAction.parseWire d.action = some .replace

/-- The action is known not to destroy. -/
def DriftSpares (d : DriftDetail) : Prop :=
  DriftAction.parseWire d.action = some .create ∨ DriftAction.parseWire d.action = some .update

/-- How an entry of a resource of this type is decided. -/
inductive Decides (regex : String → Option (String → Bool)) (rules : List PolicyRule)
    (fallback : PolicyDecision) (type : String) (d : DriftDetail) : PolicyDecision → Prop where
  | first {before after : List PolicyRule} {rule : PolicyRule} :
      rules = before ++ rule :: after → (∀ r ∈ before, ¬RuleApplies regex r type d) →
      RuleApplies regex rule type d → Decides regex rules fallback type d rule.decision
  | raised : (∀ r ∈ rules, ¬RuleApplies regex r type d) → fallback = .autoApply →
      ProtectedType type → DriftDestroys d → Decides regex rules fallback type d .requireApproval
  | lowered : (∀ r ∈ rules, ¬RuleApplies regex r type d) → fallback = .requireApproval →
      ¬ProtectedType type → DriftSpares d → Decides regex rules fallback type d .autoApply
  | kept : (∀ r ∈ rules, ¬RuleApplies regex r type d) →
      ¬(fallback = .autoApply ∧ ProtectedType type ∧ DriftDestroys d) →
      ¬(fallback = .requireApproval ∧ ¬ProtectedType type ∧ DriftSpares d) →
      Decides regex rules fallback type d fallback

/-- An entry of a drift list and the resource it is about; a type is an identifier, so it has no
star either. -/
structure PlannedDrift where
  detail : DriftDetail
  resource : ResourceAddress
  addressed : detail.address = resource.render
  starless : '*' ∉ resource.type.toList

/-- The entry with its decision. -/
structure Annotates (regex : String → Option (String → Bool)) (rules : List PolicyRule)
    (fallback : PolicyDecision) (p : PlannedDrift) (e : DriftDetail) : Prop where
  address : e.address = p.detail.address
  action : e.action = p.detail.action
  risk : e.risk = p.detail.risk
  attributes : e.attributes = p.detail.attributes
  decided : ∃ decision, Decides regex rules fallback p.resource.type p.detail decision ∧
    e.policyDecision = some decision.asStr

/-- `evaluate` goes through the entries one by one and keeps the strictest decision. -/
structure FoldsStrictest (regex : String → Option (String → Bool)) (rules : List PolicyRule)
    (defaultDecision : Option PolicyDecision) (ps : List PlannedDrift) : Prop where
  annotated : List.Forall₂ (Annotates regex rules (defaultDecision.getD .autoApply)) ps
    (evaluatePolicy regex rules defaultDecision (ps.map PlannedDrift.detail)).annotatedDrifts
  counted :
    let e := (evaluatePolicy regex rules defaultDecision (ps.map PlannedDrift.detail)).evaluation
    e.autoApplyCount + e.requireApprovalCount + e.refuseCount = ps.length
  strictest : ∀ decision, ps ≠ [] →
    (evaluatePolicy regex rules defaultDecision (ps.map PlannedDrift.detail)).aggregate = decision →
    (∃ p ∈ ps, Decides regex rules (defaultDecision.getD .autoApply) p.resource.type p.detail
      decision) ∧
    ∀ p ∈ ps, ∀ other,
      Decides regex rules (defaultDecision.getD .autoApply) p.resource.type p.detail other →
        other.strictness ≤ decision.strictness
  empty : ps = [] →
    (evaluatePolicy regex rules defaultDecision (ps.map PlannedDrift.detail)).aggregate =
      defaultDecision.getD .autoApply
  perm : ∀ ds : List DriftDetail, ds.Perm (ps.map PlannedDrift.detail) →
    (evaluatePolicy regex rules defaultDecision ds).aggregate =
      (evaluatePolicy regex rules defaultDecision (ps.map PlannedDrift.detail)).aggregate
  append : ∀ ds, ps ≠ [] →
    (evaluatePolicy regex rules defaultDecision (ps.map PlannedDrift.detail)).aggregate.strictness ≤
      (evaluatePolicy regex rules defaultDecision
        (ps.map PlannedDrift.detail ++ ds)).aggregate.strictness

section Rules

variable {regex : String → Option (String → Bool)} {rules : List PolicyRule} {rule : PolicyRule}
  {fallback decision : PolicyDecision} {type : String} {d : DriftDetail}

theorem wireMatch_iff {α : Type} [DecidableEq α] (parseWire : String → Option α)
    (listed : List String) (value : String) :
    wireMatch parseWire listed value = true ↔ listed = [] ∨ Names parseWire listed value := by
  rw [wireMatch, Bool.or_eq_true, List.isEmpty_iff, Names]
  apply or_congr_right
  cases hvalue : parseWire value with
  | none => simp
  | some v => simp

theorem matches_iff :
    rule.matches regex d = true ↔ RuleApplies regex rule (addressType d.address) d := by
  have htypes (m : PolicyMatch) : (m.resourceTypes.isEmpty ||
      m.resourceTypes.any (fun g => globMatch g (addressType d.address))) = true ↔
      m.resourceTypes = [] ∨ ∃ g ∈ m.resourceTypes,
        Fills '*' g.toList (addressType d.address).toList := by
    simp [globMatch_iff_fills]
  have haddress (m : PolicyMatch) : (m.addressPatterns.isEmpty ||
      (m.addressPatterns.filterMap regex).any (fun isMatch => isMatch d.address)) = true ↔
      m.addressPatterns = [] ∨ ∃ p ∈ m.addressPatterns, ∃ isMatch,
        regex p = some isMatch ∧ isMatch d.address = true := by
    rw [Bool.or_eq_true, List.isEmpty_iff, List.any_eq_true]
    apply or_congr_right
    constructor
    · rintro ⟨isMatch, hmem, hmatch⟩
      obtain ⟨p, hp, hregex⟩ := List.mem_filterMap.mp hmem
      exact ⟨p, hp, isMatch, hregex, hmatch⟩
    · rintro ⟨p, hp, isMatch, hregex, hmatch⟩
      exact ⟨isMatch, List.mem_filterMap.mpr ⟨p, hp, hregex⟩, hmatch⟩
  have hattributes (m : PolicyMatch) : (m.attributes.isEmpty ||
      d.attributes.any (fun attr => m.attributes.any (fun g => globMatch g attr))) = true ↔
      m.attributes = [] ∨ ∃ attr ∈ d.attributes, ∃ g ∈ m.attributes,
        Fills '*' g.toList attr.toList := by
    simp [globMatch_iff_fills]
  rw [PolicyRule.matches, Bool.and_eq_true, Bool.and_eq_true, Bool.and_eq_true, Bool.and_eq_true,
    htypes, haddress, hattributes, actionsMatch, riskLevelsMatch, wireMatch_iff, wireMatch_iff]
  constructor
  · rintro ⟨⟨⟨⟨h1, h2⟩, h3⟩, h4⟩, h5⟩
    exact ⟨h1, h2, h3, h4, h5⟩
  · rintro ⟨h1, h2, h3, h4, h5⟩
    exact ⟨⟨⟨⟨h1, h2⟩, h3⟩, h4⟩, h5⟩

theorem isDestructiveAction_iff : isDestructiveAction d.action = true ↔ DriftDestroys d := by
  rw [isDestructiveAction, DriftDestroys]
  cases DriftAction.parseWire d.action with
  | none => simp
  | some action => cases action <;> simp

theorem isKnownNondestructiveAction_iff :
    isKnownNondestructiveAction d.action = true ↔ DriftSpares d := by
  rw [isKnownNondestructiveAction, DriftSpares]
  cases DriftAction.parseWire d.action with
  | none => simp
  | some action => cases action <;> simp

theorem isProtectedResourceType_iff :
    isProtectedResourceType type = true ↔ ProtectedType type := by
  rw [isProtectedResourceType, ProtectedType, decide_eq_true_eq]

/-- The fallback is raised, lowered or kept. -/
theorem fallback_decides
    (hnone : ∀ r ∈ rules, ¬RuleApplies regex r (addressType d.address) d) :
    Decides regex rules fallback (addressType d.address) d (fallbackDecision fallback d).1 := by
  have hprotected := @isProtectedResourceType_iff (addressType d.address)
  have hdestroys := isDestructiveAction_iff (d := d)
  have hspares := isKnownNondestructiveAction_iff (d := d)
  rw [fallbackDecision]
  split
  · next h => exact .raised hnone h.1 (hprotected.mp h.2.1) (hdestroys.mp h.2.2)
  · next hraised =>
    rw [hprotected, hdestroys] at hraised
    split
    · next h => exact .lowered hnone h.1 (mt hprotected.mpr h.2.2) (hspares.mp h.2.1)
    · next hlowered =>
      rw [hspares, hprotected] at hlowered
      exact .kept hnone hraised fun h => hlowered ⟨h.1, h.2.2, h.2.1⟩

theorem decideDrift_decides (defaultDecision : Option PolicyDecision) :
    Decides regex rules (defaultDecision.getD .autoApply) (addressType d.address) d
      (decideDrift regex rules defaultDecision d).1 := by
  rw [decideDrift]
  cases hfind : rules.find? (fun rule => rule.matches regex d) with
  | some rule =>
    obtain ⟨hmatch, before, after, hrules, hbefore⟩ := List.find?_eq_some_iff_append.mp hfind
    refine .first hrules (fun r hr happlies => ?_) (matches_iff.mp hmatch)
    have hnot := hbefore r hr
    rw [matches_iff.mpr happlies] at hnot
    cases hnot
  | none =>
    refine fallback_decides fun r hr happlies => ?_
    exact List.find?_eq_none.mp hfind r hr (matches_iff.mpr happlies)

/-- The first of two splits of the rules is the other one as well. -/
theorem first_unique {p : PolicyRule → Prop} {a b c e : List PolicyRule} {r s : PolicyRule}
    (h : a ++ r :: b = c ++ s :: e) (ha : ∀ x ∈ a, ¬p x) (hr : p r) (hc : ∀ x ∈ c, ¬p x)
    (hs : p s) : r = s := by
  induction a generalizing c with
  | nil =>
    cases c with
    | nil => exact (List.cons.inj h).1
    | cons y c =>
      obtain ⟨rfl, -⟩ := List.cons.inj h
      exact absurd hr (hc r List.mem_cons_self)
  | cons x a ih =>
    cases c with
    | nil =>
      obtain ⟨rfl, -⟩ := List.cons.inj h
      exact absurd hs (ha x List.mem_cons_self)
    | cons y c =>
      exact ih (List.cons.inj h).2 (fun z hz => ha z (List.mem_cons_of_mem _ hz))
        (fun z hz => hc z (List.mem_cons_of_mem _ hz))

/-- An entry is decided in one way. -/
theorem decides_unique {other : PolicyDecision} (h : Decides regex rules fallback type d decision)
    (h' : Decides regex rules fallback type d other) : decision = other := by
  have hfound {before after : List PolicyRule} {rule : PolicyRule}
      (hrules : rules = before ++ rule :: after) : rule ∈ rules := by
    rw [hrules]
    exact List.mem_append_right _ List.mem_cons_self
  cases h with
  | first hrules hbefore happlies =>
    cases h' with
    | first hrules' hbefore' happlies' =>
      rw [first_unique (hrules.symm.trans hrules') hbefore happlies hbefore' happlies']
    | raised hnone => exact absurd happlies (hnone _ (hfound hrules))
    | lowered hnone => exact absurd happlies (hnone _ (hfound hrules))
    | kept hnone => exact absurd happlies (hnone _ (hfound hrules))
  | raised hnone hauto hprotected hdestroys =>
    cases h' with
    | first hrules _ happlies => exact absurd happlies (hnone _ (hfound hrules))
    | raised => rfl
    | lowered _ happroval => exact absurd (hauto.symm.trans happroval) (by decide)
    | kept _ hnot => exact absurd ⟨hauto, hprotected, hdestroys⟩ hnot
  | lowered hnone happroval hplain hspares =>
    cases h' with
    | first hrules _ happlies => exact absurd happlies (hnone _ (hfound hrules))
    | raised _ hauto => exact absurd (hauto.symm.trans happroval) (by decide)
    | lowered => rfl
    | kept _ _ hnot => exact absurd ⟨happroval, hplain, hspares⟩ hnot
  | kept hnone hraised hlowered =>
    cases h' with
    | first hrules _ happlies => exact absurd happlies (hnone _ (hfound hrules))
    | raised _ hauto hprotected hdestroys => exact absurd ⟨hauto, hprotected, hdestroys⟩ hraised
    | lowered _ happroval hplain hspares => exact absurd ⟨happroval, hplain, hspares⟩ hlowered
    | kept => rfl

end Rules

section Aggregate

variable (regex : String → Option (String → Bool)) (rules : List PolicyRule)
  (defaultDecision : Option PolicyDecision)

/-- The aggregate of a plan that changes something is the strictest decision in it. -/
theorem aggregateDecision_strictest {drifts : List DriftDetail} (hne : drifts ≠ []) :
    (∃ d ∈ drifts, (decideDrift regex rules defaultDecision d).1 =
      aggregateDecision regex rules defaultDecision drifts) ∧
    ∀ d ∈ drifts, (decideDrift regex rules defaultDecision d).1.strictness ≤
      (aggregateDecision regex rules defaultDecision drifts).strictness := by
  have hpos := decidedCount_pos_iff regex rules defaultDecision drifts
  have hmost (decision : PolicyDecision) : decision.strictness ≤ 2 := by cases decision <;> decide
  simp only [aggregateDecision, hpos]
  split
  · next hrefuse => exact ⟨hrefuse, fun d _ => hmost _⟩
  · next hrefuse =>
    push Not at hrefuse
    split
    · next happroval =>
      refine ⟨happroval, fun d hd => ?_⟩
      have hnot := hrefuse d hd
      cases h : (decideDrift regex rules defaultDecision d).1 with
      | autoApply => decide
      | requireApproval => decide
      | refuse => exact absurd h hnot
    · next happroval =>
      push Not at happroval
      have hauto (d : DriftDetail) (hd : d ∈ drifts) :
          (decideDrift regex rules defaultDecision d).1 = .autoApply := by
        cases h : (decideDrift regex rules defaultDecision d).1 with
        | autoApply => rfl
        | requireApproval => exact absurd h (happroval d hd)
        | refuse => exact absurd h (hrefuse d hd)
      obtain ⟨d, hd⟩ := List.exists_mem_of_ne_nil drifts hne
      rw [if_pos ⟨d, hd, hauto d hd⟩]
      exact ⟨⟨d, hd, hauto d hd⟩, fun e he => (congrArg _ (hauto e he)).le⟩

theorem aggregateDecision_perm {ds es : List DriftDetail} (h : ds.Perm es) :
    aggregateDecision regex rules defaultDecision ds =
      aggregateDecision regex rules defaultDecision es := by
  have hcount (decision : PolicyDecision) : decidedCount regex rules defaultDecision ds decision =
      decidedCount regex rules defaultDecision es decision := h.countP_eq _
  simp only [aggregateDecision, hcount]

theorem aggregateDecision_append {ds : List DriftDetail} (es : List DriftDetail) (hne : ds ≠ []) :
    (aggregateDecision regex rules defaultDecision ds).strictness ≤
      (aggregateDecision regex rules defaultDecision (ds ++ es)).strictness := by
  obtain ⟨⟨d, hd, hdecided⟩, -⟩ := aggregateDecision_strictest regex rules defaultDecision hne
  have hmore := (aggregateDecision_strictest regex rules defaultDecision
    (List.append_ne_nil_of_left_ne_nil hne es)).2 d (List.mem_append_left es hd)
  rwa [hdecided] at hmore

theorem decidedCount_sum (drifts : List DriftDetail) :
    decidedCount regex rules defaultDecision drifts .autoApply +
      decidedCount regex rules defaultDecision drifts .requireApproval +
      decidedCount regex rules defaultDecision drifts .refuse = drifts.length := by
  induction drifts with
  | nil => rfl
  | cons d drifts ih =>
    simp only [decidedCount, List.countP_cons, List.length_cons] at ih ⊢
    cases (decideDrift regex rules defaultDecision d).1 with
    | autoApply =>
      simp only [decide_true, if_true, reduceCtorEq, decide_false, Bool.false_eq_true, if_false]
      omega
    | requireApproval =>
      simp only [decide_true, if_true, reduceCtorEq, decide_false, Bool.false_eq_true, if_false]
      omega
    | refuse =>
      simp only [decide_true, if_true, reduceCtorEq, decide_false, Bool.false_eq_true, if_false]
      omega

end Aggregate

section Fold

variable {regex : String → Option (String → Bool)} {rules : List PolicyRule}
  {defaultDecision : Option PolicyDecision} {ps : List PlannedDrift}

theorem asStr_injective : Function.Injective PolicyDecision.asStr := by
  intro a b h
  cases a <;> cases b <;> first | rfl | exact absurd h (by decide)

/-- The annotations are right where each entry is decided as its type asks. -/
theorem annotated_iff :
    List.Forall₂ (Annotates regex rules (defaultDecision.getD .autoApply)) ps
        (evaluatePolicy regex rules defaultDecision (ps.map PlannedDrift.detail)).annotatedDrifts ↔
      ∀ p ∈ ps, Decides regex rules (defaultDecision.getD .autoApply) p.resource.type p.detail
        (decideDrift regex rules defaultDecision p.detail).1 := by
  rw [evaluatePolicy, List.map_map, List.forall₂_map_right_iff, List.forall₂_same]
  refine forall₂_congr fun p _ => ⟨?_, fun h => ⟨rfl, rfl, rfl, rfl, _, h, rfl⟩⟩
  rintro ⟨-, -, -, -, decision, hdecides, hrecorded⟩
  have hsame := asStr_injective (Option.some.inj hrecorded)
  rwa [← hsame] at hdecides

theorem foldsStrictest_of_types
    (h : ∀ p ∈ ps, addressType p.detail.address = p.resource.type) :
    FoldsStrictest regex rules defaultDecision ps := by
  have hdecides (p : PlannedDrift) (hp : p ∈ ps) :
      Decides regex rules (defaultDecision.getD .autoApply) p.resource.type p.detail
        (decideDrift regex rules defaultDecision p.detail).1 := by
    rw [← h p hp]
    exact decideDrift_decides defaultDecision
  constructor
  · exact annotated_iff.mpr hdecides
  · rw [← List.length_map]
    exact decidedCount_sum regex rules defaultDecision _
  · intro decision hne hdecision
    have hdetails : ps.map PlannedDrift.detail ≠ [] := by simpa using hne
    obtain ⟨⟨d, hd, hdecided⟩, hmost⟩ :=
      aggregateDecision_strictest regex rules defaultDecision hdetails
    change aggregateDecision regex rules defaultDecision _ = decision at hdecision
    rw [hdecision] at hdecided hmost
    obtain ⟨p, hp, rfl⟩ := List.mem_map.mp hd
    refine ⟨⟨p, hp, hdecided ▸ hdecides p hp⟩, fun q hq other hother => ?_⟩
    rw [decides_unique hother (hdecides q hq)]
    exact hmost q.detail (List.mem_map_of_mem hq)
  · rintro rfl
    rfl
  · intro ds hperm
    exact aggregateDecision_perm regex rules defaultDecision hperm
  · intro ds hne
    exact aggregateDecision_append regex rules defaultDecision ds (by simpa using hne)

/-- Refuses whatever changes a resource of this type. -/
def refuseType (type : String) : PolicyRule := ⟨"by-type", { resourceTypes := [type] }, .refuse⟩

/-- A rule on a type without a star matches the entries whose address begins with it. -/
theorem refuseType_matches_iff {type : String} (h : '*' ∉ type.toList) (d : DriftDetail) :
    (refuseType type).matches regex d = true ↔ type = addressType d.address := by
  have hstar : type ≠ "*" := by
    rintro rfl
    exact h (by decide)
  simp [PolicyRule.matches, refuseType, actionsMatch, riskLevelsMatch, wireMatch, globMatch, hstar,
    h]

theorem refuseType_applies {type : String} (h : '*' ∉ type.toList) (d : DriftDetail) :
    RuleApplies regex (refuseType type) type d := by
  have hstar : type ≠ "*" := by
    rintro rfl
    exact h (by decide)
  have hfills : globMatch type type = true := by simp [globMatch, hstar, h]
  exact ⟨.inr ⟨type, List.mem_singleton_self type, (globMatch_iff_fills _ _).mp hfills⟩,
    .inl rfl, .inl rfl, .inl rfl, .inl rfl⟩

/-- An entry whose address begins with something else escapes the rule on its type. -/
theorem type_of_folds {p : PlannedDrift} (hp : p ∈ ps)
    (h : FoldsStrictest regex [refuseType p.resource.type] none ps) :
    addressType p.detail.address = p.resource.type := by
  by_contra hne
  have hdecides := annotated_iff.mp h.annotated p hp
  have hrefuses : Decides regex [refuseType p.resource.type] .autoApply p.resource.type p.detail
      .refuse := .first (List.nil_append _).symm (by simp) (refuseType_applies p.starless p.detail)
  have hrefused := decides_unique hdecides hrefuses
  have hfind : [refuseType p.resource.type].find? (fun rule => rule.matches regex p.detail) =
      none := by
    rw [List.find?_eq_none]
    intro rule hrule
    rw [List.mem_singleton.mp hrule, refuseType_matches_iff p.starless]
    exact fun htype => hne htype.symm
  rw [decideDrift, hfind] at hrefused
  simp only [fallbackDecision, Option.getD_none] at hrefused
  split at hrefused
  · cases hrefused
  · split at hrefused <;> cases hrefused

end Fold

/-- Under all rules and defaults, the entries of a drift list are folded as their types ask exactly
where the text before the first dot of each address is the type of the resource. -/
theorem evaluate_folds_strictest_iff (ps : List PlannedDrift) :
    (∀ regex rules defaultDecision, FoldsStrictest regex rules defaultDecision ps) ↔
      ∀ p ∈ ps, addressType p.detail.address = p.resource.type := by
  constructor
  · intro h p hp
    exact type_of_folds hp (h (fun _ => none) [refuseType p.resource.type] none)
  · intro h regex rules defaultDecision
    exact foldsStrictest_of_types h

/-- The delete of a network in a module. -/
def moduleVpcDelete : PlannedDrift where
  detail := ⟨"module.net.aws_vpc.main", "delete", "high", [], none, none⟩
  resource := { mainVpc with modules := [⟨"net", none⟩] }
  addressed := by decide
  starless := by decide

/-- Without rules or a default it is applied on its own, below the floor. -/
theorem module_vpc_delete_auto_applied :
    ¬FoldsStrictest (fun _ => none) [] none [moduleVpcDelete] ∧
      (evaluatePolicy (fun _ => none) [] none [moduleVpcDelete.detail]).aggregate = .autoApply := by
  refine ⟨fun h => ?_, by decide⟩
  have hdecides := annotated_iff.mp h.annotated moduleVpcDelete List.mem_cons_self
  have hraised : Decides (fun _ => none) [] .autoApply moduleVpcDelete.resource.type
      moduleVpcDelete.detail .requireApproval :=
    .raised (by simp) rfl (isProtectedResourceType_iff.mp (by decide)) (.inl (by decide))
  exact absurd (decides_unique hdecides hraised) (by decide)

end PangeaOperator
