import PangeaOperator.Crd

/-!
# The policy engine

`executor/policy.rs`: each drift entry gets the decision of the first rule that
matches it, or the fallback with its floor; the strictest decision gates the plan.
Regular expressions are the regex crate's and stay a parameter.
-/

namespace PangeaOperator

inductive DriftAction where
  | create
  | update
  | delete
  | replace
  deriving DecidableEq, Repr

def DriftAction.parseWire : String → Option DriftAction
  | "create" => some create
  | "update" => some update
  | "delete" => some delete
  | "replace" => some replace
  | _ => none

inductive RiskLevel where
  | none
  | low
  | medium
  | high
  deriving DecidableEq, Repr

def RiskLevel.parseWire : String → Option RiskLevel
  | "none" => some none
  | "low" => some low
  | "medium" => some medium
  | "high" => some high
  | _ => Option.none

inductive PolicyDecision where
  | autoApply
  | requireApproval
  | refuse
  deriving DecidableEq, Repr

namespace PolicyDecision

def asStr : PolicyDecision → String
  | autoApply => "autoApply"
  | requireApproval => "requireApproval"
  | refuse => "refuse"

/-- How strong a gate a decision is. -/
def strictness : PolicyDecision → Nat
  | autoApply => 0
  | requireApproval => 1
  | refuse => 2

end PolicyDecision

structure PolicyMatch where
  resourceTypes : List String := []
  addressPatterns : List String := []
  actions : List String := []
  riskLevels : List String := []
  attributes : List String := []
  deriving DecidableEq, Repr

structure PolicyRule where
  name : String
  match_ : PolicyMatch
  decision : PolicyDecision
  deriving DecidableEq, Repr

def protectedResourceTypes : List String :=
  ["cloudflare_zone", "aws_vpc", "aws_eks_cluster", "aws_route53_zone", "aws_db_instance",
    "aws_rds_cluster", "aws_s3_bucket", "google_dns_managed_zone", "azurerm_dns_zone"]

def isProtectedResourceType (resourceType : String) : Bool :=
  resourceType ∈ protectedResourceTypes

def isDestructiveAction (action : String) : Bool :=
  match DriftAction.parseWire action with
  | some .delete | some .replace => true
  | _ => false

def isKnownNondestructiveAction (action : String) : Bool :=
  match DriftAction.parseWire action with
  | some .create | some .update => true
  | _ => false

/-- The rest of a text behind the first occurrence of `part`. -/
def afterFirst (part : List Char) : List Char → Option (List Char)
  | [] => if part.isEmpty then some [] else none
  | c :: cs => if part.isPrefixOf (c :: cs) then some ((c :: cs).drop part.length)
    else afterFirst part cs

/-- The walk over the segments between stars. A last segment has to end the text without reaching
back over what is matched already, so it ends the rest. -/
def globSegments (first : Bool) : List (List Char) → List Char → Bool
  | [], _ => true
  | [part], rest => part.isEmpty || (if first then part.isPrefixOf rest else part.isSuffixOf rest)
  | part :: parts, rest =>
    if part.isEmpty then globSegments false parts rest
    else if first then
      part.isPrefixOf rest && globSegments false parts (rest.drop part.length)
    else match afterFirst part rest with
      | some rest => globSegments false parts rest
      | none => false

def globMatch (pattern input : String) : Bool :=
  if pattern = "*" then true
  else if '*' ∉ pattern.toList then pattern = input
  else globSegments true (pattern.toList.splitOn '*') input.toList

/-- The text before the first dot of an address. -/
def addressType (address : String) : String :=
  String.ofList (address.toList.takeWhile (· ≠ '.'))

/-- Membership in a list over a closed vocabulary; the empty list is a wildcard. -/
def wireMatch {α : Type} [DecidableEq α] (parseWire : String → Option α) (listed : List String)
    (value : String) : Bool :=
  listed.isEmpty || match parseWire value with
    | some v => listed.any (fun l => parseWire l = some v)
    | none => false

def actionsMatch (actions : List String) (action : String) : Bool :=
  wireMatch DriftAction.parseWire actions action

def riskLevelsMatch (riskLevels : List String) (risk : String) : Bool :=
  wireMatch RiskLevel.parseWire riskLevels risk

/-- The floor of an unmatched entry: a destroy of a protected type needs approval, and adding to
or amending an unprotected one does not. -/
def fallbackDecision (fallback : PolicyDecision) (d : DriftDetail) : PolicyDecision × String :=
  let resourceType := addressType d.address
  if fallback = .autoApply ∧ isProtectedResourceType resourceType ∧
      isDestructiveAction d.action then
    (.requireApproval, "<protected-resource-floor>")
  else if fallback = .requireApproval ∧ isKnownNondestructiveAction d.action ∧
      ¬isProtectedResourceType resourceType then
    (.autoApply, "<default-nondestructive>")
  else (fallback, "<default>")

structure PolicyOutcome where
  annotatedDrifts : List DriftDetail
  aggregate : PolicyDecision
  evaluation : PolicyEvaluation
  deriving DecidableEq, Repr

def policyIsConfigured (rules : List PolicyRule) (defaultDecision : Option PolicyDecision) : Bool :=
  !rules.isEmpty || defaultDecision.isSome

section Evaluate

variable (regex : String → Option (String → Bool))

def PolicyRule.matches (rule : PolicyRule) (d : DriftDetail) : Bool :=
  let m := rule.match_
  (m.resourceTypes.isEmpty || m.resourceTypes.any (fun g => globMatch g (addressType d.address))) &&
    (m.addressPatterns.isEmpty ||
      (m.addressPatterns.filterMap regex).any (fun isMatch => isMatch d.address)) &&
    actionsMatch m.actions d.action &&
    riskLevelsMatch m.riskLevels d.risk &&
    (m.attributes.isEmpty ||
      d.attributes.any (fun attr => m.attributes.any (fun g => globMatch g attr)))

variable (rules : List PolicyRule) (defaultDecision : Option PolicyDecision)

/-- Decision and rule name for one entry. -/
def decideDrift (d : DriftDetail) : PolicyDecision × String :=
  match rules.find? (fun rule => rule.matches regex d) with
  | some rule => (rule.decision, rule.name)
  | none => fallbackDecision (defaultDecision.getD .autoApply) d

def annotate (d : DriftDetail) : DriftDetail :=
  let (decision, name) := decideDrift regex rules defaultDecision d
  { d with policyDecision := some decision.asStr, matchedPolicy := some name }

/-- How many entries were decided this way. -/
def decidedCount (drifts : List DriftDetail) (decision : PolicyDecision) : Nat :=
  drifts.countP (fun d => (decideDrift regex rules defaultDecision d).1 = decision)

def aggregateDecision (drifts : List DriftDetail) : PolicyDecision :=
  let count := decidedCount regex rules defaultDecision drifts
  if 0 < count .refuse then .refuse
  else if 0 < count .requireApproval then .requireApproval
  else if 0 < count .autoApply then .autoApply
  else defaultDecision.getD .autoApply

def evaluatePolicy (drifts : List DriftDetail) : PolicyOutcome :=
  let count := decidedCount regex rules defaultDecision drifts
  let aggregate := aggregateDecision regex rules defaultDecision drifts
  let refused := drifts.filter (fun d => (decideDrift regex rules defaultDecision d).1 = .refuse)
  { annotatedDrifts := drifts.map (annotate regex rules defaultDecision)
    aggregate
    evaluation := {
      aggregate := aggregate.asStr
      autoApplyCount := count .autoApply
      requireApprovalCount := count .requireApproval
      refuseCount := count .refuse
      refusedAddresses := (refused.map DriftDetail.address).take 10
      evaluatedCount := drifts.length % 2 ^ 32 } }

theorem decidedCount_pos_iff (drifts : List DriftDetail) (decision : PolicyDecision) :
    0 < decidedCount regex rules defaultDecision drifts decision ↔
      ∃ d ∈ drifts, (decideDrift regex rules defaultDecision d).1 = decision := by
  simp [decidedCount, List.countP_pos_iff]

end Evaluate

/-- A `count` index or a `for_each` key. -/
inductive IndexKey where
  | count (n : Nat)
  | forEach (key : String)
  deriving DecidableEq, Repr

def IndexKey.text : Option IndexKey → String
  | none => ""
  | some (count n) => "[" ++ toString n ++ "]"
  | some (forEach key) => "[\"" ++ key ++ "\"]"

structure ModuleCall where
  name : String
  index : Option IndexKey
  deriving DecidableEq, Repr

/-- The address of a managed resource; a type is an identifier, so it has no dot. -/
structure ResourceAddress where
  modules : List ModuleCall
  type : String
  name : String
  index : Option IndexKey
  type_dotless : '.' ∉ type.toList

namespace ResourceAddress

def render (a : ResourceAddress) : String :=
  String.join (a.modules.map (fun m => "module." ++ m.name ++ IndexKey.text m.index ++ ".")) ++
    (a.type ++ "." ++ a.name ++ IndexKey.text a.index)

/-- In the root module the text before the first dot is the type, whatever name and key follow. -/
theorem addressType_render {a : ResourceAddress} (h : a.modules = []) :
    addressType a.render = a.type := by
  have hrender : a.render.toList =
      a.type.toList ++ '.' :: (a.name ++ IndexKey.text a.index).toList := by
    simp [render, h, String.join]
  have htype : a.type.toList.takeWhile (· ≠ '.') = a.type.toList := by
    rw [List.takeWhile_eq_self_iff]
    intro c hc
    have hne : c ≠ '.' := fun he => a.type_dotless (he ▸ hc)
    simpa using hne
  rw [addressType, hrender, List.takeWhile_append, htype]
  simp

end ResourceAddress

/-- The entry is held at least for approval. -/
def HeldForApproval (e : DriftDetail) : Prop :=
  ∃ decision : PolicyDecision, e.policyDecision = some decision.asStr ∧
    PolicyDecision.requireApproval.strictness ≤ decision.strictness

/-- Every destroy of a protected type, at any module depth, is held for approval. -/
def KeepsFloor (regex : String → Option (String → Bool)) (rules : List PolicyRule)
    (defaultDecision : Option PolicyDecision) (drifts : List DriftDetail) : Prop :=
  List.Forall₂ (fun d e => ∀ a : ResourceAddress, d.address = a.render →
      isProtectedResourceType a.type → isDestructiveAction d.action → HeldForApproval e)
    drifts (evaluatePolicy regex rules defaultDecision drifts).annotatedDrifts

section Floor

variable (regex : String → Option (String → Bool))

theorem fallbackDecision_held {fallback : PolicyDecision} {d : DriftDetail}
    (hp : isProtectedResourceType (addressType d.address))
    (hd : isDestructiveAction d.action) :
    PolicyDecision.requireApproval.strictness ≤ (fallbackDecision fallback d).1.strictness := by
  cases fallback <;> simp [fallbackDecision, hp, hd, PolicyDecision.strictness]

theorem annotate_held {rules : List PolicyRule} (defaultDecision : Option PolicyDecision)
    {d : DriftDetail} (hn : ∀ rule ∈ rules, rule.matches regex d = false)
    (hp : isProtectedResourceType (addressType d.address)) (hd : isDestructiveAction d.action) :
    HeldForApproval (annotate regex rules defaultDecision d) := by
  have hfind : rules.find? (fun rule => rule.matches regex d) = none := by
    rw [List.find?_eq_none]
    intro rule hr
    simp [hn rule hr]
  refine ⟨(decideDrift regex rules defaultDecision d).1, rfl, ?_⟩
  rw [decideDrift, hfind]
  exact fallbackDecision_held hp hd

/-- Without address patterns a rule sees no more of an address than its type. -/
theorem matches_congr {rule : PolicyRule} (hp : rule.match_.addressPatterns = [])
    {d d' : DriftDetail} (ht : addressType d.address = addressType d'.address)
    (ha : d.action = d'.action) (hr : d.risk = d'.risk) (hat : d.attributes = d'.attributes) :
    rule.matches regex d = rule.matches regex d' := by
  simp [PolicyRule.matches, hp, ht, ha, hr, hat]

/-- In the root module a destroy of a protected type that no rule matches is held for approval,
and a rule on resource types without address patterns matches by the type alone. -/
theorem root_module_floor_and_rule_by_type :
    (∀ rules defaultDecision drifts,
      List.Forall₂ (fun d e => ∀ a : ResourceAddress, a.modules = [] → d.address = a.render →
          (∀ rule ∈ rules, PolicyRule.matches regex rule d = false) →
          isProtectedResourceType a.type → isDestructiveAction d.action → HeldForApproval e)
        drifts (evaluatePolicy regex rules defaultDecision drifts).annotatedDrifts) ∧
    (∀ rule : PolicyRule, rule.match_.resourceTypes ≠ [] → rule.match_.addressPatterns = [] →
      ∀ (d d' : DriftDetail) (a a' : ResourceAddress), a.modules = [] → a'.modules = [] →
        d.address = a.render → d'.address = a'.render → a.type = a'.type →
        d.action = d'.action → d.risk = d'.risk → d.attributes = d'.attributes →
        rule.matches regex d = rule.matches regex d') := by
  constructor
  · intro rules defaultDecision drifts
    rw [evaluatePolicy, List.forall₂_map_right_iff, List.forall₂_same]
    intro d _ a hroot haddr hn hp hd
    rw [← ResourceAddress.addressType_render hroot, ← haddr] at hp
    exact annotate_held regex defaultDecision hn hp hd
  · intro rule _ hp d d' a a' hroot hroot' haddr haddr' ht ha hr hat
    refine matches_congr regex hp ?_ ha hr hat
    rw [haddr, haddr', ResourceAddress.addressType_render hroot,
      ResourceAddress.addressType_render hroot', ht]

end Floor

def mainVpc : ResourceAddress := ⟨[], "aws_vpc", "main", none, by decide⟩

def vpcDelete : DriftDetail := ⟨"aws_vpc.main", "delete", "high", [], none, none⟩

/-- An unconfigured template does not delete its VPC on its own. -/
theorem unconfigured_vpc_delete_held :
    HeldForApproval (annotate (fun _ => none) [] none vpcDelete) := by
  have h := (root_module_floor_and_rule_by_type (fun _ => none)).1 [] none [vpcDelete]
  exact (List.forall₂_cons.mp h).1 mainVpc rfl (by decide) (by simp) (by decide) (by decide)

/-- An explicit rule does. -/
theorem explicit_rule_lifts_floor :
    ¬KeepsFloor (fun _ => none) [⟨"allow", {}, .autoApply⟩] none [vpcDelete] := by
  intro h
  obtain ⟨decision, he, hs⟩ :=
    (List.forall₂_cons.mp h).1 mainVpc (by decide) (by decide) (by decide)
  have hauto : some "autoApply" = some decision.asStr := he
  cases decision with
  | autoApply => simp [PolicyDecision.strictness] at hs
  | requireApproval => simp [PolicyDecision.asStr] at hauto
  | refuse => simp [PolicyDecision.asStr] at hauto

end PangeaOperator
