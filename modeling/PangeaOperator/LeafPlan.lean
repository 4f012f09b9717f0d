import Mathlib
import PangeaOperator.LeafNames
import PangeaOperator.StateSplit
import PangeaOperator.TemplateDag

/-!
# Plans of a migration

`pangea-leaf`, `plan.rs` and `classify.rs`. The planner sees the addresses of a state and the
manifest of its template. Once its checks pass it says which template takes which addresses.
-/

namespace PangeaOperator.Migrate

open SipHash

section Classify

inductive FatReason where
  | multipleLeafKeys (leafKeys : Nat)
  | cycleOverBudget (p95Ms budgetMs : Nat)
  deriving Repr, DecidableEq

structure Classification where
  leafKeys : Nat
  cycleP95Ms : Option Nat
  budgetMs : Option Nat
  fat : Bool
  reasons : List FatReason
  deriving Repr, DecidableEq

def keysFrom (keys : SortedMap LeafKey Unit) :
    List String → Except AddressError (SortedMap LeafKey Unit)
  | [] => .ok keys
  | a :: rest =>
    match leafKey a with
    | .error e => .error e
    | .ok key => keysFrom (keys.insert key ()) rest

def distinctLeafKeys (addresses : List String) : Except AddressError (SortedMap LeafKey Unit) :=
  keysFrom SortedMap.empty (addresses.filter (!isData ·))

def classifyCounts (leafKeys : Nat) (cycleP95Ms budgetMs : Option Nat) : Classification :=
  let keys := if leafKeys > 1 then [FatReason.multipleLeafKeys leafKeys] else []
  let cycle :=
    match cycleP95Ms, budgetMs with
    | some p95, some budget => if p95 > budget then [FatReason.cycleOverBudget p95 budget] else []
    | _, _ => []
  ⟨leafKeys, cycleP95Ms, budgetMs, !(keys ++ cycle).isEmpty, keys ++ cycle⟩

def classify (addresses : List String) (cycleP95Ms budgetMs : Option Nat) :
    Except AddressError Classification :=
  (distinctLeafKeys addresses).map fun keys => classifyCounts keys.keys.length cycleP95Ms budgetMs

end Classify

inductive PlanAction where
  | noOp
  | read
  | create
  | update
  | delete
  | replace
  deriving Repr, DecidableEq

def PlanAction.adds (a : PlanAction) : Bool := a = .create || a = .replace
def PlanAction.changes (a : PlanAction) : Bool := a = .update
def PlanAction.destroys (a : PlanAction) : Bool := a = .delete || a = .replace

/-- The references are a set, in its order. -/
structure PlanView where
  changes : List (String × PlanAction)
  references : List (String × String)
  deriving Repr, DecidableEq

inductive PlanError where
  | partition (e : PartitionError)
  | noName
  | noSpec
  deriving Repr, DecidableEq

structure PlannerInput where
  template : Value
  addresses : List String
  plan : Option PlanView
  cycleP95Ms : Option Nat
  budgetMs : Option Nat
  groupReferences : Bool
  maxConcurrentLeaves : Option UInt32

inductive CheckStatus where
  | pass
  | fail (text : String)
  | unproven (text : String)
  deriving Repr, DecidableEq

structure Check where
  name : String
  status : CheckStatus
  deriving Repr, DecidableEq

inductive Verdict where
  | notFat
  | nothingToSplit
  | refused
  | ready
  deriving Repr, DecidableEq

structure Projected where
  add : Nat
  change : Nat
  destroy : Nat
  noOp : Nat
  deriving Repr, DecidableEq

structure LeafPlan where
  template : String
  key : LeafKey
  mergedFrom : List LeafKey
  addresses : List String
  upstreams : List String
  deriving Repr, DecidableEq

structure MigrationPlan where
  fatTemplate : String
  classification : Classification
  verdict : Verdict
  checks : List Check
  bijection : Option Partition.Bijection
  projected : Option Projected
  leafCount : Nat
  partitionSizes : SortedMap Nat Nat
  leaves : List LeafPlan
  stateMoves : List StateMove
  catalog : Option Value
  leafTemplates : List Value
  fatPatch : Option Value

section Manifests

def leafKeyVariable : String := "leaf_key"
def leafOfLabel : String := "pangea.pleme.io/leaf-of"
def workspaceLabel : String := "pangea.pleme.io/workspace"
def apiVersion : String := "pangea.pleme.io/v1alpha1"

def asObject : Value → Option (List (String × Value))
  | .obj ms => some ms
  | _ => none

/-- `Map::remove`: the last member takes the place of the one that goes. -/
def swapRemove (k : String) (ms : List (String × Value)) : List (String × Value) :=
  match ms.findIdx? (·.1 = k), ms.getLast? with
  | some i, some last => (ms.set i last).dropLast
  | _, _ => ms

/-- `string_at(v, "/metadata/…")` -/
def metadataString (v : Value) (k : String) : Option String :=
  ((v.get? "metadata").bind (·.get? k)).bind asStr

def leafManifest (fat : Value) (fatName : String) (leaf : LeafPlan) (catalog : String)
    (variableRefs : SortedMap String Value) : Value :=
  let spec := ((fat.get? "spec").bind asObject).getD []
  let spec := Json.set "variables" (.obj [(leafKeyVariable, .str leaf.key.raw)]) spec
  let spec := Json.set "destroyProtection" (.bool true) spec
  let spec := Json.set "suspend" (.bool false) spec
  let spec := Json.set "importPolicy" (.obj [("autoOnConflict", .bool true)]) spec
  let spec := swapRemove "destroyAuthorization" spec
  let spec := swapRemove "approvedPlanHash" spec
  let spec :=
    if variableRefs.entries.isEmpty then swapRemove "variableRefs" spec
    else Json.set "variableRefs" (.obj variableRefs.entries) spec
  let labels : Value := .obj [(workspaceLabel, .str catalog), (leafOfLabel, .str fatName)]
  let metadata :=
    [("name", Json.str leaf.template)] ++
      ((metadataString fat "namespace").map fun ns => ("namespace", Json.str ns)).toList ++
      [("labels", labels)]
  .obj [("apiVersion", .str apiVersion), ("kind", .str "InfrastructureTemplate"),
    ("metadata", .obj metadata), ("spec", .obj spec)]

def catalogManifest (name : String) (variableValues : Option Value) (max : Option UInt32) : Value :=
  let spec :=
    [("source", Json.obj [])] ++ (variableValues.map fun v => ("variables", v)).toList ++
      (max.map fun m => ("maxConcurrentLeaves", Json.num (.posInt m.toUInt64))).toList
  .obj [("apiVersion", .str apiVersion), ("kind", .str "WorkspaceCatalog"),
    ("metadata", .obj [("name", .str name)]), ("spec", .obj spec)]

def variableRefsFor (leaf : LeafPlan) (edges : List (LeafKey × LeafKey))
    (names : SortedMap LeafKey String) : SortedMap String Value :=
  (edges.filter fun e => nameOf names e.1 = leaf.template).foldl (fun refs e =>
    let up := nameOf names e.2
    refs.insert ("upstream_" ++ String.ofList (up.toList.map fun c => if c = '-' then '_' else c))
      (.obj [("templateRef", .obj [("name", .str up)]), ("outputKey", .str "ready")]))
    SortedMap.empty

end Manifests

section Edges

/-- The leaves that hold an address, index keys aside. -/
def strippedIndex (p : Partition) : SortedMap String (SortedMap LeafKey Unit) :=
  p.leaves.foldl (fun m l => l.addresses.foldl (fun m a =>
    match stripIndex a with
    | .ok s => m.upsert s fun keys => (keys.getD SortedMap.empty).insert l.key ()
    | .error _ => m) m) SortedMap.empty

def referenceLeafEdges (p : Partition) (view : PlanView) : List (LeafKey × LeafKey) :=
  let idx := strippedIndex p
  view.references.flatMap fun r =>
    match idx.get? r.1, idx.get? r.2 with
    | some fs, some ts =>
      fs.keys.flatMap fun f => ts.keys.filterMap fun t =>
        if f ≠ t ∧ (fs.keys.length = 1 ∨ ts.keys.length = 1) then some (f, t) else none
    | _, _ => []

/-- Edges to the one leaf of an upstream, in their order and each once. -/
def singletonEdges (p : Partition) (view : Option PlanView) : List (LeafKey × LeafKey) :=
  match view with
  | none => []
  | some view =>
    let idx := strippedIndex p
    let out := view.references.foldl (fun (out : SortedMap (LeafKey ×ₗ LeafKey) Unit) r =>
      match idx.get? r.1, (idx.get? r.2).map SortedMap.keys with
      | some fs, some [t] =>
        fs.keys.foldl (fun out f => if f ≠ t then out.insert (toLex (f, t)) () else out) out
      | _, _ => out) SortedMap.empty
    out.keys.map ofLex

def upstreamsFrom (edges : List (LeafKey × LeafKey)) :
    SortedMap LeafKey (SortedMap LeafKey Unit) :=
  edges.foldl (fun m e => m.upsert e.1 fun ups => (ups.getD SortedMap.empty).insert e.2 ())
    SortedMap.empty

/-- The names of the upstreams of a leaf. -/
def upstreamNames (upstreams : SortedMap LeafKey (SortedMap LeafKey Unit))
    (names : SortedMap LeafKey String) (key : LeafKey) : List String :=
  ((upstreams.get? key).map fun ups => ups.keys.map (nameOf names)).getD []

end Edges

section Checks

def project (view : PlanView) : Projected :=
  let changes := view.changes.filter fun c => !(isData c.1 || c.2 = .read)
  ⟨changes.countP (·.2.adds), changes.countP (·.2.changes), changes.countP (·.2.destroys),
    changes.countP (·.2 = .noOp)⟩

def bijectionCheck (b : Partition.Bijection) : Check where
  name := "bijection"
  status :=
    if b.ok then .pass
    else .fail ("before " ++ b.hashBefore ++ " (" ++ toString b.countBefore ++ ") != after " ++
      b.hashAfter ++ " (" ++ toString b.countAfter ++ "), disjoint=" ++ toString b.disjoint)

def acyclicCheck (order : Except DagError (List String)) : Check where
  name := "acyclic"
  status :=
    match order with
    | .ok _ => .pass
    | .error (.cycle stuck) => .fail ("cycle among " ++ ", ".intercalate stuck)

def uniqueNamesCheck (names : SortedMap LeafKey String) : Check where
  name := "unique-names"
  status := if names.values.Nodup then .pass else .fail "two leaves share a template name"

/-- Planned addresses that are in no leaf. -/
def unplaced (p : Partition) (view : PlanView) : List String :=
  ((view.changes.filter fun c => !c.2.adds && (p.leafOf c.1).isNone).map Prod.fst).filter
    (!isData ·)

def noChangeCheck (p : Partition) (plan : Option PlanView) : Check where
  name := "no-change"
  status :=
    match plan with
    | none => .unproven "no plan supplied; step 5 runs live"
    | some view =>
      let c := project view
      if c.add + c.change + c.destroy > 0 then
        .fail ("plan shows " ++ toString c.add ++ " add, " ++ toString c.change ++ " change, " ++
          toString c.destroy ++ " destroy")
      else
        match unplaced p view with
        | [] => .pass
        | first :: rest => .fail (toString (first :: rest).length ++
            " planned addresses are in no leaf, first `" ++ first ++ "`")

def CheckStatus.failed : CheckStatus → Bool
  | .fail _ => true
  | _ => false

end Checks

section Plan

variable {δ ι : Type} (x : Externals) (g : ShigotoDag δ ι)

/-- The partition that is planned with. -/
def partitionFor (input : PlannerInput) : Except PartitionError Partition :=
  (Partition.build input.addresses).map fun p =>
    match input.groupReferences, input.plan with
    | true, some view => p.merge (referenceLeafEdges p view)
    | _, _ => p

def emptyPlan (fatName : String) (classification : Classification) (verdict : Verdict)
    (leafCount : Nat) : MigrationPlan where
  fatTemplate := fatName
  classification := classification
  verdict := verdict
  checks := []
  bijection := none
  projected := none
  leafCount := leafCount
  partitionSizes := SortedMap.empty
  leaves := []
  stateMoves := []
  catalog := none
  leafTemplates := []
  fatPatch := none

/-- The plan of a partition with several leaves. -/
def planLeaves (input : PlannerInput) (fatName : String) (fatSpec : List (String × Value))
    (classification : Classification) (p : Partition) : MigrationPlan :=
  let pangeaNamespace := (Json.lookup "pangeaNamespace" fatSpec).bind asStr
  let names := leafNames x fatName (p.leaves.map Leaf.key)
  let partitionSizes := p.leaves.foldl (fun (m : SortedMap Nat Nat) l =>
    m.upsert l.addresses.length fun n => n.getD 0 + 1) SortedMap.empty
  let edges := singletonEdges p input.plan
  let upstreams := upstreamsFrom edges
  let dag := p.leaves.foldl (fun dag l =>
    TemplateDag.add g dag (nameOf names l.key) (upstreamNames upstreams names l.key))
    (TemplateDag.new g)
  let bijection := p.bijection x input.addresses
  let checks := [bijectionCheck bijection, acyclicCheck (TemplateDag.applyOrder g dag),
    uniqueNamesCheck names, noChangeCheck p input.plan]
  let verdict := if checks.any (·.status.failed) then Verdict.refused else .ready
  let leaves := p.leaves.map fun l => (⟨nameOf names l.key, l.key, l.mergedFrom, l.addresses,
    upstreamNames upstreams names l.key⟩ : LeafPlan)
  let ready := verdict = .ready
  { fatTemplate := fatName
    classification := classification
    verdict := verdict
    checks := checks
    bijection := some bijection
    projected := input.plan.map project
    leafCount := leaves.length
    partitionSizes := partitionSizes
    leaves := leaves
    stateMoves :=
      if ready then leaves.map fun l => ⟨fatName, l.template, pangeaNamespace, l.addresses⟩ else []
    catalog :=
      if ready then some (catalogManifest fatName (Json.lookup "variables" fatSpec)
        input.maxConcurrentLeaves)
      else none
    leafTemplates :=
      if ready then leaves.map fun l =>
        leafManifest input.template fatName l fatName (variableRefsFor l edges names)
      else []
    fatPatch := if ready then some (.obj [("spec", .obj [("suspend", .bool true)])]) else none }

def planMigration (input : PlannerInput) : Except PlanError MigrationPlan :=
  match metadataString input.template "name" with
  | none => .error .noName
  | some fatName =>
    match (input.template.get? "spec").bind asObject with
    | none => .error .noSpec
    | some fatSpec => do
      let classification ← (classify input.addresses input.cycleP95Ms input.budgetMs).mapError
        fun e => .partition (.address e)
      if !classification.fat then .ok (emptyPlan fatName classification .notFat 0)
      else do
        let p ← (partitionFor input).mapError .partition
        if p.leaves.length ≤ 1 then
          .ok (emptyPlan fatName classification .nothingToSplit p.leaves.length)
        else .ok (planLeaves x g input fatName fatSpec classification p)

end Plan

section Ready

variable {δ ι : Type} {x : Externals} {g : ShigotoDag δ ι} {input : PlannerInput} {p : Partition}

/-- Leaves have their addresses from the partition, each one from the state. -/
theorem partitionFor_spec (h : partitionFor input = .ok p) :
    p.addresses.Perm (input.addresses.filter (!isData ·)) ∧
      (input.addresses.filter (!isData ·)).Nodup := by
  unfold partitionFor at h
  cases hb : Partition.build input.addresses with
  | error e =>
    rw [hb] at h
    cases h
  | ok built =>
    rw [hb] at h
    obtain ⟨hperm, hnodup⟩ := Partition.build_spec hb
    refine ⟨?_, hnodup⟩
    cases h
    split
    · exact (Partition.addresses_merge _ _).trans hperm
    · exact hperm

/-- Leaves whose names pass the check are named apart. -/
theorem names_nodup (fatName : String)
    (h : (leafNames x fatName (p.leaves.map Leaf.key)).values.Nodup) :
    (p.leaves.map fun l =>
      nameOf (leafNames x fatName (p.leaves.map Leaf.key)) l.key).Nodup := by
  have hkeys : (p.leaves.map Leaf.key).Nodup := by
    rw [Partition.keys_leaves]
    exact p.slots.keys_nodup
  have hmem : ∀ k ∈ p.leaves.map Leaf.key,
      k ∈ (leafNames x fatName (p.leaves.map Leaf.key)).keys := by
    intro k hk
    rw [leafNames, SortedMap.mem_keys_ofList, List.map_map]
    simpa using hk
  generalize leafNames x fatName (p.leaves.map Leaf.key) = names at h hmem
  have hmap : (p.leaves.map fun l => nameOf names l.key) =
      (p.leaves.map Leaf.key).map (nameOf names) := by
    rw [List.map_map]
    rfl
  rw [hmap]
  refine hkeys.map_on fun j hj k hk he => SortedMap.get?_injOn h (hmem j hj) (hmem k hk) ?_
  obtain ⟨⟨_, v⟩, hv, rfl⟩ := List.mem_map.mp (hmem j hj)
  obtain ⟨⟨_, w⟩, hw, rfl⟩ := List.mem_map.mp (hmem k hk)
  rw [nameOf, nameOf, SortedMap.get?_of_mem hv, SortedMap.get?_of_mem hw] at he
  rw [SortedMap.get?_of_mem hv, SortedMap.get?_of_mem hw]
  exact congrArg some he

/-- A plan that is ready comes from a partition with several leaves. -/
theorem planMigration_ready {plan : MigrationPlan} (h : planMigration x g input = .ok plan)
    (hready : plan.verdict = .ready) : ∃ fatName fatSpec c p, partitionFor input = .ok p ∧
      1 < p.leaves.length ∧ plan = planLeaves x g input fatName fatSpec c p := by
  unfold planMigration at h
  split at h
  · cases h
  · next fatName _ =>
    split at h
    · cases h
    · next fatSpec _ =>
      obtain ⟨c, -, h⟩ := bind_eq_ok h
      split at h
      · cases h
        cases hready
      · obtain ⟨p, hp, h⟩ := bind_eq_ok h
        split at h
        · cases h
          cases hready
        · next hlen =>
          cases h
          exact ⟨fatName, fatSpec, c, p, mapError_eq_ok hp, not_le.mp hlen, rfl⟩

theorem nodup_of_uniqueNamesCheck {names : SortedMap LeafKey String}
    (h : (uniqueNamesCheck names).status.failed = false) : names.values.Nodup := by
  unfold uniqueNamesCheck at h
  dsimp only at h
  split at h
  · assumption
  · cases h

/-- The moves of a ready plan: one for a leaf, under names that passed the check. -/
theorem planLeaves_moves {fatName : String} {fatSpec : List (String × Value)} {c : Classification}
    (hready : (planLeaves x g input fatName fatSpec c p).verdict = .ready) :
    (leafNames x fatName (p.leaves.map Leaf.key)).values.Nodup ∧
    (planLeaves x g input fatName fatSpec c p).stateMoves = p.leaves.map fun l =>
      ⟨fatName, nameOf (leafNames x fatName (p.leaves.map Leaf.key)) l.key,
        (Json.lookup "pangeaNamespace" fatSpec).bind asStr, l.addresses⟩ := by
  unfold planLeaves at hready ⊢
  dsimp only at hready ⊢
  split at hready
  · cases hready
  · next hpass =>
    rw [if_neg hpass, if_pos rfl, List.map_map]
    refine ⟨nodup_of_uniqueNamesCheck ?_, rfl⟩
    simp only [List.any_cons, List.any_nil, Bool.or_eq_true, not_or, Bool.not_eq_true] at hpass
    exact hpass.2.2.1

/-- A plan that is ready can be carried out exactly when no managed address is taken for data. -/
theorem ready_plan_executes_iff (hpretty : ∀ v, ∃ bytes, x.toVecPretty v = .ok bytes)
    {state : List UInt8} {doc : Value} (hdoc : x.fromSlice state = .ok doc)
    (haddr : addressesFromState doc = .ok input.addresses) {plan : MigrationPlan}
    (hplan : planMigration x g input = .ok plan) (hready : plan.verdict = .ready) :
    ((∃ s, split x plan.fatTemplate state plan.stateMoves = .ok s) ∧
      (plan.stateMoves.map StateMove.toTemplate).Nodup ∧
      (claimed plan.stateMoves).Perm input.addresses) ↔
    ∀ a ∈ input.addresses, isData a = false := by
  obtain ⟨fatName, fatSpec, c, p, hp, hlen, rfl⟩ := planMigration_ready hplan hready
  obtain ⟨hnames, hmoves⟩ := planLeaves_moves hready
  obtain ⟨hperm, hnodup⟩ := partitionFor_spec hp
  have hclaimed : claimed (planLeaves x g input fatName fatSpec c p).stateMoves = p.addresses := by
    rw [hmoves, claimed, List.flatMap_map, Partition.addresses]
  rw [hclaimed]
  constructor
  · rintro ⟨-, -, hall⟩ a ha
    have hmem := (hall.symm.trans hperm).mem_iff.mp ha
    simpa using (List.mem_filter.mp hmem).2
  · intro hdata
    have hfilter : input.addresses.filter (!isData ·) = input.addresses :=
      List.filter_eq_self.mpr fun a ha => by simp [hdata a ha]
    rw [hfilter] at hperm hnodup
    have htargets : ((planLeaves x g input fatName fatSpec c p).stateMoves.map
        StateMove.toTemplate).Nodup := by
      rw [hmoves, List.map_map]
      exact names_nodup fatName hnames
    refine ⟨?_, htargets, hperm⟩
    refine split_ok hpretty hdoc haddr hnodup (checkMoves_ok ?_ ?_ htargets) (hclaimed ▸ hperm)
    · rw [hmoves, ne_eq, List.map_eq_nil_iff]
      rintro he
      rw [he] at hlen
      simp at hlen
    · rw [hmoves]
      rintro m hm
      obtain ⟨l, -, rfl⟩ := List.mem_map.mp hm
      rfl

end Ready

section Zones

/-- Layers of what is left, each without an upstream that is left. -/
def layers (edges : List (String × String)) : Nat → List String → Option (List (List String))
  | _, [] => some []
  | 0, _ :: _ => none
  | n + 1, left =>
    let wave := left.filter fun t => edges.all fun e => e.2 ≠ t || !left.contains e.1
    (layers edges n (left.filter (!wave.contains ·))).map (wave :: ·)

/-- A graph of names: its nodes and its edges in the order they came. -/
def nameGraph : ShigotoDag (List String × List (String × String)) String where
  new := ([], [])
  nodeId := id
  nodeName := some
  ensureNode d n := (d.1.insert n, d.2)
  addEdge d u t := ((d.1.insert u).insert t, d.2 ++ [(u, t)])
  predecessors d n := (d.2.filter (·.2 = n)).map Prod.fst
  waves d := layers d.2 d.1.length d.1

def zoneBlock (module : Option String) (name : String) : Value :=
  .obj ([("mode", .str "managed"), ("type", .str "zone"), ("name", .str name),
    ("instances", .arr [.obj []])] ++ (module.map fun m => ("module", Json.str m)).toList)

def zoneState (blocks : List Value) : Value :=
  .obj [("version", .num (.posInt 4)), ("lineage", .str "dns"), ("resources", .arr blocks)]

def zoneInput (addresses : List String) : PlannerInput where
  template := .obj [("metadata", .obj [("name", .str "dns")]), ("spec", .obj [])]
  addresses := addresses
  plan := none
  cycleP95Ms := none
  budgetMs := none
  groupReferences := false
  maxConcurrentLeaves := none

def keyedState : Value :=
  zoneState [zoneBlock (some "module.m[\"a.b\"]") "x", zoneBlock none "a"]

theorem keyed_module_is_planned_and_split :
    ∃ plan, planMigration (knownTexts [keyedState]) nameGraph
        (zoneInput ["module.m[\"a.b\"].zone.x", "zone.a"]) = .ok plan ∧
      (∃ s, split (knownTexts [keyedState]) plan.fatTemplate (plainText keyedState)
        plan.stateMoves = .ok s) ∧
      (plan.stateMoves.map StateMove.toTemplate).Nodup ∧
      (claimed plan.stateMoves).Perm ["module.m[\"a.b\"].zone.x", "zone.a"] := by
  have hrun : (planMigration (knownTexts [keyedState]) nameGraph
      (zoneInput ["module.m[\"a.b\"].zone.x", "zone.a"])).toOption.map MigrationPlan.verdict =
      some .ready := by decide +kernel
  obtain ⟨plan, hplan, hready⟩ := Option.map_eq_some_iff.mp hrun
  have hplan := toOption_eq_some hplan
  have hdoc : (knownTexts [keyedState]).fromSlice (plainText keyedState) = .ok keyedState := by
    decide +kernel
  have haddr : addressesFromState keyedState = .ok ["module.m[\"a.b\"].zone.x", "zone.a"] := by
    decide +kernel
  exact ⟨plan, hplan, (ready_plan_executes_iff (fun v => ⟨plainText v, rfl⟩) hdoc haddr hplan
    hready).mpr (by decide +kernel)⟩

/-- A module key with `.data.` in it. -/
def dottedState : Value :=
  zoneState [zoneBlock (some "module.m[\"a.data.b\"]") "x", zoneBlock none "a",
    zoneBlock none "b"]

def dottedAddresses : List String := ["module.m[\"a.data.b\"].zone.x", "zone.a", "zone.b"]

theorem ready_plan_is_refused :
    addressesFromState dottedState = .ok dottedAddresses ∧
    ∃ plan, planMigration (knownTexts [dottedState]) nameGraph (zoneInput dottedAddresses) =
        .ok plan ∧ plan.verdict = .ready ∧
      ¬ ∃ s, split (knownTexts [dottedState]) plan.fatTemplate (plainText dottedState)
        plan.stateMoves = .ok s := by
  have hrun : (planMigration (knownTexts [dottedState]) nameGraph
      (zoneInput dottedAddresses)).toOption.map (fun plan => (plan.verdict,
        (split (knownTexts [dottedState]) plan.fatTemplate (plainText dottedState)
          plan.stateMoves).toOption.isSome)) = some (.ready, false) := by decide +kernel
  obtain ⟨plan, hplan, he⟩ := Option.map_eq_some_iff.mp hrun
  obtain ⟨hready, hsplit⟩ := Prod.mk.injEq .. ▸ he
  refine ⟨by decide +kernel, plan, toOption_eq_some hplan, hready, ?_⟩
  rintro ⟨s, hs⟩
  rw [hs] at hsplit
  cases hsplit

end Zones

end PangeaOperator.Migrate
