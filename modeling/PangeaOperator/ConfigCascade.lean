import PangeaOperator.Lib.JsonPath
import PangeaOperator.Lib.LastWins
import PangeaOperator.Lib.SortedMap

/-!
# The configuration cascade

`controller/config_cascade.rs` folds the variables of a namespace, a workspace and a template into
one map, the innermost layer last. Objects are merged member by member, anything else is replaced.
-/

namespace PangeaOperator

namespace ConfigCascade

open Json

variable {ν : Type}

mutual
def deepMergeValue : Json ν → Json ν → Json ν
  | .obj base, .obj inner => .obj (deepMergeMembers base inner)
  | _, inner => inner
def deepMergeMembers :
    List (String × Json ν) → List (String × Json ν) → List (String × Json ν)
  | merged, [] => merged
  | merged, m :: inner => deepMergeMembers (deepMergeMember merged m) inner
def deepMergeMember : List (String × Json ν) → String × Json ν → List (String × Json ν)
  | merged, (k, v) =>
    set k (match lookup k merged with
      | some base => deepMergeValue base v
      | none => v) merged
end

/-- A map of variables. No object in it has two members of one name. -/
structure VariableMap (ν : Type) where
  entries : SortedMap String (Json ν)
  distinct : ∀ k v, entries.get? k = some v → v.DistinctKeys

def VariableMap.empty : VariableMap ν where
  entries := .empty
  distinct := by
    intro k v h
    simp [SortedMap.empty, SortedMap.get?] at h

def mergeEntry (acc : SortedMap String (Json ν)) (e : String × Json ν) :
    SortedMap String (Json ν) :=
  acc.insert e.1 (match acc.get? e.1 with
    | some existing => deepMergeValue existing e.2
    | none => e.2)

def mergeLayer (acc : SortedMap String (Json ν)) (layer : VariableMap ν) :
    SortedMap String (Json ν) :=
  layer.entries.entries.foldl mergeEntry acc

def resolveVariables (layers : List (VariableMap ν)) : SortedMap String (Json ν) :=
  layers.foldl mergeLayer .empty

section Merge

/-- What is left under a name, from what is there and what the inner layer has. -/
def mergedSlot (base : Option (Json ν)) : Option (Json ν) → Option (Json ν)
  | none => base
  | some v => some (base.elim v (fun b => deepMergeValue b v))

theorem deepMergeMember_eq (merged : List (String × Json ν)) (k : String) (v : Json ν) :
    deepMergeMember merged (k, v) =
      set k ((lookup k merged).elim v (fun b => deepMergeValue b v)) merged := by
  rw [deepMergeMember]
  cases lookup k merged <;> rfl

theorem lookup_deepMergeMembers (j : String) (base inner : List (String × Json ν))
    (hn : (inner.map Prod.fst).Nodup) :
    lookup j (deepMergeMembers base inner) = mergedSlot (lookup j base) (lookup j inner) := by
  induction inner generalizing base with
  | nil => simp [deepMergeMembers, mergedSlot]
  | cons m inner ih =>
    obtain ⟨k, v⟩ := m
    rw [List.map_cons, List.nodup_cons] at hn
    rw [deepMergeMembers, ih _ hn.2, deepMergeMember_eq, lookup_set, lookup_cons]
    by_cases hk : k = j
    · subst hk
      rw [if_pos rfl, if_pos rfl, lookup_eq_none_iff.mpr hn.1]
      rfl
    · rw [if_neg hk, if_neg hk]

theorem leaf_deepMergeValue (base inner : Json ν) :
    (deepMergeValue base inner).leaf = inner.leaf := by
  cases inner <;> cases base <;> simp only [deepMergeValue, leaf]

theorem deepMergeValue_of_not_isObject {base inner : Json ν}
    (h : ¬ (base.IsObject ∧ inner.IsObject)) :
    deepMergeValue base inner = inner := by
  cases inner <;> cases base <;>
    first | rw [deepMergeValue]; done | exact absurd ⟨⟨_, rfl⟩, _, rfl⟩ h | simp [deepMergeValue]

theorem get?_deepMergeValue {base inner : Json ν} (hinner : inner.DistinctKeys)
    (hbase : base.IsObject) (hobject : inner.IsObject) (k : String) :
    (deepMergeValue base inner).get? k = mergedSlot (base.get? k) (inner.get? k) := by
  obtain ⟨bs, rfl⟩ := hbase
  obtain ⟨os, rfl⟩ := hobject
  have hn : (os.map Prod.fst).Nodup := by
    cases hinner with
    | obj names _ => exact names
  rw [deepMergeValue]
  exact lookup_deepMergeMembers k bs os hn

theorem distinctKeys_get? {v w : Json ν} {k : String} (hv : v.DistinctKeys)
    (h : v.get? k = some w) :
    w.DistinctKeys := by
  by_cases hobject : v.IsObject
  · obtain ⟨ms, rfl⟩ := hobject
    cases hv with
    | obj _ values => exact values _ (lookup_mem h)
  · rw [get?_of_not_isObject hobject] at h
    simp at h

theorem ite_cutsOff (v : Json ν) (p : List String) :
    (if v.cutsOff p then none else v.kindAt p) = v.kindAt p := by
  split
  · next h => rw [kindAt_of_cutsOff h]
  · rfl

theorem cutsOff_of_not_isObject {v : Json ν} (h : ¬ v.IsObject) (k : String) (p : List String) :
    v.cutsOff (k :: p) = true := by
  rw [cutsOff, leaf_of_not_isObject h]
  rfl

theorem cutsOff_of_isObject {v : Json ν} (h : v.IsObject) (k : String) (p : List String) :
    v.cutsOff (k :: p) = (v.get? k).any (fun w => w.cutsOff p) := by
  rw [cutsOff, leaf_eq_none_iff.mpr h]
  rfl

theorem kindAt_of_not_isObject {v : Json ν} (h : ¬ v.IsObject) (k : String) (p : List String) :
    v.kindAt (k :: p) = none := kindAt_of_cutsOff (cutsOff_of_not_isObject h k p)

/-- At every path the inner value wins, and where it cuts the path off nothing is left. -/
theorem kindAt_deepMergeValue {base inner : Json ν} (h : inner.DistinctKeys) (p : List String) :
    (deepMergeValue base inner).kindAt p =
      if inner.cutsOff p then none else (inner.kindAt p).or (base.kindAt p) := by
  induction p generalizing base inner with
  | nil => simp [leaf_deepMergeValue, cutsOff]
  | cons k p ih =>
    by_cases hobjects : base.IsObject ∧ inner.IsObject
    · obtain ⟨hbase, hinner⟩ := hobjects
      rw [kindAt_cons, kindAt_cons inner, kindAt_cons base, get?_deepMergeValue h hbase hinner,
        cutsOff_of_isObject hinner]
      cases hk : inner.get? k with
      | none => simp [mergedSlot]
      | some v =>
        cases hb : base.get? k with
        | none => simp [mergedSlot, ite_cutsOff]
        | some b => simpa [mergedSlot] using ih (distinctKeys_get? h hk)
    · rw [deepMergeValue_of_not_isObject hobjects]
      by_cases hinner : inner.IsObject
      · have hbase : ¬ base.IsObject := fun hbase => hobjects ⟨hbase, hinner⟩
        rw [kindAt_of_not_isObject hbase, Option.or_none, ite_cutsOff]
      · rw [kindAt_of_not_isObject hinner, if_pos (cutsOff_of_not_isObject hinner k p)]

end Merge

section Layers

/-- What stands at a path of a map; the map itself is no value. -/
def atPath (m : SortedMap String (Json ν)) : List String → Option (Json ν)
  | [] => none
  | k :: p => (m.get? k).bind (fun v => v.atPath p)

/-- A layer hides a path by something other than an object on the way there. -/
def VariableMap.Hides (layer : VariableMap ν) (p : List String) : Prop :=
  ∃ q r v, p = q ++ r ∧ q ≠ [] ∧ r ≠ [] ∧ atPath layer.entries q = some v ∧ ¬ v.IsObject

def VariableMap.cutsOff (layer : VariableMap ν) (k : String) (p : List String) : Bool :=
  (layer.entries.get? k).any (fun v => v.cutsOff p)

theorem VariableMap.cutsOff_iff (layer : VariableMap ν) (k : String) (p : List String) :
    layer.cutsOff k p = true ↔ layer.Hides (k :: p) := by
  rw [VariableMap.cutsOff, Option.any_eq_true]
  constructor
  · rintro ⟨v, hv, hcuts⟩
    obtain ⟨q, r, w, rfl, hr, hw, hobject⟩ := Json.cutsOff_iff.mp hcuts
    exact ⟨k :: q, r, w, rfl, List.cons_ne_nil _ _, hr,
      by rw [atPath, hv, Option.bind_some, hw], hobject⟩
  · rintro ⟨q, r, w, hp, hq, hr, hw, hobject⟩
    cases q with
    | nil => exact absurd rfl hq
    | cons j q =>
      rw [List.cons_append] at hp
      obtain ⟨rfl, hrest⟩ := List.cons.inj hp
      obtain ⟨v, hv, hvw⟩ := Option.bind_eq_some_iff.mp hw
      exact ⟨v, hv, Json.cutsOff_iff.mpr ⟨q, r, w, hrest, hr, hvw, hobject⟩⟩

instance (layer : VariableMap ν) (p : List String) : Decidable (layer.Hides p) :=
  match p with
  | [] => isFalse (by
      rintro ⟨q, r, w, hp, hq, -⟩
      exact hq (List.append_eq_nil_iff.mp hp.symm).1)
  | k :: p => decidable_of_iff _ (layer.cutsOff_iff k p)

theorem get?_foldl_mergeEntry (es : List (String × Json ν)) (hn : (es.map Prod.fst).Nodup)
    (acc : SortedMap String (Json ν)) (k : String) :
    (es.foldl mergeEntry acc).get? k = mergedSlot (acc.get? k) (lookup k es) := by
  induction es generalizing acc with
  | nil => simp [mergedSlot]
  | cons e es ih =>
    obtain ⟨j, v⟩ := e
    rw [List.map_cons, List.nodup_cons] at hn
    rw [List.foldl_cons, ih hn.2, lookup_cons, mergeEntry, SortedMap.insert, SortedMap.get?_upsert]
    by_cases hk : j = k
    · subst hk
      rw [if_pos rfl, if_pos rfl, lookup_eq_none_iff.mpr hn.1]
      cases acc.get? j <;> rfl
    · rw [if_neg (Ne.symm hk), if_neg hk]

theorem lookup_entries (m : SortedMap String (Json ν)) (k : String) :
    lookup k m.entries = m.get? k := by
  cases h : m.get? k with
  | none =>
    rw [lookup_eq_none_iff]
    intro hk
    obtain ⟨v, hv⟩ := SortedMap.mem_keys_iff.mp hk
    simp [h] at hv
  | some v => exact lookup_of_mem m.keys_nodup (SortedMap.get?_eq_some_iff.mp h)

theorem get?_mergeLayer (acc : SortedMap String (Json ν)) (layer : VariableMap ν) (k : String) :
    (mergeLayer acc layer).get? k = mergedSlot (acc.get? k) (layer.entries.get? k) := by
  rw [mergeLayer, get?_foldl_mergeEntry _ layer.entries.keys_nodup, lookup_entries]

theorem map_leaf_atPath (m : SortedMap String (Json ν)) (k : String) (p : List String) :
    (atPath m (k :: p)).map leaf = (m.get? k).bind (fun v => v.kindAt p) := by
  rw [atPath, Option.map_bind]
  rfl

theorem kindAt_mergeLayer (acc : SortedMap String (Json ν)) (layer : VariableMap ν) (k : String)
    (p : List String) : (atPath (mergeLayer acc layer) (k :: p)).map leaf =
      if layer.Hides (k :: p) then none
      else ((atPath layer.entries (k :: p)).map leaf).or ((atPath acc (k :: p)).map leaf) := by
  simp only [map_leaf_atPath, get?_mergeLayer, ← layer.cutsOff_iff, VariableMap.cutsOff]
  cases hk : layer.entries.get? k with
  | none => simp [mergedSlot]
  | some v =>
    cases ha : acc.get? k with
    | none => simp [mergedSlot, ite_cutsOff]
    | some a => simpa [mergedSlot] using kindAt_deepMergeValue (layer.distinct k v hk) p

/-- What the last of the layers behind the last that hides a path has there. -/
def lastBehind (layers : List (VariableMap ν)) (p : List String) : Option (Json ν) :=
  ((layers.rtakeWhile (fun layer => ¬ layer.Hides p)).filterMap
    (fun layer => atPath layer.entries p)).getLast?

theorem map_leaf_lastBehind (layers : List (VariableMap ν)) (p : List String) :
    (lastBehind layers p).map leaf =
      ((layers.rtakeWhile (fun layer => ¬ layer.Hides p)).filterMap
        (fun layer => (atPath layer.entries p).map leaf)).getLast? := by
  rw [lastBehind, ← List.getLast?_map, List.map_filterMap]

theorem kindAt_resolveVariables (layers : List (VariableMap ν)) (k : String) (p : List String) :
    (atPath (resolveVariables layers) (k :: p)).map leaf =
      (lastBehind layers (k :: p)).map leaf := by
  rw [resolveVariables, map_leaf_lastBehind]
  exact foldl_last_behind (fun acc => (atPath acc (k :: p)).map leaf)
    (fun acc layer => kindAt_mergeLayer acc layer k p) rfl layers

end Layers

section Again

theorem set_self {k : String} {v : Json ν} {ms : List (String × Json ν)}
    (h : lookup k ms = some v) :
    set k v ms = ms := by
  induction ms with
  | nil => simp at h
  | cons m ms ih =>
    obtain ⟨j, w⟩ := m
    rw [lookup_cons] at h
    unfold Json.set
    split
    · next hj =>
      rw [if_pos hj, Option.some_inj] at h
      have hj' : j = k := hj
      rw [h, hj']
    · next hj =>
      rw [if_neg hj] at h
      rw [ih h]

/-- Members that are there already change nothing. -/
theorem deepMergeMembers_of_merged {merged inner : List (String × Json ν)}
    (h : ∀ k v, (k, v) ∈ inner → ∃ w, lookup k merged = some w ∧ deepMergeValue w v = w) :
    deepMergeMembers merged inner = merged := by
  induction inner with
  | nil => rw [deepMergeMembers]
  | cons m inner ih =>
    obtain ⟨k, v⟩ := m
    obtain ⟨w, hw, hmerged⟩ := h k v List.mem_cons_self
    have hmember : deepMergeMember merged (k, v) = merged := by
      rw [deepMergeMember_eq, hw, Option.elim_some, hmerged, set_self hw]
    rw [deepMergeMembers, hmember]
    exact ih fun j u hu => h j u (List.mem_cons_of_mem _ hu)

theorem deepMergeValue_self {v : Json ν} (h : v.DistinctKeys) : deepMergeValue v v = v := by
  induction v using induct with
  | null | bool | num | str | arr => simp [deepMergeValue]
  | obj ms ih =>
    cases h with
    | obj names values =>
      rw [deepMergeValue, deepMergeMembers_of_merged]
      intro k v hv
      exact ⟨v, lookup_of_mem names hv, ih _ hv (values _ hv)⟩

theorem deepMergeValue_again {base inner : Json ν} (h : inner.DistinctKeys) :
    deepMergeValue (deepMergeValue base inner) inner = deepMergeValue base inner := by
  induction inner using induct generalizing base with
  | null | bool | num | str | arr => cases base <;> simp [deepMergeValue]
  | obj os ih =>
    by_cases hbase : base.IsObject
    · obtain ⟨bs, rfl⟩ := hbase
      cases h with
      | obj names values =>
        rw [deepMergeValue, deepMergeValue, deepMergeMembers_of_merged]
        intro k v hv
        rw [lookup_deepMergeMembers k bs os names, lookup_of_mem names hv]
        cases hb : lookup k bs with
        | none => exact ⟨v, rfl, deepMergeValue_self (values _ hv)⟩
        | some b => exact ⟨deepMergeValue b v, rfl, ih _ hv (values _ hv)⟩
    · rw [deepMergeValue_of_not_isObject (fun hobjects => hbase hobjects.1), deepMergeValue_self h]

theorem mergeLayer_again (acc : SortedMap String (Json ν)) (layer : VariableMap ν) :
    mergeLayer (mergeLayer acc layer) layer = mergeLayer acc layer := by
  apply SortedMap.ext_get?
  intro k
  rw [get?_mergeLayer, get?_mergeLayer]
  cases hk : layer.entries.get? k with
  | none => rfl
  | some v =>
    have hv := layer.distinct k v hk
    cases acc.get? k with
    | none => exact congrArg some (deepMergeValue_self hv)
    | some a => exact congrArg some (deepMergeValue_again hv)

theorem resolveVariables_again (layers : List (VariableMap ν)) (layer : VariableMap ν) :
    resolveVariables (layers ++ [layer, layer]) = resolveVariables (layers ++ [layer]) := by
  simp only [resolveVariables, List.foldl_append, List.foldl_cons, List.foldl_nil,
    mergeLayer_again]

theorem resolveVariables_empty (before after : List (VariableMap ν)) :
    resolveVariables (before ++ .empty :: after) = resolveVariables (before ++ after) := by
  simp only [resolveVariables, List.foldl_append, List.foldl_cons]
  rfl

end Again

/-- Two values of one kind are the same unless they are objects. -/
theorem kind_cases {a b : Option (Json ν)} (h : a.map leaf = b.map leaf) :
    (∀ v, ¬ v.IsObject → (a = some v ↔ b = some v)) ∧
      ((∃ v, a = some v ∧ v.IsObject) ↔ ∃ v, b = some v ∧ v.IsObject) ∧
      (a = none ↔ b = none) := by
  have hleaf (o : Option (Json ν)) (v : Json ν) (hv : ¬ v.IsObject) :
      o = some v ↔ o.map leaf = some (some v) := by
    cases o with
    | none => simp
    | some w => simp [leaf_eq_some_iff, hv]
  have hobject (o : Option (Json ν)) :
      (∃ v, o = some v ∧ v.IsObject) ↔ o.map leaf = some none := by
    cases o with
    | none => simp
    | some w => simp [leaf_eq_none_iff]
  refine ⟨fun v hv => ?_, ?_, ?_⟩
  · rw [hleaf a v hv, hleaf b v hv, h]
  · rw [hobject, hobject, h]
  · rw [← Option.map_eq_none_iff, h, Option.map_eq_none_iff]

/-- The innermost layer wins at every path, behind the last that hides the path; and a layer that
comes twice at the end or is empty is of no effect. -/
theorem resolveVariables_spec :
    (∀ (layers : List (VariableMap ν)) (k : String) (p : List String),
      (∀ v, ¬ v.IsObject → (atPath (resolveVariables layers) (k :: p) = some v ↔
        lastBehind layers (k :: p) = some v)) ∧
      ((∃ v, atPath (resolveVariables layers) (k :: p) = some v ∧ v.IsObject) ↔
        ∃ v, lastBehind layers (k :: p) = some v ∧ v.IsObject) ∧
      (atPath (resolveVariables layers) (k :: p) = none ↔ lastBehind layers (k :: p) = none)) ∧
    (∀ (layers : List (VariableMap ν)) (layer : VariableMap ν),
      resolveVariables (layers ++ [layer, layer]) = resolveVariables (layers ++ [layer])) ∧
    (∀ before after : List (VariableMap ν),
      resolveVariables (before ++ .empty :: after) = resolveVariables (before ++ after)) :=
  ⟨fun layers k p => kind_cases (kindAt_resolveVariables layers k p), resolveVariables_again,
    resolveVariables_empty⟩

def VariableMap.single (k : String) (v : Json ν) (h : v.DistinctKeys) : VariableMap ν where
  entries := SortedMap.empty.insert k v
  distinct := by
    intro j w hw
    rw [SortedMap.insert, SortedMap.get?_upsert] at hw
    split at hw
    · exact Option.some.inj hw ▸ h
    · simp [SortedMap.empty, SortedMap.get?] at hw

/-- Two objects under one name, and a number between them. -/
def sampleLayers : List (VariableMap Nat) :=
  [.single "tags" (.obj [("env", .num 1), ("owner", .num 2)])
      (.obj (by decide) (by simp [DistinctKeys.num])),
    .single "tags" (.num 0) (.num 0),
    .single "tags" (.obj [("owner", .num 3)]) (.obj (by decide) (by simp [DistinctKeys.num]))]

theorem resolveVariables_spec_sample :
    atPath (resolveVariables sampleLayers) ["tags", "owner"] = some (.num 3) ∧
      atPath (resolveVariables sampleLayers) ["tags", "env"] = none := by
  have howner := (resolveVariables_spec.1 sampleLayers "tags" ["owner"]).1 (.num 3)
    (by simp [IsObject])
  have henv := (resolveVariables_spec.1 sampleLayers "tags" ["env"]).2.2
  exact ⟨howner.mpr (by decide +kernel), henv.mpr (by decide +kernel)⟩

end ConfigCascade

end PangeaOperator
