import PangeaOperator.StateSplit

/-!
# Merging leaves back

`merge` rebuilds the state of the split template from the archive taken at the split
and the leaves as they are now. Leaf blocks are joined by module, mode, type and name;
the archive's blocks take the joined instances of their id, what is left over becomes
new blocks.

Only the instances come from the leaves. A block keeps the archive's other fields, and
a block that the archive does not have gets no field beyond the four of its id; the
archive's data blocks stay beside those of the leaves; the serial wraps.
-/

namespace PangeaOperator

namespace Migrate

open SipHash

structure BlockId where
  module : String
  mode : String
  type : String
  name : String
  deriving Repr, DecidableEq

/-- `block_id` of a block known by its fields. -/
def idOf (field : String → Option Value) : BlockId :=
  ⟨((field "module").bind asStr).getD "", ((field "mode").bind asStr).getD "",
    ((field "type").bind asStr).getD "", ((field "name").bind asStr).getD ""⟩

def blockId (r : Value) : BlockId := idOf r.get?

section Source

variable (x : Externals)

/-- The map by name keeps the last of two leaves with one name. -/
def leafNamed (leaves : List LeafState) (name : String) : Option LeafState :=
  leaves.reverse.find? (·.template = name)

def findLeaves (leaves : List LeafState) : List LeafReceipt → Except MigrateError (List LeafState)
  | [] => .ok []
  | r :: rs =>
    match leafNamed leaves r.template with
    | none => .error (.missingLeaf r.template)
    | some leaf =>
      match findLeaves leaves rs with
      | .error e => .error e
      | .ok rest => .ok (leaf :: rest)

def unchanged (leaves : List LeafState) (receipt : Receipt) : Bool :=
  receipt.leaves.all fun r =>
    (leafNamed leaves r.template).any fun leaf => contentHash x leaf.bytes = r.contentHash

def fastPath (archive : List UInt8) (receipt : Receipt) (leaves : List LeafState) : Bool :=
  unchanged x leaves receipt && contentHash x archive = receipt.archiveHash

/-- The instances by block id in the order the ids are met, the highest serial and the
managed addresses. -/
structure Joined where
  groups : List (BlockId × List Value)
  serial : UInt64
  expected : List String

def joinBlocks (groups : List (BlockId × List Value)) :
    List Value → List (BlockId × List Value)
  | [] => groups
  | block :: rest => joinBlocks (assocExtend (blockId block) (instancesOf block) groups) rest

def joinLeaves (j : Joined) : List LeafState → Except MigrateError Joined
  | [] => .ok j
  | leaf :: rest =>
    match parse x leaf.bytes with
    | .error e => .error e
    | .ok ld =>
      match addressesOf ld with
      | .error e => .error e
      | .ok got =>
        match resourcesOf ld with
        | .error e => .error e
        | .ok blocks =>
          joinLeaves
            ⟨joinBlocks j.groups blocks, max j.serial (serialOf ld), j.expected ++ got⟩ rest

/-- The archive's blocks with the instances of their group, and the groups not taken. -/
def restore (groups : List (BlockId × List Value)) :
    List Value → List Value × List (BlockId × List Value)
  | [] => ([], groups)
  | r :: rs =>
    if isManaged r then
      match assocGet groups (blockId r) with
      | some (_, insts) =>
        let rest := restore (assocErase groups (blockId r)) rs
        (withInstances r insts :: rest.1, rest.2)
      | none => restore groups rs
    else
      let rest := restore groups rs
      (r :: rest.1, rest.2)

def newBlock (id : BlockId) (insts : List Value) : Value :=
  .obj [("module", if id.module = "" then .null else .str id.module), ("mode", .str id.mode),
    ("type", .str id.type), ("name", .str id.name), ("instances", .arr insts)]

def dropNullModule : Value → Value
  | .obj ms =>
    if Json.lookup "module" ms = some .null then .obj (Json.remove "module" ms) else .obj ms
  | v => v

def mergedBlocks (groups : List (BlockId × List Value)) (resources : List Value) : List Value :=
  let (kept, left) := restore groups resources
  (kept ++ left.map fun g => newBlock g.1 g.2).map dropNullModule

/-- `merge` off the fast path, up to the writing. -/
def mergeDoc (archive : List UInt8) (leaves : List LeafState) : Except MigrateError Value := do
  let doc ← parse x archive
  let j ← joinLeaves x ⟨[], serialOf doc, []⟩ leaves
  let resources ← resourcesOf doc
  let out := mergedBlocks j.groups resources
  let merged :=
    insertAt "serial" (.num (.posInt (j.serial + 1))) (insertAt "resources" (.arr out) doc)
  let got ← addressesOf merged
  let b := bijection x j.expected got
  if ¬ b.ok then
    .error (.bijection ("merged " ++ b.after ++ count got ++ " != leaves " ++ b.before ++
      count j.expected ++ ", disjoint=" ++ toString b.disjoint))
  else .ok merged

def merge (archive : List UInt8) (receipt : Receipt) (leaves : List LeafState) :
    Except MigrateError (List UInt8) :=
  match findLeaves leaves receipt.leaves with
  | .error e => .error e
  | .ok found =>
    if fastPath x archive receipt leaves then .ok archive
    else
      match mergeDoc x archive found with
      | .error e => .error e
      | .ok doc => (x.toVecPretty doc).mapError .parse

end Source

section Unmoved

variable {x : Externals} {archive : List UInt8} {receipt : Receipt} {leaves : List LeafState}

theorem leafNamed_of_mem (hnodup : (leaves.map LeafState.template).Nodup) {leaf : LeafState}
    (h : leaf ∈ leaves) : leafNamed leaves leaf.template = some leaf := by
  cases hfind : leafNamed leaves leaf.template with
  | none =>
    have hnone := List.find?_eq_none.mp hfind leaf (List.mem_reverse.mpr h)
    simp at hnone
  | some other =>
    have hmem := List.mem_reverse.mp (List.mem_of_find?_eq_some hfind)
    have hname : other.template = leaf.template := by simpa using List.find?_some hfind
    rw [List.inj_on_of_nodup_map hnodup hmem h hname]

theorem findLeaves_ok {rs : List LeafReceipt}
    (h : ∀ r ∈ rs, (leafNamed leaves r.template).isSome) :
    ∃ found, findLeaves leaves rs = .ok found := by
  induction rs with
  | nil => exact ⟨[], rfl⟩
  | cons r rs ih =>
    obtain ⟨leaf, hleaf⟩ := Option.isSome_iff_exists.mp (h r List.mem_cons_self)
    obtain ⟨rest, hrest⟩ := ih (fun q hq => h q (List.mem_cons_of_mem r hq))
    exact ⟨leaf :: rest, by simp only [findLeaves, hleaf, hrest]⟩

/-- Leaves with the digests of the receipt merge to the archive itself. -/
theorem merge_unmoved (harchive : contentHash x archive = receipt.archiveHash)
    (hnodup : (leaves.map LeafState.template).Nodup)
    (hleaves : leaves.map (fun l => (l.template, contentHash x l.bytes)) =
      receipt.leaves.map fun r => (r.template, r.contentHash)) :
    merge x archive receipt leaves = .ok archive := by
  have hnamed : ∀ r ∈ receipt.leaves, ∃ leaf, leafNamed leaves r.template = some leaf ∧
      contentHash x leaf.bytes = r.contentHash := by
    intro r hr
    have hmem : (r.template, r.contentHash) ∈
        leaves.map fun l => (l.template, contentHash x l.bytes) := by
      rw [hleaves]
      exact List.mem_map_of_mem hr
    obtain ⟨leaf, hleaf, heq⟩ := List.mem_map.mp hmem
    obtain ⟨hname, hhash⟩ := Prod.mk.injEq .. ▸ heq
    exact ⟨leaf, hname ▸ leafNamed_of_mem hnodup hleaf, hhash⟩
  have hsome : ∀ r ∈ receipt.leaves, (leafNamed leaves r.template).isSome := by
    intro r hr
    obtain ⟨leaf, hleaf, -⟩ := hnamed r hr
    rw [hleaf]
    rfl
  obtain ⟨found, hfound⟩ := findLeaves_ok hsome
  have hfast : fastPath x archive receipt leaves = true := by
    rw [fastPath, Bool.and_eq_true, decide_eq_true_iff, unchanged, List.all_eq_true]
    refine ⟨fun r hr => ?_, harchive⟩
    obtain ⟨leaf, hleaf, hhash⟩ := hnamed r hr
    rw [hleaf, Option.any_some, decide_eq_true_iff]
    exact hhash
  rw [merge, hfound]
  dsimp only
  rw [if_pos hfast]

end Unmoved

section Blocks

theorem isManaged_iff (r : Value) : isManaged r = true ↔ (blockId r).mode = "managed" := by
  have hmode : (blockId r).mode = (strAt r "mode").getD "" := rfl
  rw [hmode, isManaged, decide_eq_true_iff]
  cases strAt r "mode" with
  | none => simp
  | some mode => simp

theorem get?_dropNullModule (b : Value) (k : String) :
    (dropNullModule b).get? k =
      if k = "module" ∧ b.get? "module" = some .null then none else b.get? k := by
  cases b with
  | obj ms =>
    simp only [dropNullModule, Json.get?_obj]
    by_cases hm : Json.lookup "module" ms = some .null
    · by_cases hk : k = "module"
      · simp [hm, hk]
      · simp [hm, hk, Ne.symm hk]
    · simp [hm]
  | null | bool | num | str | arr => simp [dropNullModule, Json.get?, Json.members]

theorem get?_dropNullModule_of_ne {k : String} (h : k ≠ "module") (b : Value) :
    (dropNullModule b).get? k = b.get? k := by
  rw [get?_dropNullModule, if_neg (by simp [h])]

@[simp] theorem blockId_dropNullModule (b : Value) : blockId (dropNullModule b) = blockId b := by
  have hmodule : ((dropNullModule b).get? "module").bind asStr = (b.get? "module").bind asStr := by
    rw [get?_dropNullModule]
    split
    · next h => simp [h.2, asStr]
    · rfl
  simp only [blockId, idOf, hmodule, get?_dropNullModule_of_ne (by decide : "mode" ≠ "module"),
    get?_dropNullModule_of_ne (by decide : "type" ≠ "module"),
    get?_dropNullModule_of_ne (by decide : "name" ≠ "module")]

@[simp] theorem isManaged_dropNullModule (b : Value) :
    isManaged (dropNullModule b) = isManaged b := by
  rw [Bool.eq_iff_iff, isManaged_iff, isManaged_iff, blockId_dropNullModule]

theorem placed_dropNullModule (b : Value) :
    placed (dropNullModule b) = (instancesOf b).map (frame (dropNullModule b), ·) := by
  rw [placed, instancesOf, arrayAt, get?_dropNullModule_of_ne (by decide)]
  rfl

theorem blockId_newBlock (id : BlockId) (insts : List Value) :
    blockId (newBlock id insts) = id := by
  obtain ⟨m, mode, type, name⟩ := id
  by_cases hm : m = ""
  · simp [blockId, idOf, newBlock, hm, asStr]
  · simp [blockId, idOf, newBlock, hm, asStr]

theorem instancesOf_newBlock (id : BlockId) (insts : List Value) :
    instancesOf (newBlock id insts) = insts := by
  simp [instancesOf, arrayAt, newBlock, asArray]

/-- The fields of a new block are those of its id. -/
theorem frame_newBlock (id : BlockId) (insts : List Value) :
    frame (dropNullModule (newBlock id insts)) = frame (dropNullModule (newBlock id [])) := by
  apply frame_congr
  intro k hk
  rw [get?_dropNullModule, get?_dropNullModule]
  simp [newBlock, Ne.symm hk]

theorem blockId_withInstances (r : Value) (insts : List Value) :
    blockId (withInstances r insts) = blockId r := by
  cases r with
  | obj ms => simp [blockId, idOf, withInstances, insertAt]
  | null | bool | num | str | arr => rfl

theorem frame_dropNullModule_withInstances {r : Value} (h : isManaged r = true)
    (insts : List Value) :
    frame (dropNullModule (withInstances r insts)) = frame (dropNullModule r) := by
  have hget : ∀ k, k ≠ "instances" → (withInstances r insts).get? k = r.get? k := by
    intro k hk
    rw [withInstances, get?_insertAt (isObject_of_managed h), if_neg (Ne.symm hk)]
  apply frame_congr
  intro k hk
  rw [get?_dropNullModule, get?_dropNullModule, hget k hk, hget "module" (by decide)]

end Blocks

section Restoring

/-- The fields other than `instances` under which the merge puts an instance of that id. -/
def frameFor (resources : List Value) (id : BlockId) : Frame :=
  match resources.find? (fun r => isManaged r && blockId r = id) with
  | some r => frame (dropNullModule r)
  | none => frame (dropNullModule (newBlock id []))

theorem frameFor_cons_self {r : Value} (h : isManaged r = true) (rs : List Value) :
    frameFor (r :: rs) (blockId r) = frame (dropNullModule r) := by
  simp [frameFor, h]

theorem frameFor_cons_of_not {r : Value} {id : BlockId}
    (h : ¬ (isManaged r = true ∧ blockId r = id))
    (rs : List Value) : frameFor (r :: rs) id = frameFor rs id := by
  rw [frameFor, List.find?_cons_of_neg (by simpa using h)]
  rfl

/-- The instances of the groups of managed ids, under the fields they get. -/
def regrouped (resources : List Value) (groups : List (BlockId × List Value)) :
    List (Frame × Value) :=
  ((entries groups).filter fun e => e.1.mode = "managed").map fun e =>
    (frameFor resources e.1, e.2)

/-- A block that takes no instance of the groups does not matter to them. -/
theorem regrouped_cons_of_not {r : Value} {groups : List (BlockId × List Value)}
    (h : isManaged r = true → blockId r ∉ groups.map Prod.fst) (rs : List Value) :
    regrouped (r :: rs) groups = regrouped rs groups := by
  unfold regrouped
  apply List.map_congr_left
  intro e he
  rw [frameFor_cons_of_not]
  rintro ⟨hm, hid⟩
  exact h hm (hid ▸ mem_keys_of_mem_entries (List.mem_filter.mp he).1)

theorem managedIn_newBlocks (groups : List (BlockId × List Value)) :
    managedIn ((groups.map fun g => newBlock g.1 g.2).map dropNullModule) =
      regrouped [] groups := by
  induction groups with
  | nil => rfl
  | cons g gs ih =>
    have hcons : regrouped [] (g :: gs) =
        ((g.2.map (g.1, ·)).filter fun e => e.1.mode = "managed").map
          (fun e => (frameFor [] e.1, e.2)) ++ regrouped [] gs := by
      simp [regrouped]
    rw [List.map_cons, List.map_cons, hcons]
    by_cases hm : g.1.mode = "managed"
    · have hman : isManaged (dropNullModule (newBlock g.1 g.2)) = true := by
        rw [isManaged_dropNullModule, isManaged_iff, blockId_newBlock]
        exact hm
      rw [managedIn_cons_of_managed hman, ih, placed_dropNullModule, instancesOf_newBlock,
        frame_newBlock, List.filter_eq_self.mpr (by simpa using fun _ _ => hm), List.map_map]
      rfl
    · have hman : ¬ isManaged (dropNullModule (newBlock g.1 g.2)) = true := by
        rw [isManaged_dropNullModule, isManaged_iff, blockId_newBlock]
        exact hm
      rw [managedIn_cons_of_not_managed hman, ih, List.filter_eq_nil_iff.mpr (by simp [hm])]
      rfl

theorem mergedBlocks_cons_of_not_managed {r : Value} (h : ¬ isManaged r = true)
    (groups : List (BlockId × List Value)) (rs : List Value) :
    mergedBlocks groups (r :: rs) = dropNullModule r :: mergedBlocks groups rs := by
  simp [mergedBlocks, restore, h]

theorem mergedBlocks_cons_of_none {r : Value} (h : isManaged r = true)
    {groups : List (BlockId × List Value)} (hg : assocGet groups (blockId r) = none)
    (rs : List Value) : mergedBlocks groups (r :: rs) = mergedBlocks groups rs := by
  simp [mergedBlocks, restore, h, hg]

theorem mergedBlocks_cons_of_some {r : Value} (h : isManaged r = true)
    {groups : List (BlockId × List Value)} {e : BlockId × List Value}
    (hg : assocGet groups (blockId r) = some e) (rs : List Value) :
    mergedBlocks groups (r :: rs) = dropNullModule (withInstances r e.2) ::
      mergedBlocks (assocErase groups (blockId r)) rs := by
  simp [mergedBlocks, restore, h, hg]

/-- The first archive block of an id takes the whole group of it. -/
theorem regrouped_take {r : Value} (hr : isManaged r = true) (rs : List Value)
    {groups : List (BlockId × List Value)} (hnd : (groups.map Prod.fst).Nodup) :
    (regrouped (r :: rs) groups).Perm
      ((assocAt groups (blockId r)).map (frame (dropNullModule r), ·) ++
        regrouped rs (assocErase groups (blockId r))) := by
  have hman : ((assocAt groups (blockId r)).map (blockId r, ·)).filter
      (fun e => e.1.mode = "managed") = (assocAt groups (blockId r)).map (blockId r, ·) := by
    apply List.filter_eq_self.mpr
    intro e he
    obtain ⟨inst, -, rfl⟩ := List.mem_map.mp he
    simpa using (isManaged_iff r).mp hr
  have hsplit := ((entries_erase hnd (blockId r)).filter
    fun e => e.1.mode = "managed").map fun e => (frameFor (r :: rs) e.1, e.2)
  rw [List.filter_append, List.map_append, hman, List.map_map] at hsplit
  simp only [Function.comp_def, frameFor_cons_self hr] at hsplit
  rw [← regrouped_cons_of_not (fun _ => not_mem_assocErase groups (blockId r)) rs]
  exact hsplit

/-- The managed instances of the merged blocks are those of the groups. -/
theorem managedIn_mergedBlocks {groups : List (BlockId × List Value)}
    (hnd : (groups.map Prod.fst).Nodup) (resources : List Value) :
    (managedIn (mergedBlocks groups resources)).Perm (regrouped resources groups) := by
  induction resources generalizing groups with
  | nil =>
    rw [← managedIn_newBlocks]
    exact List.Perm.refl _
  | cons r rs ih =>
    by_cases hr : isManaged r = true
    · cases hg : assocGet groups (blockId r) with
      | none =>
        have hkey : blockId r ∉ groups.map Prod.fst := by
          rw [← assocGet_isSome_iff, hg]
          simp
        rw [mergedBlocks_cons_of_none hr hg, regrouped_cons_of_not (fun _ => hkey)]
        exact ih hnd
      | some e =>
        have hat : assocAt groups (blockId r) = e.2 := by simp [assocAt, hg]
        rw [mergedBlocks_cons_of_some hr hg, managedIn_cons_of_managed
            (by rw [isManaged_dropNullModule, isManaged_withInstances]; exact hr),
          placed_dropNullModule, instancesOf_withInstances _ hr,
          frame_dropNullModule_withInstances hr]
        refine List.Perm.trans ?_ (regrouped_take hr rs hnd).symm
        rw [hat]
        exact List.Perm.append_left _ (ih (assocErase_nodup hnd _))
    · rw [mergedBlocks_cons_of_not_managed hr, managedIn_cons_of_not_managed
        (by rwa [isManaged_dropNullModule]), regrouped_cons_of_not (fun h => absurd h hr)]
      exact ih hnd

end Restoring

section Ids

/-- The ids of the blocks the merge leaves alone. -/
def unmanagedIds (resources : List Value) : List BlockId :=
  (resources.filter fun r => !isManaged r).map blockId

theorem unmanagedIds_cons_of_managed {r : Value} (h : isManaged r = true) (rs : List Value) :
    unmanagedIds (r :: rs) = unmanagedIds rs := by
  simp [unmanagedIds, h]

theorem unmanagedIds_cons_of_not_managed {r : Value} (h : ¬ isManaged r = true)
    (rs : List Value) : unmanagedIds (r :: rs) = blockId r :: unmanagedIds rs := by
  simp [unmanagedIds, h]

theorem mem_unmanagedIds {id : BlockId} {resources : List Value} :
    id ∈ unmanagedIds resources ↔ id.mode ≠ "managed" ∧ id ∈ resources.map blockId := by
  simp only [unmanagedIds, List.mem_map, List.mem_filter]
  constructor
  · rintro ⟨r, ⟨hr, hm⟩, rfl⟩
    refine ⟨?_, r, hr, rfl⟩
    rw [Ne, ← isManaged_iff]
    simpa using hm
  · rintro ⟨hm, r, hr, rfl⟩
    refine ⟨r, ⟨hr, ?_⟩, rfl⟩
    rw [Ne, ← isManaged_iff] at hm
    simpa using hm

theorem ids_newBlocks (groups : List (BlockId × List Value)) :
    (mergedBlocks groups []).map blockId = groups.map Prod.fst := by
  simp [mergedBlocks, restore, Function.comp_def, blockId_newBlock]

/-- The merged blocks are those left alone and one for every group. -/
theorem mem_ids_mergedBlocks {groups : List (BlockId × List Value)} {resources : List Value}
    {id : BlockId} :
    id ∈ (mergedBlocks groups resources).map blockId ↔
      id ∈ unmanagedIds resources ∨ id ∈ groups.map Prod.fst := by
  induction resources generalizing groups with
  | nil =>
    rw [ids_newBlocks]
    simp [unmanagedIds]
  | cons r rs ih =>
    by_cases hr : isManaged r = true
    · rw [unmanagedIds_cons_of_managed hr]
      cases hg : assocGet groups (blockId r) with
      | none => rw [mergedBlocks_cons_of_none hr hg, ih]
      | some e =>
        have hkey : blockId r ∈ groups.map Prod.fst := by
          rw [← assocGet_isSome_iff, hg]
          rfl
        rw [mergedBlocks_cons_of_some hr hg, List.map_cons, List.mem_cons, ih, mem_keys_erase,
          blockId_dropNullModule, blockId_withInstances]
        by_cases hid : id = blockId r
        · simp [hid, hkey]
        · simp [hid]
    · rw [unmanagedIds_cons_of_not_managed hr, mergedBlocks_cons_of_not_managed hr, List.map_cons,
        List.mem_cons, ih, List.mem_cons, blockId_dropNullModule, or_assoc]

theorem ids_nodup_iff {groups : List (BlockId × List Value)} (hnd : (groups.map Prod.fst).Nodup)
    (resources : List Value) :
    ((mergedBlocks groups resources).map blockId).Nodup ↔
      (unmanagedIds resources).Nodup ∧
        ∀ id ∈ unmanagedIds resources, id ∉ groups.map Prod.fst := by
  induction resources generalizing groups with
  | nil =>
    rw [ids_newBlocks]
    simp [unmanagedIds, hnd]
  | cons r rs ih =>
    by_cases hr : isManaged r = true
    · rw [unmanagedIds_cons_of_managed hr]
      cases hg : assocGet groups (blockId r) with
      | none => rw [mergedBlocks_cons_of_none hr hg, ih hnd]
      | some e =>
        -- The id of a managed block is no id of a block left alone.
        have hother : ∀ id ∈ unmanagedIds rs, id ≠ blockId r := by
          rintro id hid rfl
          exact (mem_unmanagedIds.mp hid).1 ((isManaged_iff r).mp hr)
        have hfresh :
            blockId r ∉ (mergedBlocks (assocErase groups (blockId r)) rs).map blockId := by
          rw [mem_ids_mergedBlocks, mem_keys_erase]
          rintro (h | h)
          · exact hother _ h rfl
          · exact h.2 rfl
        rw [mergedBlocks_cons_of_some hr hg, List.map_cons, List.nodup_cons,
          blockId_dropNullModule, blockId_withInstances, ih (assocErase_nodup hnd _)]
        constructor
        · rintro ⟨-, hun, hdis⟩
          refine ⟨hun, ?_⟩
          intro id hid hk
          exact hdis id hid (mem_keys_erase.mpr ⟨hk, hother id hid⟩)
        · rintro ⟨hun, hdis⟩
          refine ⟨hfresh, hun, ?_⟩
          intro id hid hk
          exact hdis id hid (mem_keys_erase.mp hk).1
    · rw [unmanagedIds_cons_of_not_managed hr, mergedBlocks_cons_of_not_managed hr, List.map_cons,
        List.nodup_cons, blockId_dropNullModule, ih hnd, mem_ids_mergedBlocks, List.nodup_cons]
      constructor
      · rintro ⟨hnew, hun, hdis⟩
        rw [not_or] at hnew
        refine ⟨⟨hnew.1, hun⟩, ?_⟩
        intro id hid
        rcases List.mem_cons.mp hid with rfl | hid
        · exact hnew.2
        · exact hdis id hid
      · rintro ⟨⟨hnew, hun⟩, hdis⟩
        refine ⟨?_, hun, fun id hid => hdis id (List.mem_cons_of_mem _ hid)⟩
        rw [not_or]
        exact ⟨hnew, hdis _ List.mem_cons_self⟩

end Ids

section Joining

/-- The instances of some blocks by the id of their block. -/
def keyedIn (blocks : List Value) : List (BlockId × Value) :=
  blocks.flatMap fun b => (instancesOf b).map (blockId b, ·)

theorem keyedIn_cons (b : Value) (rest : List Value) :
    keyedIn (b :: rest) = (instancesOf b).map (blockId b, ·) ++ keyedIn rest := rfl

theorem joinBlocks_nodup {groups : List (BlockId × List Value)}
    (h : (groups.map Prod.fst).Nodup) (blocks : List Value) :
    ((joinBlocks groups blocks).map Prod.fst).Nodup := by
  induction blocks generalizing groups with
  | nil => exact h
  | cons b rest ih => exact ih (keys_nodup_extend h _ _)

theorem mem_keys_joinBlocks (groups : List (BlockId × List Value)) (blocks : List Value)
    (id : BlockId) :
    id ∈ (joinBlocks groups blocks).map Prod.fst ↔
      id ∈ groups.map Prod.fst ∨ id ∈ blocks.map blockId := by
  induction blocks generalizing groups with
  | nil => simp [joinBlocks]
  | cons b rest ih =>
    rw [joinBlocks, ih, mem_keys_extend, List.map_cons, List.mem_cons,
      or_comm (a := id = blockId b),
      or_assoc]

theorem entries_joinBlocks (groups : List (BlockId × List Value)) (blocks : List Value) :
    (entries (joinBlocks groups blocks)).Perm (entries groups ++ keyedIn blocks) := by
  induction blocks generalizing groups with
  | nil => simp [joinBlocks, keyedIn]
  | cons b rest ih =>
    refine (ih _).trans ?_
    rw [keyedIn_cons, ← List.append_assoc]
    exact List.Perm.append_right _ (entries_extend _ _ _)

variable {x : Externals}

/-- What joining the leaves adds up to. -/
structure JoinedFrom (x : Externals) (j : Joined) (leaves : List LeafState) (docs : List Value)
    (out : Joined) : Prop where
  read : leaves.map (fun l => x.fromSlice l.bytes) = docs.map .ok
  nodup : (j.groups.map Prod.fst).Nodup → (out.groups.map Prod.fst).Nodup
  keys : ∀ id, id ∈ out.groups.map Prod.fst ↔
    id ∈ j.groups.map Prod.fst ∨ ∃ d ∈ docs, id ∈ (resourcesAt d).map blockId
  entries : (entries out.groups).Perm
    (entries j.groups ++ docs.flatMap fun d => keyedIn (resourcesAt d))
  serial : out.serial = docs.foldl (fun s d => max s (serialOf d)) j.serial

theorem joinLeaves_spec {leaves : List LeafState} {j out : Joined}
    (h : joinLeaves x j leaves = .ok out) : ∃ docs, JoinedFrom x j leaves docs out := by
  induction leaves generalizing j with
  | nil =>
    cases h
    exact ⟨[], rfl, fun hn => hn, by simp, by simp, rfl⟩
  | cons leaf rest ih =>
    simp only [joinLeaves] at h
    cases hp : parse x leaf.bytes with
    | error e => simp [hp] at h
    | ok ld =>
      simp only [hp] at h
      cases ha : addressesOf ld with
      | error e => simp [ha] at h
      | ok got =>
        simp only [ha, resourcesOf_of_addresses (mapError_eq_ok ha)] at h
        obtain ⟨docs, hj⟩ := ih h
        refine ⟨ld :: docs, ?_, ?_, ?_, ?_, hj.serial⟩
        · rw [List.map_cons, List.map_cons, mapError_eq_ok hp, hj.read]
        · intro hn
          exact hj.nodup (joinBlocks_nodup hn _)
        · intro id
          rw [hj.keys, mem_keys_joinBlocks]
          simp [or_assoc]
        · refine hj.entries.trans ?_
          rw [List.flatMap_cons, ← List.append_assoc]
          exact List.Perm.append_right _ (entries_joinBlocks _ _)

end Joining

section Serials

theorem toNat_max (a b : UInt64) : (max a b).toNat = max a.toNat b.toNat := by
  change (if a ≤ b then b else a).toNat = _
  split
  · next h => exact (Nat.max_eq_right (UInt64.le_iff_toNat_le.mp h)).symm
  · next h =>
    rw [UInt64.le_iff_toNat_le] at h
    omega

/-- The highest serial is below a bound exactly when every one is. -/
theorem foldl_max_lt_iff (docs : List Value) (start : UInt64) (n : Nat) :
    (docs.foldl (fun s d => max s (serialOf d)) start).toNat < n ↔
      start.toNat < n ∧ ∀ d ∈ docs, (serialOf d).toNat < n := by
  induction docs generalizing start with
  | nil => simp
  | cons d ds ih =>
    rw [List.foldl_cons, ih, toNat_max, max_lt_iff, List.forall_mem_cons, and_assoc]

theorem toNat_succ_of_lt {a : UInt64} (h : a.toNat + 1 < 2 ^ 64) : (a + 1).toNat = a.toNat + 1 := by
  rw [UInt64.toNat_add]
  exact Nat.mod_eq_of_lt h

/-- The next serial is above all exactly when none is the last one a `u64` holds. -/
theorem succ_serial_gt_iff (archive : Value) (docs : List Value) {top : UInt64}
    (htop : top = docs.foldl (fun s d => max s (serialOf d)) (serialOf archive)) :
    ((serialOf archive).toNat < (top + 1).toNat ∧
        ∀ d ∈ docs, (serialOf d).toNat < (top + 1).toNat) ↔
      (serialOf archive).toNat + 1 < 2 ^ 64 ∧ ∀ d ∈ docs, (serialOf d).toNat + 1 < 2 ^ 64 := by
  have hbelow := foldl_max_lt_iff docs (serialOf archive)
  rw [← htop] at hbelow
  rw [← hbelow]
  have hlast : ((serialOf archive).toNat + 1 < 2 ^ 64 ∧
      ∀ d ∈ docs, (serialOf d).toNat + 1 < 2 ^ 64) ↔ top.toNat + 1 < 2 ^ 64 := by
    have hbound := hbelow (2 ^ 64 - 1)
    simp only [Nat.lt_sub_iff_add_lt] at hbound
    exact hbound.symm
  rw [hlast]
  constructor
  · intro h
    by_contra hover
    have hzero : (top + 1).toNat = 0 := by
      have hlt := top.toNat_lt
      have hmax : top.toNat = 2 ^ 64 - 1 := by omega
      rw [UInt64.toNat_add, hmax]
      rfl
    omega
  · intro h
    rw [toNat_succ_of_lt h]
    omega

end Serials

section Run

variable {x : Externals}

/-- The address of an instance by the id of its block. -/
def addressKey (p : Frame × Value) : String :=
  let id := idOf p.1
  instanceAddress
    (if id.module = "" then id.type ++ "." ++ id.name
      else id.module ++ "." ++ id.type ++ "." ++ id.name) p.2

theorem placedAddress_eq_addressKey {p : Frame × Value} {base : String}
    (h : baseOf p.1 = .ok base) : placedAddress p = addressKey p := by
  rw [placedAddress, h]
  unfold baseOf at h
  split at h
  · cases h
  · next ty hty =>
    split at h
    · cases h
    · next name hname =>
      split at h
      · next m hm =>
        cases h
        simp [addressKey, idOf, hty, hname, hm]
      · next hm =>
        cases h
        simp [addressKey, idOf, hty, hname, hm]

/-- An instance under the fields the merge gives its block. -/
def retag (resources : List Value) (p : Frame × Value) : Frame × Value :=
  (frameFor resources (idOf p.1), p.2)

theorem idOf_frame (r : Value) : idOf (frame r) = blockId r := rfl

theorem idOf_frameFor (resources : List Value) (id : BlockId) :
    idOf (frameFor resources id) = id := by
  unfold frameFor
  split
  · next r hr =>
    rw [idOf_frame, blockId_dropNullModule]
    have hfound := List.find?_some hr
    simp only [Bool.and_eq_true, decide_eq_true_eq] at hfound
    exact hfound.2
  · rw [idOf_frame, blockId_dropNullModule, blockId_newBlock]

theorem addressKey_retag (resources : List Value) (p : Frame × Value) :
    addressKey (retag resources p) = addressKey p := by
  simp only [addressKey, retag, idOf_frameFor]

theorem keyedIn_retag (resources blocks : List Value) :
    ((keyedIn blocks).filter fun e => e.1.mode = "managed").map
        (fun e => (frameFor resources e.1, e.2)) = (managedIn blocks).map (retag resources) := by
  induction blocks with
  | nil => rfl
  | cons b rest ih =>
    rw [keyedIn_cons, List.filter_append, List.map_append, ih]
    by_cases hb : isManaged b = true
    · rw [managedIn_cons_of_managed hb, List.map_append]
      congr 1
      rw [List.filter_eq_self.mpr (by simpa using fun _ _ => (isManaged_iff b).mp hb), placed,
        List.map_map, List.map_map]
      rfl
    · have hnone : ((instancesOf b).map (blockId b, ·)).filter
          (fun e => e.1.mode = "managed") = [] := by
        apply List.filter_eq_nil_iff.mpr
        intro e he
        obtain ⟨inst, -, rfl⟩ := List.mem_map.mp he
        simpa [isManaged_iff] using hb
      rw [managedIn_cons_of_not_managed hb, hnone]
      rfl

/-- What a merge off the fast path has passed. -/
structure MergedFrom (x : Externals) (archive : List UInt8) (leaves : List LeafState)
    (merged doc : Value) (docs : List Value) (j : Joined) : Prop where
  read : x.fromSlice archive = .ok doc
  joined : JoinedFrom x ⟨[], serialOf doc, []⟩ leaves docs j
  resources : resourcesAt merged = mergedBlocks j.groups (resourcesAt doc)
  serial : serialOf merged = j.serial + 1
  distinct : ((managedIn (resourcesAt merged)).map addressKey).Nodup

theorem addressKey_nodup {merged : Value} {got : List String}
    (h : addressesFromState merged = .ok got) (hnd : got.Nodup) :
    ((managedIn (resourcesAt merged)).map addressKey).Nodup := by
  obtain ⟨-, hgot, hbases⟩ := addressesFromState_spec h
  have hkeys : (managedIn (resourcesAt merged)).map placedAddress =
      (managedIn (resourcesAt merged)).map addressKey := by
    apply List.map_congr_left
    intro p hp
    obtain ⟨r, hr, hpr⟩ := List.mem_flatMap.mp hp
    obtain ⟨hrm, hman⟩ := List.mem_filter.mp hr
    obtain ⟨base, hbase⟩ := hbases r hrm hman
    obtain ⟨inst, -, rfl⟩ := List.mem_map.mp hpr
    exact placedAddress_eq_addressKey hbase
  rwa [← hkeys, ← hgot]

theorem mergeDoc_passed {archive : List UInt8} {leaves : List LeafState} {merged : Value}
    (h : mergeDoc x archive leaves = .ok merged) :
    ∃ doc docs j, MergedFrom x archive leaves merged doc docs j := by
  obtain ⟨doc, hp, h⟩ := bind_eq_ok h
  obtain ⟨j, hj, h⟩ := bind_eq_ok h
  obtain ⟨resources, hres, h⟩ := bind_eq_ok h
  obtain ⟨got, hgot, h⟩ := bind_eq_ok h
  obtain ⟨hok, h⟩ := check_eq_ok h
  cases h
  obtain ⟨docs, hjoined⟩ := joinLeaves_spec hj
  have harray : arrayAt doc "resources" = some resources := by
    unfold resourcesOf at hres
    split at hres
    · cases hres
    · next rs hrs =>
      cases hres
      exact hrs
  obtain ⟨w, hw, -⟩ := Option.bind_eq_some_iff.mp harray
  have hobj := obj_of_get? hw
  have hobj' :
      ∃ ms, insertAt "resources" (.arr (mergedBlocks j.groups resources)) doc = .obj ms := by
    obtain ⟨ms, rfl⟩ := hobj
    exact ⟨_, rfl⟩
  refine ⟨doc, docs, j, mapError_eq_ok hp, hjoined, ?_, ?_,
    addressKey_nodup (mapError_eq_ok hgot) (nodup_of_bijection hok)⟩
  · have hold : resourcesAt doc = resources := by rw [resourcesAt, harray]; rfl
    rw [resourcesAt, arrayAt, get?_insertAt hobj', if_neg (by decide), get?_insertAt hobj,
      if_pos rfl, hold]
    rfl
  · rw [serialOf, get?_insertAt hobj', if_pos rfl]
    rfl

/-- At most one block for a module, mode, type and name. -/
def OneBlockPerId (doc : Value) : Prop := ((resourcesAt doc).map blockId).Nodup

/-- The merged state holds the leaves' managed instances under their blocks' fields, one
block for an id, and a newer serial. -/
structure Restores (archive : Value) (leaves : List Value) (merged : Value) : Prop where
  instances : (managedIn (resourcesAt merged)).Perm
    (leaves.flatMap fun d => managedIn (resourcesAt d))
  blocks : OneBlockPerId archive → (∀ d ∈ leaves, OneBlockPerId d) → OneBlockPerId merged
  serial : (serialOf archive).toNat < (serialOf merged).toNat ∧
    ∀ d ∈ leaves, (serialOf d).toNat < (serialOf merged).toNat

/-- The leaves' blocks have the archive's fields, or the four of their id where the archive has
no such block; their other blocks are new to the archive; no serial is the last one. -/
structure Mergeable (archive : Value) (leaves : List Value) : Prop where
  fields : ∀ d ∈ leaves, ∀ b ∈ resourcesAt d, isManaged b = true → instancesOf b ≠ [] →
    frame b = frameFor (resourcesAt archive) (blockId b)
  unmanaged : OneBlockPerId archive → (∀ d ∈ leaves, OneBlockPerId d) →
    ∀ d ∈ leaves, ∀ b ∈ resourcesAt d, isManaged b = false →
      blockId b ∉ (resourcesAt archive).map blockId
  serials : (serialOf archive).toNat + 1 < 2 ^ 64 ∧ ∀ d ∈ leaves, (serialOf d).toNat + 1 < 2 ^ 64

section Exactly

variable {archive : List UInt8} {leaves : List LeafState} {merged doc : Value} {docs : List Value}
  {j : Joined} (hm : MergedFrom x archive leaves merged doc docs j)

include hm

theorem MergedFrom.keys_nodup : (j.groups.map Prod.fst).Nodup := hm.joined.nodup List.nodup_nil

theorem MergedFrom.managed_perm :
    (managedIn (resourcesAt merged)).Perm
      ((docs.flatMap fun d => managedIn (resourcesAt d)).map (retag (resourcesAt doc))) := by
  rw [hm.resources]
  refine (managedIn_mergedBlocks hm.keys_nodup _).trans ?_
  have hentries := (hm.joined.entries.filter fun e => e.1.mode = "managed").map
    fun e => (frameFor (resourcesAt doc) e.1, e.2)
  have hleaves : ((docs.flatMap fun d => keyedIn (resourcesAt d)).filter
      fun e => e.1.mode = "managed").map (fun e => (frameFor (resourcesAt doc) e.1, e.2)) =
      (docs.flatMap fun d => managedIn (resourcesAt d)).map (retag (resourcesAt doc)) := by
    rw [List.filter_flatMap, List.map_flatMap, List.map_flatMap]
    congr 1
    funext d
    exact keyedIn_retag _ _
  rw [← hleaves]
  exact hentries

theorem MergedFrom.instances_iff :
    (managedIn (resourcesAt merged)).Perm (docs.flatMap fun d => managedIn (resourcesAt d)) ↔
      ∀ d ∈ docs, ∀ b ∈ resourcesAt d, isManaged b = true → instancesOf b ≠ [] →
        frame b = frameFor (resourcesAt doc) (blockId b) := by
  have hkeys : ((docs.flatMap fun d => managedIn (resourcesAt d)).map addressKey).Nodup := by
    have h := (hm.managed_perm.map addressKey).nodup_iff.mp hm.distinct
    rwa [List.map_map, Function.comp_def,
      List.map_congr_left (fun p _ => addressKey_retag (resourcesAt doc) p)] at h
  rw [hm.managed_perm.congr_left]
  rw [map_perm_self_iff (fun p _ => addressKey_retag (resourcesAt doc) p) hkeys]
  constructor
  · intro h d hd b hb hman hne
    obtain ⟨inst, hinst⟩ := List.exists_mem_of_ne_nil _ hne
    have hmem : (frame b, inst) ∈ docs.flatMap fun d => managedIn (resourcesAt d) :=
      List.mem_flatMap.mpr ⟨d, hd, List.mem_flatMap.mpr
        ⟨b, List.mem_filter.mpr ⟨hb, hman⟩, List.mem_map_of_mem hinst⟩⟩
    exact (congrArg Prod.fst (h _ hmem)).symm
  · intro h p hp
    obtain ⟨d, hd, hp⟩ := List.mem_flatMap.mp hp
    obtain ⟨b, hb, hp⟩ := List.mem_flatMap.mp hp
    obtain ⟨hbm, hman⟩ := List.mem_filter.mp hb
    obtain ⟨inst, hinst, rfl⟩ := List.mem_map.mp hp
    exact Prod.ext (h d hd b hbm hman (List.ne_nil_of_mem hinst)).symm rfl

theorem MergedFrom.blocks_iff (ha : OneBlockPerId doc) :
    OneBlockPerId merged ↔ ∀ d ∈ docs, ∀ b ∈ resourcesAt d, isManaged b = false →
      blockId b ∉ (resourcesAt doc).map blockId := by
  have hkept : (unmanagedIds (resourcesAt doc)).Nodup :=
    ha.sublist (List.filter_sublist.map blockId)
  rw [OneBlockPerId, hm.resources, ids_nodup_iff hm.keys_nodup]
  constructor
  · rintro ⟨-, h⟩ d hd b hb hman hid
    have hmode : (blockId b).mode ≠ "managed" := by
      rw [Ne, ← isManaged_iff, hman]
      exact Bool.false_ne_true
    apply h _ (mem_unmanagedIds.mpr ⟨hmode, hid⟩)
    rw [hm.joined.keys]
    exact .inr ⟨d, hd, List.mem_map_of_mem hb⟩
  · intro h
    refine ⟨hkept, ?_⟩
    intro id hid hkey
    obtain ⟨hmode, hin⟩ := mem_unmanagedIds.mp hid
    rw [hm.joined.keys] at hkey
    rcases hkey with hkey | ⟨d, hd, hkey⟩
    · exact absurd hkey List.not_mem_nil
    · obtain ⟨b, hb, rfl⟩ := List.mem_map.mp hkey
      apply h d hd b hb _ hin
      rw [Ne, ← isManaged_iff] at hmode
      simpa using hmode

theorem MergedFrom.restores_iff : Restores doc docs merged ↔ Mergeable doc docs := by
  have hserial := succ_serial_gt_iff doc docs hm.joined.serial
  rw [← hm.serial] at hserial
  constructor
  · intro h
    refine ⟨hm.instances_iff.mp h.instances, ?_, hserial.mp h.serial⟩
    intro ha hd
    exact (hm.blocks_iff ha).mp (h.blocks ha hd)
  · intro h
    refine ⟨hm.instances_iff.mpr h.fields, ?_, hserial.mpr h.serials⟩
    intro ha hd
    exact (hm.blocks_iff ha).mpr (h.unmanaged ha hd)

end Exactly

end Run

/-- A merge off the fast path restores the leaves' world exactly when they are mergeable. -/
theorem merge_restores_iff (x : Externals) (archive : List UInt8) (receipt : Receipt)
    (leaves : List LeafState) (bytes : List UInt8)
    (h : merge x archive receipt leaves = .ok bytes)
    (hslow : fastPath x archive receipt leaves = false) :
    ∃ found doc docs merged, findLeaves leaves receipt.leaves = .ok found ∧
      x.fromSlice archive = .ok doc ∧
      found.map (fun l => x.fromSlice l.bytes) = docs.map .ok ∧
      mergeDoc x archive found = .ok merged ∧ x.toVecPretty merged = .ok bytes ∧
      (Restores doc docs merged ↔ Mergeable doc docs) := by
  unfold merge at h
  cases hf : findLeaves leaves receipt.leaves with
  | error e => simp [hf] at h
  | ok found =>
    simp only [hf, hslow, Bool.false_eq_true, if_false] at h
    cases hd : mergeDoc x archive found with
    | error e => simp [hd] at h
    | ok merged =>
      simp only [hd] at h
      obtain ⟨doc, docs, j, hm⟩ := mergeDoc_passed hd
      exact ⟨found, doc, docs, merged, rfl, hm.read, hm.joined.read, hd, mapError_eq_ok h,
        hm.restores_iff⟩

section Org

def orgLeaf (serial : UInt64) (blocks : List Value) : Value :=
  .obj [("version", .num (.posInt 4)), ("terraform_version", .str "1.7.0"),
    ("serial", .num (.posInt serial)), ("outputs", .obj []), ("resources", .arr blocks)]

def keyBlocks (key repo protection : String) : List Value :=
  [orgBlock "managed" "github_repository" "repos" [keyed key repo],
   orgBlock "managed" "github_branch_protection" "main" [keyed key protection]]

/-- The leaves applied once more, one repository with a new id. -/
def alphaLeaf : Value := orgLeaf 2 (keyBlocks "alpha" "1" "4")
def betaLeaf : Value := orgLeaf 4 (keyBlocks "beta" "6" "3")

def orgTexts : Externals := knownTexts [orgState, alphaLeaf, betaLeaf]

def orgLeaves : List LeafState :=
  [⟨"org-alpha", plainText alphaLeaf⟩, ⟨"org-beta", plainText betaLeaf⟩]

theorem resourcesAt_orgLeaf (serial : UInt64) (blocks : List Value) :
    resourcesAt (orgLeaf serial blocks) = blocks := by
  simp [resourcesAt, arrayAt, orgLeaf, asArray]

theorem frame_orgBlock (mode type name : String) (is js : List Value) :
    frame (orgBlock mode type name is) = frame (dropNullModule (orgBlock mode type name js)) := by
  apply frame_congr
  intro k hk
  rw [get?_dropNullModule]
  simp [orgBlock, Ne.symm hk]

theorem frameFor_orgBlock {type name : String} {js : List Value}
    (hfind : (resourcesAt orgState).find? (fun r => isManaged r &&
      blockId r = ⟨"", "managed", type, name⟩) = some (orgBlock "managed" type name js))
    (is : List Value) :
    frame (orgBlock "managed" type name is) =
      frameFor (resourcesAt orgState) ⟨"", "managed", type, name⟩ := by
  rw [frameFor, hfind]
  exact frame_orgBlock _ _ _ _ _

theorem orgState_repos : (resourcesAt orgState).find? (fun r => isManaged r &&
      blockId r = ⟨"", "managed", "github_repository", "repos"⟩) =
    some (orgBlock "managed" "github_repository" "repos"
      [keyed "alpha" "1", keyed "beta" "2"]) := by
  decide +kernel

theorem orgState_main : (resourcesAt orgState).find? (fun r => isManaged r &&
      blockId r = ⟨"", "managed", "github_branch_protection", "main"⟩) =
    some (orgBlock "managed" "github_branch_protection" "main"
      [keyed "beta" "3", keyed "alpha" "4"]) := by
  decide +kernel

theorem frame_keyBlocks {key repo protection : String} {b : Value}
    (h : b ∈ keyBlocks key repo protection) :
    frame b = frameFor (resourcesAt orgState) (blockId b) := by
  simp only [keyBlocks, List.mem_cons, List.not_mem_nil, or_false] at h
  rcases h with rfl | rfl
  · exact frameFor_orgBlock orgState_repos _
  · exact frameFor_orgBlock orgState_main _

theorem org_mergeable : Mergeable orgState [alphaLeaf, betaLeaf] := by
  refine ⟨?_, ?_, by decide +kernel⟩
  · intro d hd b hb _ _
    simp only [List.mem_cons, List.not_mem_nil, or_false] at hd
    rcases hd with rfl | rfl
    · rw [alphaLeaf, resourcesAt_orgLeaf] at hb
      exact frame_keyBlocks hb
    · rw [betaLeaf, resourcesAt_orgLeaf] at hb
      exact frame_keyBlocks hb
  · intro _ _ d hd b hb hman
    have hall : ∀ d ∈ [alphaLeaf, betaLeaf], ∀ b ∈ resourcesAt d, isManaged b = true := by
      decide +kernel
    rw [hall d hd b hb] at hman
    cases hman

theorem org_merge_restores :
    ∃ s bytes merged, split orgTexts "org" orgText orgMoves = .ok s ∧
      merge orgTexts orgText s.receipt orgLeaves = .ok bytes ∧
      fastPath orgTexts orgText s.receipt orgLeaves = false ∧
      orgTexts.toVecPretty merged = .ok bytes ∧
      Restores orgState [alphaLeaf, betaLeaf] merged := by
  have hrun : ((split orgTexts "org" orgText orgMoves).toOption.bind fun s =>
      (merge orgTexts orgText s.receipt orgLeaves).toOption.map fun _ =>
        (fastPath orgTexts orgText s.receipt orgLeaves,
          decide (findLeaves orgLeaves s.receipt.leaves = .ok orgLeaves))) =
      some (false, true) := by decide +kernel
  obtain ⟨s, hs, hrun⟩ := Option.bind_eq_some_iff.mp hrun
  obtain ⟨bytes, hbytes, hrun⟩ := Option.map_eq_some_iff.mp hrun
  obtain ⟨hfast, hfound⟩ := Prod.mk.inj hrun
  have hmerge := toOption_eq_some hbytes
  obtain ⟨found, doc, docs, merged, hf, hdoc, hdocs, -, hout, hiff⟩ :=
    merge_restores_iff _ _ _ _ _ hmerge hfast
  rw [of_decide_eq_true hfound] at hf
  cases hf
  have hread : orgTexts.fromSlice orgText = .ok orgState := by decide +kernel
  rw [hread] at hdoc
  cases hdoc
  have hleaves : orgLeaves.map (fun l => orgTexts.fromSlice l.bytes) =
      [alphaLeaf, betaLeaf].map .ok := by decide +kernel
  rw [hleaves] at hdocs
  have hdocs := List.map_injective_iff.mpr (fun _ _ h => Except.ok.inj h) hdocs
  subst hdocs
  exact ⟨s, bytes, merged, toOption_eq_some hs, hmerge, hfast, hout, hiff.mpr org_mergeable⟩

def coreTeam : Value := .obj [("attributes", .obj [("id", .str "7")])]
def teamBlock : Value := orgBlock "managed" "github_team" "core" [coreTeam]
def meBlock : Value :=
  orgBlock "data" "github_user" "me" [.obj [("attributes", .obj [("id", .str "5")])]]

/-- A leaf with a team that the archive does not have, the archive's data block and the
last serial. -/
def grownLeaf : Value :=
  orgLeaf 18446744073709551615 (keyBlocks "alpha" "1" "4" ++ [teamBlock, meBlock])

def grownTexts : Externals := knownTexts [orgState, grownLeaf, betaLeaf]

def grownLeaves : List LeafState :=
  [⟨"org-alpha", plainText grownLeaf⟩, ⟨"org-beta", plainText betaLeaf⟩]

theorem grown_leaf_is_not_restored :
    ∃ s bytes merged, split grownTexts "org" orgText orgMoves = .ok s ∧
      merge grownTexts orgText s.receipt grownLeaves = .ok bytes ∧
      fastPath grownTexts orgText s.receipt grownLeaves = false ∧
      mergeDoc grownTexts orgText grownLeaves = .ok merged ∧
      grownTexts.toVecPretty merged = .ok bytes ∧
      ¬ (managedIn (resourcesAt merged)).Perm
        ([grownLeaf, betaLeaf].flatMap fun d => managedIn (resourcesAt d)) ∧
      (OneBlockPerId orgState ∧ (∀ d ∈ [grownLeaf, betaLeaf], OneBlockPerId d) ∧
        ¬ OneBlockPerId merged) ∧
      serialOf merged = 0 := by
  have hrun : ((split grownTexts "org" orgText orgMoves).toOption.bind fun s =>
      (merge grownTexts orgText s.receipt grownLeaves).toOption.bind fun bytes =>
        (mergeDoc grownTexts orgText grownLeaves).toOption.map fun merged =>
          (fastPath grownTexts orgText s.receipt grownLeaves, decide (plainText merged = bytes),
            (managedIn (resourcesAt merged)).all (fun p =>
              p.2 ≠ coreTeam || (p.1 "provider").isNone),
            decide ((resourcesAt merged).map blockId).Nodup, serialOf merged)) =
      some (false, true, true, false, 0) := by decide +kernel
  obtain ⟨s, hs, hrun⟩ := Option.bind_eq_some_iff.mp hrun
  obtain ⟨bytes, hbytes, hrun⟩ := Option.bind_eq_some_iff.mp hrun
  obtain ⟨merged, hmerged, hrun⟩ := Option.map_eq_some_iff.mp hrun
  simp only [Prod.mk.injEq, decide_eq_true_eq, decide_eq_false_iff_not] at hrun
  obtain ⟨hfast, htext, hbare, hdouble, hserial⟩ := hrun
  refine ⟨s, bytes, merged, toOption_eq_some hs, toOption_eq_some hbytes, hfast,
    toOption_eq_some hmerged, congrArg _ htext, ?_, ⟨?_, ?_, hdouble⟩, hserial⟩
  · intro hperm
    have hteam : (frame teamBlock, coreTeam) ∈
        [grownLeaf, betaLeaf].flatMap fun d => managedIn (resourcesAt d) := by
      refine List.mem_flatMap.mpr ⟨grownLeaf, List.mem_cons_self, List.mem_flatMap.mpr
        ⟨teamBlock, ?_, ?_⟩⟩
      · decide +kernel
      · exact List.mem_singleton.mpr rfl
    have hnone := List.all_eq_true.mp hbare _ (hperm.mem_iff.mpr hteam)
    revert hnone
    decide +kernel
  · unfold OneBlockPerId
    decide +kernel
  · unfold OneBlockPerId
    decide +kernel

end Org

end Migrate

end PangeaOperator
