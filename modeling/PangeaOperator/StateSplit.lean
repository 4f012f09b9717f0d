import PangeaOperator.StateDocument

/-!
# Splitting a state into leaves

`split` cuts the state of one template into the states of several, by a list of moves
that names every managed address once. Each block is copied into the leaves of its
instances, with the instances of that leaf only.

A leaf holds the managed instances of the state whose address its move lists, in the
order of the state, under a block that differs in nothing but its instances.
-/

namespace PangeaOperator

namespace Migrate

open SipHash

inductive MigrateError where
  | parse (text : String)
  | source (e : SourceError)
  | noMoves
  | duplicateLeaf (leaf : String)
  | wrongSource (fat source leaf : String)
  | bijection (text : String)
  | missingLeaf (leaf : String)
  deriving Repr, DecidableEq

inductive Direction where
  | forward
  | reversed
  deriving Repr, DecidableEq

structure StateMove where
  fromTemplate : String
  toTemplate : String
  pangeaNamespace : Option String
  addresses : List String
  deriving Repr, DecidableEq

structure LeafReceipt where
  template : String
  addresses : Nat
  contentHash : String
  deriving Repr, DecidableEq

structure Receipt where
  fatTemplate : String
  direction : Direction
  fatLineage : String
  fatSerial : UInt64
  archiveHash : String
  countBefore : Nat
  countAfter : Nat
  hashBefore : String
  hashAfter : String
  disjoint : Bool
  leaves : List LeafReceipt
  deriving Repr, DecidableEq

structure LeafState where
  template : String
  bytes : List UInt8
  deriving Repr, DecidableEq

structure Split where
  leaves : List LeafState
  receipt : Receipt
  deriving Repr, DecidableEq

section Source

variable (x : Externals)

def parse (bytes : List UInt8) : Except MigrateError Value :=
  (x.fromSlice bytes).mapError .parse

def contentHash (bytes : List UInt8) : String := x.blake3 bytes

/-- Thirty-two digits of the digest, cut like a UUID. -/
def lineageFor (fatLineage leaf : String) : String :=
  let digits := (x.blake3 (utf8 fatLineage ++ [0] ++ utf8 leaf)).toList
  let cut (a b : Nat) := String.ofList ((digits.drop a).take (b - a))
  cut 0 8 ++ "-" ++ cut 8 12 ++ "-" ++ cut 12 16 ++ "-" ++ cut 16 20 ++ "-" ++ cut 20 32

def addressesOf (doc : Value) : Except MigrateError (List String) :=
  (addressesFromState doc).mapError .source

def resourcesOf (doc : Value) : Except MigrateError (List Value) :=
  match arrayAt doc "resources" with
  | none => .error (.source (.state "no `resources` array"))
  | some resources => .ok resources

def checkEach (fatTemplate : String) (seen : List String) : List StateMove →
    Except MigrateError Unit
  | [] => .ok ()
  | m :: ms =>
    if m.fromTemplate ≠ fatTemplate then
      .error (.wrongSource fatTemplate m.fromTemplate m.toTemplate)
    else if m.toTemplate ∈ seen then .error (.duplicateLeaf m.toTemplate)
    else checkEach fatTemplate (m.toTemplate :: seen) ms

def checkMoves (fatTemplate : String) (moves : List StateMove) : Except MigrateError Unit :=
  if moves = [] then .error .noMoves else checkEach fatTemplate [] moves

def claimed (moves : List StateMove) : List String := moves.flatMap StateMove.addresses

/-- The owner map's entries in the order they are collected, from the `i`-th move on. -/
def ownersFrom (i : Nat) : List StateMove → List (String × Nat)
  | [] => []
  | m :: ms => m.addresses.map (·, i) ++ ownersFrom (i + 1) ms

/-- A later entry replaces an earlier one. -/
def ownerOf (moves : List StateMove) (addr : String) : Option Nat :=
  (assocGet (ownersFrom 0 moves).reverse addr).map Prod.snd

def fillBuckets (moves : List StateMove) (base : String) (buckets : List (Nat × List Value)) :
    List Value → Except MigrateError (List (Nat × List Value))
  | [] => .ok buckets
  | inst :: rest =>
    let addr := instanceAddress base inst
    match ownerOf moves addr with
    | none => .error (.bijection ("`" ++ addr ++ "` is in no move"))
    | some i => fillBuckets moves base (assocExtend i [inst] buckets) rest

/-- `per_leaf[i].push(block)` for every bucket, at most one for each leaf. -/
def pushBlocks (r : Value) (buckets : List (Nat × List Value)) (perLeaf : List (List Value)) :
    List (List Value) :=
  perLeaf.mapIdx fun i blocks =>
    match assocGet buckets i with
    | some (_, insts) => blocks ++ [withInstances r insts]
    | none => blocks

def distribute (moves : List StateMove) (perLeaf : List (List Value)) :
    List Value → Except MigrateError (List (List Value))
  | [] => .ok perLeaf
  | r :: rs =>
    if isManaged r then
      match resourceBase r with
      | .error e => .error (.source e)
      | .ok base =>
        match fillBuckets moves base [] (instancesOf r) with
        | .error e => .error e
        | .ok buckets => distribute moves (pushBlocks r buckets perLeaf) rs
    else distribute moves perLeaf rs

def leafDocument (fat : Value) (lineage : String) (resources : List Value) : Value :=
  .obj [("version", (fat.get? "version").getD (.num (.posInt 4))),
    ("terraform_version", (fat.get? "terraform_version").getD (.str "")),
    ("serial", .num (.posInt 1)), ("lineage", .str lineage), ("outputs", .obj []),
    ("resources", .arr resources)]

def leafDocFor (fat : Value) (m : StateMove) (resources : List Value) : Value :=
  leafDocument fat (lineageFor x (strField fat "lineage") m.toTemplate) resources

/-- The written leaves, their receipts and the addresses read back off them. -/
structure Written where
  leaves : List LeafState
  receipts : List LeafReceipt
  after : List String

def writeLeaves (fat : Value) : List (StateMove × List Value) → Except MigrateError Written
  | [] => .ok ⟨[], [], []⟩
  | (m, resources) :: rest =>
    let leafDoc := leafDocFor x fat m resources
    match (x.toVecPretty leafDoc).mapError MigrateError.parse with
    | .error e => .error e
    | .ok bytes =>
      match addressesOf leafDoc with
      | .error e => .error e
      | .ok got =>
        match writeLeaves fat rest with
        | .error e => .error e
        | .ok w =>
          .ok ⟨⟨m.toTemplate, bytes⟩ :: w.leaves,
            ⟨m.toTemplate, got.length, contentHash x bytes⟩ :: w.receipts, got ++ w.after⟩

def count (xs : List String) : String := " (" ++ toString xs.length ++ ")"

def split (fatTemplate : String) (fat : List UInt8) (moves : List StateMove) :
    Except MigrateError Split := do
  checkMoves fatTemplate moves
  let doc ← parse x fat
  let before ← addressesOf doc
  let first := bijection x before (claimed moves)
  if ¬ first.ok then
    .error (.bijection ("state " ++ first.before ++ count before ++ " vs moves " ++ first.after ++
      count (claimed moves) ++ ", disjoint=" ++ toString first.disjoint))
  else
    let resources ← resourcesOf doc
    let perLeaf ← distribute moves (List.replicate moves.length []) resources
    let w ← writeLeaves x doc (moves.zip perLeaf)
    let second := bijection x before w.after
    if ¬ second.ok then
      .error (.bijection ("written leaves " ++ second.after ++ count w.after ++ " != state " ++
        second.before ++ count before ++ ", disjoint=" ++ toString second.disjoint))
    else
      .ok ⟨w.leaves,
        { fatTemplate
          direction := .forward
          fatLineage := strField doc "lineage"
          fatSerial := serialOf doc
          archiveHash := contentHash x fat
          countBefore := before.length
          countAfter := w.after.length
          hashBefore := second.before
          hashAfter := second.after
          disjoint := second.disjoint
          leaves := w.receipts }⟩

end Source

section Owners

variable {moves : List StateMove}

theorem mem_ownersFrom {k i : Nat} {a : String} (h : (a, i) ∈ ownersFrom k moves) :
    k ≤ i ∧ ∃ m, moves[i - k]? = some m ∧ a ∈ m.addresses := by
  induction moves generalizing k with
  | nil => simp [ownersFrom] at h
  | cons m ms ih =>
    rcases List.mem_append.mp h with h | h
    · obtain ⟨b, hb, he⟩ := List.mem_map.mp h
      cases he
      exact ⟨le_refl i, m, by simp, hb⟩
    · obtain ⟨hk, n, hn, ha⟩ := ih h
      have hi : i - k = (i - (k + 1)) + 1 := by omega
      refine ⟨by omega, n, ?_, ha⟩
      rw [hi, List.getElem?_cons_succ]
      exact hn

/-- The owner of an address is a move that lists it. -/
theorem ownerOf_lists {a : String} {i : Nat} (h : ownerOf moves a = some i) :
    ∃ m, moves[i]? = some m ∧ a ∈ m.addresses := by
  obtain ⟨e, he, rfl⟩ := Option.map_eq_some_iff.mp h
  have hmem := List.mem_reverse.mp (List.mem_of_find?_eq_some he)
  have hkey : e.1 = a := by simpa using List.find?_some he
  subst hkey
  obtain ⟨-, m, hm, ha⟩ := mem_ownersFrom hmem
  exact ⟨m, by simpa using hm, ha⟩

theorem ownerOf_lt {a : String} {i : Nat} (h : ownerOf moves a = some i) : i < moves.length := by
  obtain ⟨m, hm, -⟩ := ownerOf_lists h
  exact (List.getElem?_eq_some_iff.mp hm).1

/-- Moves that list no address twice: no two of them list the same one. -/
theorem lister_unique (hnd : (claimed moves).Nodup) {i j : Nat} {m n : StateMove} {a : String}
    (hm : moves[i]? = some m) (hn : moves[j]? = some n) (ham : a ∈ m.addresses)
    (han : a ∈ n.addresses) : i = j := by
  have hpair := (List.nodup_flatMap.mp hnd).2
  rw [List.pairwise_iff_getElem] at hpair
  obtain ⟨hi, rfl⟩ := List.getElem?_eq_some_iff.mp hm
  obtain ⟨hj, rfl⟩ := List.getElem?_eq_some_iff.mp hn
  rcases Nat.lt_trichotomy i j with hlt | heq | hlt
  · exact absurd han (hpair i j hi hj hlt ham)
  · exact heq
  · exact absurd ham (hpair j i hj hi hlt han)

end Owners

section Distribution

variable {moves : List StateMove}

/-- The leaf of an instance. -/
def ownerAt (moves : List StateMove) (p : Frame × Value) : Option Nat :=
  ownerOf moves (placedAddress p)

theorem fillBuckets_spec {base : String} {insts : List Value}
    {buckets out : List (Nat × List Value)} (h : fillBuckets moves base buckets insts = .ok out) :
    (∀ inst ∈ insts, (ownerOf moves (instanceAddress base inst)).isSome) ∧
      ∀ j, assocAt out j = assocAt buckets j ++
        insts.filter (fun inst => ownerOf moves (instanceAddress base inst) = some j) := by
  induction insts generalizing buckets with
  | nil =>
    cases h
    simp
  | cons inst rest ih =>
    simp only [fillBuckets] at h
    cases ho : ownerOf moves (instanceAddress base inst) with
    | none => simp [ho] at h
    | some i =>
      simp only [ho] at h
      obtain ⟨hall, hat⟩ := ih h
      constructor
      · intro q hq
        rcases List.mem_cons.mp hq with rfl | hq
        · simp [ho]
        · exact hall q hq
      · intro j
        rw [hat j, assocAt_extend, List.append_assoc]
        by_cases hj : i = j
        · subst hj
          simp [ho]
        · simp [ho, hj]

theorem placedIn_pushBlocks {r : Value} (hr : isManaged r = true)
    (buckets : List (Nat × List Value)) {perLeaf : List (List Value)} {j : Nat}
    {blocks : List Value} (h : perLeaf[j]? = some blocks) :
    ∃ blocks', (pushBlocks r buckets perLeaf)[j]? = some blocks' ∧
      placedIn blocks' = placedIn blocks ++ (assocAt buckets j).map (frame r, ·) := by
  rw [pushBlocks, List.getElem?_mapIdx, h]
  refine ⟨_, rfl, ?_⟩
  unfold assocAt
  cases assocGet buckets j with
  | none => simp
  | some e => simp [placed_withInstances _ hr]

theorem filter_placed {r : Value} {base : String} (hbase : resourceBase r = .ok base) (j : Nat) :
    (placed r).filter (ownerAt moves · = some j) =
      ((instancesOf r).filter fun inst => ownerOf moves (instanceAddress base inst) = some j).map
        (frame r, ·) := by
  rw [placed, List.filter_map]
  congr 1
  apply List.filter_congr
  intro inst _
  simp only [Function.comp, ownerAt, placedAddress_frame hbase]

theorem distribute_managed {r : Value} (hr : isManaged r = true) {rs : List Value}
    {perLeaf out : List (List Value)} (h : distribute moves perLeaf (r :: rs) = .ok out) :
    ∃ base buckets, resourceBase r = .ok base ∧
      fillBuckets moves base [] (instancesOf r) = .ok buckets ∧
      distribute moves (pushBlocks r buckets perLeaf) rs = .ok out := by
  simp only [distribute, if_pos hr] at h
  cases hbase : resourceBase r with
  | error e => simp [hbase] at h
  | ok base =>
    cases hfill : fillBuckets moves base [] (instancesOf r) with
    | error e => simp [hbase, hfill] at h
    | ok buckets => exact ⟨base, buckets, rfl, hfill, by simpa [hbase, hfill] using h⟩

theorem distribute_not_managed {r : Value} (hr : ¬ isManaged r = true) {rs : List Value}
    {perLeaf out : List (List Value)} (h : distribute moves perLeaf (r :: rs) = .ok out) :
    distribute moves perLeaf rs = .ok out := by
  simpa only [distribute, if_neg hr] using h

theorem distribute_owned {rs : List Value} {perLeaf out : List (List Value)}
    (h : distribute moves perLeaf rs = .ok out) :
    ∀ p ∈ managedIn rs, (ownerAt moves p).isSome := by
  induction rs generalizing perLeaf with
  | nil => simp [managedIn]
  | cons r rs ih =>
    by_cases hr : isManaged r = true
    · obtain ⟨base, buckets, hbase, hfill, hrest⟩ := distribute_managed hr h
      intro p hp
      rw [managedIn_cons_of_managed hr] at hp
      rcases List.mem_append.mp hp with hp | hp
      · obtain ⟨inst, hinst, rfl⟩ := List.mem_map.mp hp
        rw [ownerAt, placedAddress_frame hbase]
        exact (fillBuckets_spec hfill).1 inst hinst
      · exact ih hrest p hp
    · rw [managedIn_cons_of_not_managed hr]
      exact ih (distribute_not_managed hr h)

/-- What the loop over the blocks adds to one leaf. -/
theorem distribute_leaf {rs : List Value} {perLeaf out : List (List Value)}
    (h : distribute moves perLeaf rs = .ok out) {j : Nat} {blocks : List Value}
    (hj : perLeaf[j]? = some blocks) :
    ∃ blocks', out[j]? = some blocks' ∧
      placedIn blocks' = placedIn blocks ++ (managedIn rs).filter (ownerAt moves · = some j) := by
  induction rs generalizing perLeaf blocks with
  | nil =>
    cases h
    exact ⟨blocks, hj, by simp [managedIn]⟩
  | cons r rs ih =>
    by_cases hr : isManaged r = true
    · obtain ⟨base, buckets, hbase, hfill, hrest⟩ := distribute_managed hr h
      obtain ⟨mid, hmid, hpush⟩ := placedIn_pushBlocks hr buckets hj
      obtain ⟨last, hlast, hplaced⟩ := ih hrest hmid
      refine ⟨last, hlast, ?_⟩
      rw [hplaced, hpush, (fillBuckets_spec hfill).2 j, managedIn_cons_of_managed hr,
        List.filter_append, filter_placed hbase, List.append_assoc]
      rfl
    · rw [managedIn_cons_of_not_managed hr]
      exact ih (distribute_not_managed hr h) hj

theorem length_distribute {rs : List Value} {perLeaf out : List (List Value)}
    (h : distribute moves perLeaf rs = .ok out) : out.length = perLeaf.length := by
  induction rs generalizing perLeaf with
  | nil =>
    cases h
    rfl
  | cons r rs ih =>
    by_cases hr : isManaged r = true
    · obtain ⟨-, buckets, -, -, hrest⟩ := distribute_managed hr h
      rw [ih hrest, pushBlocks, List.length_mapIdx]
    · exact ih (distribute_not_managed hr h)

/-- Over all leaves the loop places every managed instance once. -/
theorem distributed_perm {rs : List Value} {perLeaf : List (List Value)}
    (h : distribute moves (List.replicate moves.length []) rs = .ok perLeaf) :
    (perLeaf.flatMap placedIn).Perm (managedIn rs) := by
  have hlen := length_distribute h
  rw [List.length_replicate] at hlen
  have hleaves : perLeaf.map placedIn = (List.range moves.length).map fun i =>
      (managedIn rs).filter (ownerAt moves · = some i) := by
    apply List.ext_getElem
    · simp [hlen]
    · intro i hi _
      rw [List.length_map] at hi
      have hempty : (List.replicate moves.length ([] : List Value))[i]? = some [] := by
        simp [hlen ▸ hi]
      obtain ⟨blocks, hblocks, hplaced⟩ := distribute_leaf h hempty
      rw [List.getElem?_eq_getElem hi] at hblocks
      cases hblocks
      rw [List.getElem_map, List.getElem_map, List.getElem_range, hplaced]
      rfl
  have hall : (managedIn rs).filter (fun p => (ownerAt moves p).any (· < moves.length)) =
      managedIn rs := by
    apply List.filter_eq_self.mpr
    intro p hp
    obtain ⟨i, hi⟩ := Option.isSome_iff_exists.mp (distribute_owned h p hp)
    simp [hi, ownerOf_lt hi]
  have hjoin := flatMap_filter_perm (ownerAt moves) (managedIn rs) moves.length
  rw [hall] at hjoin
  rwa [List.flatMap_def, hleaves, ← List.flatMap_def]

end Distribution

section Run

variable {x : Externals} {moves : List StateMove}

theorem resourcesAt_leafDocFor (fat : Value) (m : StateMove) (resources : List Value) :
    resourcesAt (leafDocFor x fat m resources) = resources := by
  simp [resourcesAt, arrayAt, leafDocFor, leafDocument, asArray]

theorem writeLeaves_cons {fat : Value} {m : StateMove} {resources : List Value}
    {rest : List (StateMove × List Value)} {w : Written}
    (h : writeLeaves x fat ((m, resources) :: rest) = .ok w) :
    ∃ bytes got v, x.toVecPretty (leafDocFor x fat m resources) = .ok bytes ∧
      writeLeaves x fat rest = .ok v ∧
      w = ⟨⟨m.toTemplate, bytes⟩ :: v.leaves,
        ⟨m.toTemplate, got.length, contentHash x bytes⟩ :: v.receipts, got ++ v.after⟩ := by
  simp only [writeLeaves] at h
  cases hb : (x.toVecPretty (leafDocFor x fat m resources)).mapError MigrateError.parse with
  | error e => simp [hb] at h
  | ok bytes =>
    cases ha : addressesOf (leafDocFor x fat m resources) with
    | error e => simp [hb, ha] at h
    | ok got =>
      cases hw : writeLeaves x fat rest with
      | error e => simp [hb, ha, hw] at h
      | ok v =>
        simp only [hb, ha, hw, Except.ok.injEq] at h
        exact ⟨bytes, got, v, mapError_eq_ok hb, rfl, h.symm⟩

theorem writeLeaves_spec {fat : Value} {pairs : List (StateMove × List Value)} {w : Written}
    (h : writeLeaves x fat pairs = .ok w) :
    w.leaves.map LeafState.template = pairs.map (fun p => p.1.toTemplate) ∧
      pairs.map (fun p => x.toVecPretty (leafDocFor x fat p.1 p.2)) =
        w.leaves.map (fun l => .ok l.bytes) := by
  induction pairs generalizing w with
  | nil =>
    cases h
    exact ⟨rfl, rfl⟩
  | cons p rest ih =>
    obtain ⟨bytes, got, v, hb, hw, rfl⟩ := writeLeaves_cons h
    obtain ⟨htemplates, hbytes⟩ := ih hw
    simp [htemplates, hbytes, hb]

/-- What a split that goes through has passed. -/
structure Passed (x : Externals) (fatTemplate : String) (fat : List UInt8)
    (moves : List StateMove) (s : Split) (doc : Value) (before : List String)
    (perLeaf : List (List Value)) (w : Written) : Prop where
  checked : checkMoves fatTemplate moves = .ok ()
  read : x.fromSlice fat = .ok doc
  addresses : addressesFromState doc = .ok before
  first : (bijection x before (claimed moves)).ok = true
  distributed : distribute moves (List.replicate moves.length []) (resourcesAt doc) = .ok perLeaf
  written : writeLeaves x doc (moves.zip perLeaf) = .ok w
  second : (bijection x before w.after).ok = true
  leaves : s.leaves = w.leaves

theorem resourcesOf_of_addresses {doc : Value} {before : List String}
    (h : addressesFromState doc = .ok before) : resourcesOf doc = .ok (resourcesAt doc) := by
  rw [resourcesOf, (addressesFromState_spec h).1]

theorem split_passed {fatTemplate : String} {fat : List UInt8} {s : Split}
    (h : split x fatTemplate fat moves = .ok s) :
    ∃ doc before perLeaf w, Passed x fatTemplate fat moves s doc before perLeaf w := by
  obtain ⟨_, hc, h⟩ := bind_eq_ok h
  obtain ⟨doc, hp, h⟩ := bind_eq_ok h
  obtain ⟨before, hb, h⟩ := bind_eq_ok h
  obtain ⟨hfirst, h⟩ := check_eq_ok h
  have hbefore := mapError_eq_ok hb
  rw [resourcesOf_of_addresses hbefore] at h
  obtain ⟨_, hres, h⟩ := bind_eq_ok h
  cases hres
  obtain ⟨perLeaf, hd, h⟩ := bind_eq_ok h
  obtain ⟨w, hw, h⟩ := bind_eq_ok h
  obtain ⟨hsecond, h⟩ := check_eq_ok h
  cases h
  exact ⟨doc, before, perLeaf, w, hc, mapError_eq_ok hp, hbefore, hfirst, hd, hw, hsecond, rfl⟩

def leafDocs (x : Externals) (doc : Value) (moves : List StateMove)
    (perLeaf : List (List Value)) : List Value :=
  (moves.zip perLeaf).map fun p => leafDocFor x doc p.1 p.2

/-- The instances of a leaf are those its move owns, in the order of the state. -/
theorem Passed.leaf {fatTemplate : String} {fat : List UInt8} {s : Split} {doc : Value}
    {before : List String} {perLeaf : List (List Value)} {w : Written}
    (hp : Passed x fatTemplate fat moves s doc before perLeaf w) {i : Nat} {leafDoc : Value}
    (h : (leafDocs x doc moves perLeaf)[i]? = some leafDoc) :
    placedIn (resourcesAt leafDoc) =
      (managedIn (resourcesAt doc)).filter (ownerAt moves · = some i) := by
  rw [leafDocs, List.getElem?_map] at h
  obtain ⟨⟨m, resources⟩, hpair, rfl⟩ := Option.map_eq_some_iff.mp h
  obtain ⟨hm, hr⟩ := List.getElem?_zip_eq_some.mp hpair
  have hi := (List.getElem?_eq_some_iff.mp hm).1
  have hempty : (List.replicate moves.length ([] : List Value))[i]? = some [] := by
    simp [hi]
  obtain ⟨blocks, hblocks, hplaced⟩ := distribute_leaf hp.distributed hempty
  rw [hr] at hblocks
  cases hblocks
  rw [resourcesAt_leafDocFor, hplaced]
  rfl

/-- Nothing lost, doubled, altered, misplaced or reordered. An instance is compared
together with every field of its block but `instances`. -/
structure Conserves (moves : List StateMove) (fat : Value) (docs : List Value) : Prop where
  one_leaf : ∀ p ∈ managedIn (resourcesAt fat),
    ∃! i : Nat, ∃ doc, docs[i]? = some doc ∧ p ∈ placedIn (resourcesAt doc)
  perm : (docs.flatMap fun doc => placedIn (resourcesAt doc)).Perm (managedIn (resourcesAt fat))
  held : ∀ doc ∈ docs, ∀ p ∈ placedIn (resourcesAt doc), p ∈ managedIn (resourcesAt fat)
  listed : ∀ r ∈ resourcesAt fat, isManaged r = true → ∀ inst ∈ instancesOf r,
    ∃ base, resourceBase r = .ok base ∧
      ∀ (i : Nat) m doc, moves[i]? = some m → docs[i]? = some doc →
        ((frame r, inst) ∈ placedIn (resourcesAt doc) ↔ instanceAddress base inst ∈ m.addresses)
  ordered : ∀ doc ∈ docs,
    (placedIn (resourcesAt doc)).Sublist (managedIn (resourcesAt fat))

section Conservation

variable {fatTemplate : String} {fat : List UInt8} {s : Split} {doc : Value}
  {before : List String} {perLeaf : List (List Value)} {w : Written}

variable (hp : Passed x fatTemplate fat moves s doc before perLeaf w)

include hp

theorem Passed.length_leafDocs : (leafDocs x doc moves perLeaf).length = moves.length := by
  have hlen := length_distribute hp.distributed
  simp only [List.length_replicate] at hlen
  simp [leafDocs, hlen]

theorem Passed.mem_leaf_iff {i : Nat} (hi : i < moves.length) {p : Frame × Value} :
    (∃ leafDoc, (leafDocs x doc moves perLeaf)[i]? = some leafDoc ∧
      p ∈ placedIn (resourcesAt leafDoc)) ↔
      p ∈ managedIn (resourcesAt doc) ∧ ownerAt moves p = some i := by
  have hlen := hp.length_leafDocs
  obtain ⟨leafDoc, hleaf⟩ : ∃ d, (leafDocs x doc moves perLeaf)[i]? = some d :=
    ⟨_, List.getElem?_eq_getElem (hlen ▸ hi)⟩
  rw [hleaf]
  constructor
  · rintro ⟨d, hd, hm⟩
    cases hd
    rw [hp.leaf hleaf, List.mem_filter] at hm
    simpa using hm
  · intro hm
    refine ⟨leafDoc, rfl, ?_⟩
    rw [hp.leaf hleaf, List.mem_filter]
    simpa using hm

theorem Passed.owner {p : Frame × Value} (h : p ∈ managedIn (resourcesAt doc)) :
    ∃ i, ownerAt moves p = some i ∧ i < moves.length := by
  obtain ⟨i, hi⟩ := Option.isSome_iff_exists.mp (distribute_owned hp.distributed p h)
  exact ⟨i, hi, ownerOf_lt hi⟩

theorem Passed.one_leaf {p : Frame × Value} (h : p ∈ managedIn (resourcesAt doc)) :
    ∃! i : Nat, ∃ leafDoc, (leafDocs x doc moves perLeaf)[i]? = some leafDoc ∧
      p ∈ placedIn (resourcesAt leafDoc) := by
  obtain ⟨i, hi, hlt⟩ := hp.owner h
  refine ⟨i, (hp.mem_leaf_iff hlt).mpr ⟨h, hi⟩, ?_⟩
  rintro j ⟨d, hd, hm⟩
  have hj : j < moves.length := by
    rw [← hp.length_leafDocs]
    exact (List.getElem?_eq_some_iff.mp hd).1
  have hown := ((hp.mem_leaf_iff hj).mp ⟨d, hd, hm⟩).2
  rw [hi] at hown
  exact (Option.some.inj hown).symm

theorem Passed.perm :
    ((leafDocs x doc moves perLeaf).flatMap fun d => placedIn (resourcesAt d)).Perm
      (managedIn (resourcesAt doc)) := by
  have hlen := length_distribute hp.distributed
  rw [List.length_replicate] at hlen
  have hdocs : (leafDocs x doc moves perLeaf).map resourcesAt = perLeaf := by
    rw [leafDocs, List.map_map]
    conv_rhs => rw [← List.map_snd_zip (show perLeaf.length ≤ moves.length from hlen.le)]
    exact List.map_congr_left (fun p _ => resourcesAt_leafDocFor doc p.1 p.2)
  have hperm := distributed_perm hp.distributed
  rwa [← hdocs, List.flatMap_map] at hperm

theorem Passed.ordered {d : Value} (hd : d ∈ leafDocs x doc moves perLeaf) :
    (placedIn (resourcesAt d)).Sublist (managedIn (resourcesAt doc)) := by
  obtain ⟨i, hi⟩ := List.mem_iff_getElem?.mp hd
  rw [hp.leaf hi]
  exact List.filter_sublist

theorem Passed.listed {r : Value} (hr : r ∈ resourcesAt doc) (hm : isManaged r = true)
    {inst : Value} (hinst : inst ∈ instancesOf r) :
    ∃ base, resourceBase r = .ok base ∧
      ∀ (i : Nat) m d, moves[i]? = some m → (leafDocs x doc moves perLeaf)[i]? = some d →
        ((frame r, inst) ∈ placedIn (resourcesAt d) ↔ instanceAddress base inst ∈ m.addresses) := by
  obtain ⟨base, hbase⟩ := (addressesFromState_spec hp.addresses).2.2 r hr hm
  have hmem : (frame r, inst) ∈ managedIn (resourcesAt doc) := by
    rw [managedIn, placedIn, List.mem_flatMap]
    exact ⟨r, List.mem_filter.mpr ⟨hr, hm⟩, List.mem_map_of_mem hinst⟩
  refine ⟨base, hbase, ?_⟩
  intro i m d hmi hd
  rw [hp.leaf hd, List.mem_filter, ← placedAddress_frame hbase]
  obtain ⟨k, hk, -⟩ := hp.owner hmem
  obtain ⟨n, hn, hlist⟩ := ownerOf_lists hk
  simp only [hmem, true_and, hk, decide_eq_true_eq, Option.some.injEq]
  constructor
  · rintro rfl
    rw [hmi] at hn
    cases hn
    exact hlist
  · intro hlisted
    exact lister_unique (nodup_of_bijection hp.first) hn hmi hlist hlisted

/-- Where the digest tells the state's addresses and the moves' apart, a leaf holds every
address its move lists and no other. -/
theorem Passed.leaf_addresses (ht : ToldApart x before (claimed moves)) {i : Nat} {m : StateMove}
    {d : Value} (hm : moves[i]? = some m) (hd : (leafDocs x doc moves perLeaf)[i]? = some d) :
    ((placedIn (resourcesAt d)).map placedAddress).Perm m.addresses := by
  have hperm := perm_of_bijection hp.first ht
  have hclaimed := nodup_of_bijection hp.first
  have hbefore := (addressesFromState_spec hp.addresses).2.1
  have hleaf : (placedIn (resourcesAt d)).map placedAddress =
      before.filter (ownerOf moves · = some i) := by
    rw [hp.leaf hd, hbefore, List.filter_map]
    rfl
  rw [hleaf]
  have hmn : m.addresses.Nodup :=
    (List.nodup_flatMap.mp hclaimed).1 m (List.mem_of_getElem? hm)
  rw [List.perm_ext_iff_of_nodup ((hperm.nodup_iff.mpr hclaimed).filter _) hmn]
  intro a
  rw [List.mem_filter, decide_eq_true_eq]
  constructor
  · rintro ⟨-, hown⟩
    obtain ⟨n, hn, ha⟩ := ownerOf_lists hown
    rw [hm] at hn
    cases hn
    exact ha
  · intro ha
    have hmem : a ∈ before :=
      hperm.mem_iff.mpr (List.mem_flatMap.mpr ⟨m, List.mem_of_getElem? hm, ha⟩)
    refine ⟨hmem, ?_⟩
    rw [hbefore] at hmem
    obtain ⟨p, hpm, rfl⟩ := List.mem_map.mp hmem
    obtain ⟨k, hk, -⟩ := hp.owner hpm
    obtain ⟨n, hn, hlist⟩ := ownerOf_lists hk
    rw [← lister_unique hclaimed hn hm hlist ha]
    exact hk

end Conservation

theorem checkEach_nodup {fatTemplate : String} {seen : List String}
    (h : checkEach fatTemplate seen moves = .ok ()) :
    (moves.map StateMove.toTemplate).Nodup ∧ ∀ m ∈ moves, m.toTemplate ∉ seen := by
  induction moves generalizing seen with
  | nil => exact ⟨.nil, nofun⟩
  | cons m ms ih =>
    unfold checkEach at h
    split at h
    · cases h
    · split at h
      · cases h
      · next hfresh =>
        obtain ⟨hnodup, hseen⟩ := ih h
        rw [List.map_cons, List.nodup_cons]
        refine ⟨⟨fun hmem => ?_, hnodup⟩, fun n hn => ?_⟩
        · obtain ⟨n, hn, heq⟩ := List.mem_map.mp hmem
          exact hseen n hn (heq ▸ List.mem_cons_self)
        · rcases List.mem_cons.mp hn with rfl | hn
          · exact hfresh
          · exact fun hin => hseen n hn (List.mem_cons_of_mem _ hin)

theorem writeLeaves_receipts {fat : Value} {pairs : List (StateMove × List Value)} {w : Written}
    (h : writeLeaves x fat pairs = .ok w) : w.receipts.map (fun r => (r.template, r.contentHash)) =
      w.leaves.map fun l => (l.template, contentHash x l.bytes) := by
  induction pairs generalizing w with
  | nil =>
    cases h
    rfl
  | cons p rest ih =>
    obtain ⟨bytes, got, v, -, hw, rfl⟩ := writeLeaves_cons h
    rw [List.map_cons, List.map_cons, ih hw]

/-- The receipt of a split names its leaves, each once, with the digest of its bytes. -/
structure Receipted (x : Externals) (fat : List UInt8) (s : Split) : Prop where
  direction : s.receipt.direction = .forward
  archive : s.receipt.archiveHash = contentHash x fat
  leaves : s.receipt.leaves.map (fun r => (r.template, r.contentHash)) =
    s.leaves.map fun l => (l.template, contentHash x l.bytes)
  distinct : (s.leaves.map LeafState.template).Nodup

theorem split_receipted {fatTemplate : String} {fat : List UInt8} {s : Split}
    (h : split x fatTemplate fat moves = .ok s) : Receipted x fat s := by
  obtain ⟨_, hc, h⟩ := bind_eq_ok h
  obtain ⟨doc, -, h⟩ := bind_eq_ok h
  obtain ⟨before, -, h⟩ := bind_eq_ok h
  obtain ⟨-, h⟩ := check_eq_ok h
  obtain ⟨resources, -, h⟩ := bind_eq_ok h
  obtain ⟨perLeaf, hd, h⟩ := bind_eq_ok h
  obtain ⟨w, hw, h⟩ := bind_eq_ok h
  obtain ⟨-, h⟩ := check_eq_ok h
  cases h
  have hlen := length_distribute hd
  rw [List.length_replicate] at hlen
  have hmoves : w.leaves.map LeafState.template = moves.map StateMove.toTemplate := by
    rw [(writeLeaves_spec hw).1]
    conv_rhs => rw [← List.map_fst_zip (show moves.length ≤ perLeaf.length from hlen.ge),
      List.map_map]
    rfl
  refine ⟨rfl, rfl, writeLeaves_receipts hw, ?_⟩
  rw [hmoves]
  unfold checkMoves at hc
  split at hc
  · cases hc
  · exact (checkEach_nodup hc).1

end Run

/-- Every split that goes through conserves the state: the bytes of its leaves are the
documents of which `Conserves` speaks, one for each move. -/
theorem split_conserves (x : Externals) (fatTemplate : String) (fat : List UInt8)
    (moves : List StateMove) (s : Split) (h : split x fatTemplate fat moves = .ok s) :
    ∃ doc, ∃ docs : List Value, x.fromSlice fat = .ok doc ∧
      s.leaves.map LeafState.template = moves.map StateMove.toTemplate ∧
      docs.map x.toVecPretty = s.leaves.map (fun l => .ok l.bytes) ∧
      Conserves moves doc docs := by
  obtain ⟨doc, before, perLeaf, w, hp⟩ := split_passed h
  obtain ⟨htemplates, hbytes⟩ := writeLeaves_spec hp.written
  have hlen := length_distribute hp.distributed
  simp only [List.length_replicate] at hlen
  refine ⟨doc, leafDocs x doc moves perLeaf, hp.read, ?_, ?_, ?_⟩
  · have hfst : (moves.zip perLeaf).map Prod.fst = moves := List.map_fst_zip (by omega)
    rw [hp.leaves, htemplates]
    conv_rhs => rw [← hfst, List.map_map]
    rfl
  · rw [hp.leaves, ← hbytes, leafDocs, List.map_map]
    rfl
  · exact ⟨fun p hm => hp.one_leaf hm, hp.perm,
      fun d hd p hm => (hp.ordered hd).subset hm,
      fun r hr hm inst hinst => hp.listed hr hm hinst, fun d hd => hp.ordered hd⟩

section Success

variable {x : Externals} {moves : List StateMove}

theorem checkEach_ok {fatTemplate : String} {seen : List String}
    (hsource : ∀ m ∈ moves, m.fromTemplate = fatTemplate)
    (hnodup : (moves.map StateMove.toTemplate).Nodup)
    (hseen : ∀ m ∈ moves, m.toTemplate ∉ seen) : checkEach fatTemplate seen moves = .ok () := by
  induction moves generalizing seen with
  | nil => rfl
  | cons m ms ih =>
    rw [List.map_cons, List.nodup_cons] at hnodup
    rw [checkEach, if_neg (not_not.mpr (hsource m List.mem_cons_self)),
      if_neg (hseen m List.mem_cons_self)]
    refine ih (fun n hn => hsource n (List.mem_cons_of_mem m hn)) hnodup.2 (fun n hn hin => ?_)
    rcases List.mem_cons.mp hin with heq | hin
    · exact hnodup.1 (heq ▸ List.mem_map_of_mem hn)
    · exact hseen n (List.mem_cons_of_mem m hn) hin

theorem checkMoves_ok {fatTemplate : String} (hne : moves ≠ [])
    (hsource : ∀ m ∈ moves, m.fromTemplate = fatTemplate)
    (hnodup : (moves.map StateMove.toTemplate).Nodup) : checkMoves fatTemplate moves = .ok () := by
  rw [checkMoves, if_neg hne]
  exact checkEach_ok hsource hnodup (fun _ _ => List.not_mem_nil)

theorem mem_keys_ownersFrom {a : String} {k : Nat} (h : a ∈ claimed moves) :
    a ∈ (ownersFrom k moves).map Prod.fst := by
  induction moves generalizing k with
  | nil => exact h
  | cons m ms ih =>
    rw [ownersFrom, List.map_append, List.mem_append]
    rcases List.mem_append.mp h with h | h
    · exact .inl (by simpa using h)
    · exact .inr (ih h)

theorem ownerOf_isSome {a : String} (h : a ∈ claimed moves) : (ownerOf moves a).isSome := by
  obtain ⟨e, he, hkey⟩ := List.mem_map.mp (mem_keys_ownersFrom (k := 0) h)
  rw [ownerOf, Option.isSome_map, assocGet, List.find?_isSome]
  exact ⟨e, List.mem_reverse.mpr he, by simp [hkey]⟩

theorem fillBuckets_ok {base : String} {insts : List Value} {buckets : List (Nat × List Value)}
    (h : ∀ inst ∈ insts, (ownerOf moves (instanceAddress base inst)).isSome) :
    ∃ out, fillBuckets moves base buckets insts = .ok out := by
  induction insts generalizing buckets with
  | nil => exact ⟨buckets, rfl⟩
  | cons inst rest ih =>
    obtain ⟨i, hi⟩ := Option.isSome_iff_exists.mp (h inst List.mem_cons_self)
    simp only [fillBuckets, hi]
    exact ih (fun q hq => h q (List.mem_cons_of_mem inst hq))

theorem distribute_ok {rs : List Value} {perLeaf : List (List Value)}
    (hbase : ∀ r ∈ rs, isManaged r = true → ∃ base, resourceBase r = .ok base)
    (howned : ∀ p ∈ managedIn rs, (ownerAt moves p).isSome) :
    ∃ out, distribute moves perLeaf rs = .ok out := by
  induction rs generalizing perLeaf with
  | nil => exact ⟨perLeaf, rfl⟩
  | cons r rs ih =>
    have hbases : ∀ q ∈ rs, isManaged q = true → ∃ base, resourceBase q = .ok base :=
      fun q hq => hbase q (List.mem_cons_of_mem r hq)
    by_cases hr : isManaged r = true
    · obtain ⟨base, hb⟩ := hbase r List.mem_cons_self hr
      rw [managedIn_cons_of_managed hr] at howned
      have hinsts : ∀ inst ∈ instancesOf r, (ownerOf moves (instanceAddress base inst)).isSome := by
        intro inst hinst
        have h := howned _ (List.mem_append_left _ (List.mem_map_of_mem hinst))
        rwa [ownerAt, placedAddress_frame hb] at h
      obtain ⟨buckets, hfill⟩ : ∃ out, fillBuckets moves base [] (instancesOf r) = .ok out :=
        fillBuckets_ok hinsts
      simp only [distribute, if_pos hr, hb, hfill]
      exact ih hbases (fun p hp => howned p (List.mem_append_right _ hp))
    · simp only [distribute, if_neg hr]
      rw [managedIn_cons_of_not_managed hr] at howned
      exact ih hbases howned

/-- A block that the address reader accepts. -/
structure Readable (r : Value) : Prop where
  managed : isManaged r = true
  base : ∃ base, resourceBase r = .ok base
  instances : arrayAt r "instances" = some (instancesOf r)

theorem readable_withInstances {r : Value} (hr : isManaged r = true) {base : String}
    (hbase : resourceBase r = .ok base) (insts : List Value) :
    Readable (withInstances r insts) where
  managed := (isManaged_withInstances insts r).trans hr
  base := ⟨base, by rw [← baseOf_frame, frame_withInstances insts hr, baseOf_frame, hbase]⟩
  instances := by
    rw [instancesOf_withInstances insts hr, arrayAt, withInstances,
      get?_insertAt (isObject_of_managed hr), if_pos rfl]
    rfl

theorem addressesFrom_readable {rs : List Value} (h : ∀ r ∈ rs, Readable r) :
    addressesFrom rs = .ok ((placedIn rs).map placedAddress) := by
  induction rs with
  | nil => rfl
  | cons r rs ih =>
    have hr := h r List.mem_cons_self
    obtain ⟨base, hbase⟩ := hr.base
    have hhere : blockAddresses r = .ok ((placed r).map placedAddress) := by
      have haddr : (placed r).map placedAddress = (instancesOf r).map (instanceAddress base) := by
        rw [placed, List.map_map]
        exact List.map_congr_left (fun inst _ => placedAddress_frame hbase inst)
      rw [blockAddresses, if_pos hr.managed, hbase, hr.instances, haddr]
    simp only [addressesFrom, hhere, ih (fun q hq => h q (List.mem_cons_of_mem r hq)),
      placedIn_cons, List.map_append]

theorem distribute_readable {rs : List Value} {perLeaf out : List (List Value)}
    (h : distribute moves perLeaf rs = .ok out)
    (hread : ∀ blocks ∈ perLeaf, ∀ r ∈ blocks, Readable r) :
    ∀ blocks ∈ out, ∀ r ∈ blocks, Readable r := by
  induction rs generalizing perLeaf with
  | nil =>
    cases h
    exact hread
  | cons r rs ih =>
    by_cases hr : isManaged r = true
    · obtain ⟨base, buckets, hbase, -, hrest⟩ := distribute_managed hr h
      refine ih hrest (fun blocks hblocks b hb => ?_)
      obtain ⟨i, hi, rfl⟩ := List.mem_mapIdx.mp hblocks
      have hold := hread _ (List.getElem_mem hi)
      split at hb
      · rcases List.mem_append.mp hb with hb | hb
        · exact hold b hb
        · rw [List.mem_singleton.mp hb]
          exact readable_withInstances hr hbase _
      · exact hold b hb
    · exact ih (distribute_not_managed hr h) hread

theorem writeLeaves_ok (hpretty : ∀ v, ∃ bytes, x.toVecPretty v = .ok bytes) (fat : Value)
    {pairs : List (StateMove × List Value)} (hread : ∀ p ∈ pairs, ∀ r ∈ p.2, Readable r) :
    ∃ w, writeLeaves x fat pairs = .ok w ∧
      w.after = pairs.flatMap fun p => (placedIn p.2).map placedAddress := by
  induction pairs with
  | nil => exact ⟨⟨[], [], []⟩, rfl, rfl⟩
  | cons p rest ih =>
    obtain ⟨m, resources⟩ := p
    obtain ⟨bytes, hbytes⟩ := hpretty (leafDocFor x fat m resources)
    obtain ⟨w, hw, hafter⟩ := ih (fun q hq => hread q (List.mem_cons_of_mem _ hq))
    have haddr : addressesOf (leafDocFor x fat m resources) =
        .ok ((placedIn resources).map placedAddress) := by
      have hres : arrayAt (leafDocFor x fat m resources) "resources" = some resources := by
        simp [arrayAt, leafDocFor, leafDocument, asArray]
      have hfrom : addressesFrom resources = .ok ((placedIn resources).map placedAddress) :=
        addressesFrom_readable (hread (m, resources) List.mem_cons_self)
      rw [addressesOf, addressesFromState, hres]
      dsimp only
      rw [hfrom]
      rfl
    refine ⟨⟨⟨m.toTemplate, bytes⟩ :: w.leaves, ⟨m.toTemplate,
      ((placedIn resources).map placedAddress).length, contentHash x bytes⟩ :: w.receipts,
      (placedIn resources).map placedAddress ++ w.after⟩, ?_, ?_⟩
    · simp only [writeLeaves, hbytes, haddr, hw]
      rfl
    · rw [hafter, List.flatMap_cons]

/-- Moves that list the managed addresses once each go through. -/
theorem split_ok (hpretty : ∀ v, ∃ bytes, x.toVecPretty v = .ok bytes) {fatTemplate : String}
    {fat : List UInt8} {doc : Value} {before : List String} (hdoc : x.fromSlice fat = .ok doc)
    (hbefore : addressesFromState doc = .ok before) (hnodup : before.Nodup)
    (hchecked : checkMoves fatTemplate moves = .ok ()) (hperm : (claimed moves).Perm before) :
    ∃ s, split x fatTemplate fat moves = .ok s := by
  obtain ⟨-, haddr, hbases⟩ := addressesFromState_spec hbefore
  have hfirst : (bijection x before (claimed moves)).ok = true :=
    bijection_of_perm hperm.symm (hperm.nodup_iff.mpr hnodup)
  have howned : ∀ p ∈ managedIn (resourcesAt doc), (ownerAt moves p).isSome := by
    intro p hp
    refine ownerOf_isSome (hperm.mem_iff.mpr ?_)
    rw [haddr]
    exact List.mem_map_of_mem hp
  obtain ⟨perLeaf, hdist⟩ : ∃ out,
      distribute moves (List.replicate moves.length []) (resourcesAt doc) = .ok out :=
    distribute_ok hbases howned
  have hlen := length_distribute hdist
  rw [List.length_replicate] at hlen
  have hread := distribute_readable hdist (fun blocks hblocks r hr => by
    rw [List.eq_of_mem_replicate hblocks] at hr
    cases hr)
  have hpairs : ∀ p ∈ moves.zip perLeaf, ∀ r ∈ p.2, Readable r :=
    fun p hp => hread p.2 (List.of_mem_zip hp).2
  obtain ⟨w, hw, hafter⟩ := writeLeaves_ok hpretty doc hpairs
  have hwritten : w.after.Perm before := by
    have hjoin := (distributed_perm hdist).map placedAddress
    rw [← haddr, List.map_flatMap] at hjoin
    have hzip : (moves.zip perLeaf).flatMap (fun p => (placedIn p.2).map placedAddress) =
        perLeaf.flatMap fun blocks => (placedIn blocks).map placedAddress := by
      conv_rhs => rw [← List.map_snd_zip (show perLeaf.length ≤ moves.length from hlen.le),
        List.flatMap_map]
    rwa [hafter, hzip]
  have hsecond : (bijection x before w.after).ok = true :=
    bijection_of_perm hwritten.symm (hwritten.nodup_iff.mpr hnodup)
  have hparse : parse x fat = .ok doc := by rw [parse, hdoc]; rfl
  have haddresses : addressesOf doc = .ok before := by rw [addressesOf, hbefore]; rfl
  simp only [split, hchecked, hparse, haddresses, resourcesOf_of_addresses hbefore, hdist, hw,
    hfirst, hsecond, bind, Except.bind, not_true_eq_false, if_false]
  exact ⟨_, rfl⟩

end Success

section Org

mutual
/-- The compact text of a document without characters to escape. -/
def plainText : Value → List UInt8
  | .null => utf8 "null"
  | .bool b => utf8 (if b then "true" else "false")
  | .num n => utf8 n.display
  | .str s => utf8 "\"" ++ utf8 s ++ utf8 "\""
  | .arr xs => utf8 "[" ++ plainItems xs ++ utf8 "]"
  | .obj ms => utf8 "\x7b" ++ plainMembers ms ++ utf8 "\x7d"
def plainItems : List Value → List UInt8
  | [] => []
  | [v] => plainText v
  | v :: vs => plainText v ++ utf8 "," ++ plainItems vs
def plainMembers : List (String × Value) → List UInt8
  | [] => []
  | [m] => plainMember m
  | m :: ms => plainMember m ++ utf8 "," ++ plainMembers ms
def plainMember : String × Value → List UInt8
  | (k, v) => utf8 "\"" ++ utf8 k ++ utf8 "\":" ++ plainText v
end

/-- A reader that knows the texts of some documents, and SipHash digits for a digest. -/
def knownTexts (docs : List Value) : Externals where
  fromSlice bytes :=
    match docs.find? (plainText · = bytes) with
    | some d => .ok d
    | none => .error "expected value at line 1 column 1"
  toVecPretty d := .ok (plainText d)
  blake3 bytes := String.join (List.replicate 4 (hex16 (sipHash bytes)))

def orgBlock (mode type name : String) (instances : List Value) : Value :=
  .obj [("mode", .str mode), ("type", .str type), ("name", .str name),
    ("provider", .str "provider.github"), ("instances", .arr instances)]

def keyed (key id : String) : Value :=
  .obj [("index_key", .str key), ("attributes", .obj [("id", .str id)])]

def orgState : Value :=
  .obj [("version", .num (.posInt 4)), ("terraform_version", .str "1.7.0"),
    ("serial", .num (.posInt 181)), ("lineage", .str "aaaaaaaa-bbbb-cccc-dddd-eeeeeeeeeeee"),
    ("resources", .arr
      [orgBlock "managed" "github_repository" "repos" [keyed "alpha" "1", keyed "beta" "2"],
       orgBlock "managed" "github_branch_protection" "main" [keyed "beta" "3", keyed "alpha" "4"],
       orgBlock "data" "github_user" "me" [.obj [("attributes", .obj [("id", .str "5")])]]])]

def orgMoves : List StateMove :=
  [⟨"org", "org-alpha", some "ns", ["github_repository.repos[\"alpha\"]",
      "github_branch_protection.main[\"alpha\"]"]⟩,
   ⟨"org", "org-beta", some "ns", ["github_repository.repos[\"beta\"]",
      "github_branch_protection.main[\"beta\"]"]⟩]

def orgText : List UInt8 := plainText orgState

theorem org_split_conserves :
    ∃ s, split (knownTexts [orgState]) "org" orgText orgMoves = .ok s ∧ s.leaves.length = 2 ∧
      ∃ docs, Conserves orgMoves orgState docs := by
  have hok : ((split (knownTexts [orgState]) "org" orgText orgMoves).toOption.map
      (·.leaves.length)) = some 2 := by decide +kernel
  obtain ⟨s, hs, hlen⟩ := Option.map_eq_some_iff.mp hok
  have hsplit := toOption_eq_some hs
  obtain ⟨doc, docs, hdoc, -, -, hc⟩ := split_conserves _ _ _ _ s hsplit
  have horg : (knownTexts [orgState]).fromSlice orgText = .ok orgState := by decide +kernel
  rw [horg] at hdoc
  cases hdoc
  exact ⟨s, hsplit, hlen, docs, hc⟩

end Org

end Migrate

end PangeaOperator
