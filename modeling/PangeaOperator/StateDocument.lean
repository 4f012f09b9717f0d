import PangeaOperator.Lib.Json
import PangeaOperator.Lib.SipHash
import PangeaOperator.Lib.Grouping
import PangeaOperator.Lib.Yields

/-!
# Terraform state documents

A state document is a list of resource blocks, each with its instances. The address
of an instance is made of three fields of its block and the instance's index key, so
the fields of a block other than `instances` (its frame) and the instance together
decide it. Address lists are compared by a digest of their sorted, length-framed
texts.
-/

namespace PangeaOperator

namespace Migrate

open SipHash

/-- A number of a document. A float is held as the text it is printed with. -/
inductive Number where
  | posInt (n : UInt64)
  | negInt (n : Int64)
  | float (text : String)
  deriving Repr, DecidableEq

namespace Number

def asU64 : Number → Option UInt64
  | .posInt n => some n
  | _ => none

def display : Number → String
  | .posInt n => toString n.toNat
  | .negInt n => toString n.toInt
  | .float text => text

end Number

abbrev Value := Json Number

inductive SourceError where
  | state (text : String)
  deriving Repr, DecidableEq

/-- The readers and writers of the bytes, and the digest in lower case hex. -/
structure Externals where
  fromSlice : List UInt8 → Except String Value
  toVecPretty : Value → Except String (List UInt8)
  blake3 : List UInt8 → String

section Fields

def asStr : Value → Option String
  | .str s => some s
  | _ => none

def asArray : Value → Option (List Value)
  | .arr items => some items
  | _ => none

def asU64 : Value → Option UInt64
  | .num n => n.asU64
  | _ => none

def strAt (v : Value) (k : String) : Option String := (v.get? k).bind asStr

def arrayAt (v : Value) (k : String) : Option (List Value) := (v.get? k).bind asArray

def strField (v : Value) (k : String) : String := (strAt v k).getD ""

def serialOf (v : Value) : UInt64 := ((v.get? "serial").bind asU64).getD 0

/-- `r.get("instances").and_then(Value::as_array).cloned().unwrap_or_default()` -/
def instancesOf (r : Value) : List Value := (arrayAt r "instances").getD []

/-- Put a member into an object; anything else stays as it is. -/
def insertAt (k : String) (w : Value) : Value → Value
  | .obj ms => .obj (Json.set k w ms)
  | v => v

theorem get?_insertAt {v : Value} (hv : ∃ ms, v = .obj ms) (j k : String) (w : Value) :
    (insertAt k w v).get? j = if k = j then some w else v.get? j := by
  obtain ⟨ms, rfl⟩ := hv
  simp [insertAt]

theorem obj_of_get? {v w : Value} {k : String} (h : v.get? k = some w) : ∃ ms, v = .obj ms := by
  cases v with
  | obj ms => exact ⟨ms, rfl⟩
  | null | bool | num | str | arr => simp [Json.get?, Json.members] at h

end Fields

section Addresses

def replaceChar (c : Char) (text : List Char) (s : List Char) : List Char :=
  s.flatMap fun d => if d = c then text else [d]

def indexText : Value → Option String
  | .str s =>
    let escaped := replaceChar '"' ['\\', '"'] (replaceChar '\\' ['\\', '\\'] s.toList)
    some ("[\"" ++ String.ofList escaped ++ "\"]")
  | .num n => some ("[" ++ n.display ++ "]")
  | _ => none

/-- `resource_base` of a block known by its fields. -/
def baseOf (field : String → Option Value) : Except SourceError String :=
  match (field "type").bind asStr with
  | none => .error (.state "resource without `type`")
  | some ty =>
    match (field "name").bind asStr with
    | none => .error (.state "resource without `name`")
    | some name =>
      match (field "module").bind asStr with
      | some m => .ok (if m = "" then ty ++ "." ++ name else m ++ "." ++ ty ++ "." ++ name)
      | none => .ok (ty ++ "." ++ name)

def resourceBase (r : Value) : Except SourceError String := baseOf r.get?

def instanceAddress (base : String) (inst : Value) : String :=
  match (inst.get? "index_key").bind indexText with
  | some ix => base ++ ix
  | none => base

def isManaged (r : Value) : Bool := strAt r "mode" = some "managed"

/-- One block's part of `addresses_from_state`. -/
def blockAddresses (r : Value) : Except SourceError (List String) :=
  if isManaged r then
    match resourceBase r with
    | .error e => .error e
    | .ok base =>
      match arrayAt r "instances" with
      | none => .error (.state ("`" ++ base ++ "` has no `instances`"))
      | some instances => .ok (instances.map (instanceAddress base))
  else .ok []

def addressesFrom : List Value → Except SourceError (List String)
  | [] => .ok []
  | r :: rs =>
    match blockAddresses r with
    | .error e => .error e
    | .ok here =>
      match addressesFrom rs with
      | .error e => .error e
      | .ok rest => .ok (here ++ rest)

def addressesFromState (state : Value) : Except SourceError (List String) :=
  match arrayAt state "resources" with
  | none => .error (.state "no `resources` array")
  | some resources => addressesFrom resources

end Addresses

section Frames

/-- The fields of a block other than its instances. -/
abbrev Frame := String → Option Value

def frame (r : Value) : Frame := fun k => if k = "instances" then none else r.get? k

theorem frame_congr {r s : Value} (h : ∀ k, k ≠ "instances" → r.get? k = s.get? k) :
    frame r = frame s := by
  funext k
  unfold frame
  by_cases hk : k = "instances"
  · rw [if_pos hk, if_pos hk]
  · rw [if_neg hk, if_neg hk, h k hk]

/-- The instances of a block, each with the block's other fields. -/
def placed (r : Value) : List (Frame × Value) := (instancesOf r).map (frame r, ·)

def placedIn (resources : List Value) : List (Frame × Value) := resources.flatMap placed

def managedIn (resources : List Value) : List (Frame × Value) :=
  placedIn (resources.filter isManaged)

def resourcesAt (doc : Value) : List Value := (arrayAt doc "resources").getD []

/-- The address of an instance, read off its frame. -/
def placedAddress (p : Frame × Value) : String :=
  match baseOf p.1 with
  | .ok base => instanceAddress base p.2
  | .error _ => ""

@[simp] theorem baseOf_frame (r : Value) : baseOf (frame r) = resourceBase r := rfl

theorem placedAddress_frame {r : Value} {base : String} (h : resourceBase r = .ok base)
    (inst : Value) : placedAddress (frame r, inst) = instanceAddress base inst := by
  simp [placedAddress, h]

@[simp] theorem placedIn_nil : placedIn [] = [] := rfl
@[simp] theorem placedIn_cons (r : Value) (rs : List Value) :
    placedIn (r :: rs) = placed r ++ placedIn rs := rfl
@[simp] theorem placedIn_append (rs ss : List Value) :
    placedIn (rs ++ ss) = placedIn rs ++ placedIn ss := List.flatMap_append

theorem managedIn_cons_of_managed {r : Value} (h : isManaged r = true) (rs : List Value) :
    managedIn (r :: rs) = placed r ++ managedIn rs := by
  simp [managedIn, h]

theorem managedIn_cons_of_not_managed {r : Value} (h : ¬ isManaged r = true) (rs : List Value) :
    managedIn (r :: rs) = managedIn rs := by
  simp [managedIn, h]

theorem blockAddresses_spec {r : Value} {out : List String} (h : blockAddresses r = .ok out)
    (hr : isManaged r = true) :
    ∃ base, resourceBase r = .ok base ∧ out = (placed r).map placedAddress := by
  rw [blockAddresses, if_pos hr] at h
  split at h
  · cases h
  · next base hbase =>
    split at h
    · cases h
    · next instances hi =>
      cases h
      refine ⟨base, hbase, ?_⟩
      simp only [placed, instancesOf, hi, Option.getD_some, List.map_map]
      apply List.map_congr_left
      intro inst _
      exact (placedAddress_frame hbase inst).symm

theorem addressesFrom_spec {rs : List Value} {out : List String} (h : addressesFrom rs = .ok out) :
    out = (managedIn rs).map placedAddress ∧
      ∀ r ∈ rs, isManaged r = true → ∃ base, resourceBase r = .ok base := by
  induction rs generalizing out with
  | nil =>
    cases h
    exact ⟨rfl, by simp⟩
  | cons r rs ih =>
    simp only [addressesFrom] at h
    split at h
    · cases h
    · next here hhere =>
      split at h
      · cases h
      · next rest hrest =>
        cases h
        obtain ⟨hout, hbases⟩ := ih hrest
        by_cases hr : isManaged r = true
        · obtain ⟨base, hbase, hblock⟩ := blockAddresses_spec hhere hr
          rw [managedIn_cons_of_managed hr, List.map_append, ← hblock, ← hout]
          refine ⟨rfl, ?_⟩
          intro q hq hm
          rcases List.mem_cons.mp hq with rfl | hq
          · exact ⟨base, hbase⟩
          · exact hbases q hq hm
        · rw [blockAddresses, if_neg hr] at hhere
          cases hhere
          rw [managedIn_cons_of_not_managed hr, ← hout]
          refine ⟨rfl, ?_⟩
          intro q hq hm
          rcases List.mem_cons.mp hq with rfl | hq
          · exact absurd hm hr
          · exact hbases q hq hm

/-- What an accepted document says: the addresses are those of its managed instances. -/
theorem addressesFromState_spec {doc : Value} {out : List String}
    (h : addressesFromState doc = .ok out) :
    arrayAt doc "resources" = some (resourcesAt doc) ∧
      out = (managedIn (resourcesAt doc)).map placedAddress ∧
      ∀ r ∈ resourcesAt doc, isManaged r = true → ∃ base, resourceBase r = .ok base := by
  unfold addressesFromState at h
  split at h
  · cases h
  · next resources hres =>
    rw [resourcesAt, hres]
    exact ⟨rfl, addressesFrom_spec h⟩

variable {r : Value} (insts : List Value)

def withInstances (r : Value) (insts : List Value) : Value := insertAt "instances" (.arr insts) r

theorem isObject_of_managed (h : isManaged r = true) : ∃ ms, r = .obj ms := by
  obtain ⟨w, hw, -⟩ := Option.bind_eq_some_iff.mp (of_decide_eq_true h)
  exact obj_of_get? hw

theorem instancesOf_withInstances (h : isManaged r = true) :
    instancesOf (withInstances r insts) = insts := by
  rw [instancesOf, withInstances, arrayAt, get?_insertAt (isObject_of_managed h), if_pos rfl]
  rfl

theorem frame_withInstances (h : isManaged r = true) :
    frame (withInstances r insts) = frame r := by
  apply frame_congr
  intro k hk
  rw [withInstances, get?_insertAt (isObject_of_managed h), if_neg (Ne.symm hk)]

theorem isManaged_withInstances (r : Value) : isManaged (withInstances r insts) = isManaged r := by
  unfold isManaged strAt
  cases r with
  | obj ms => rw [withInstances, get?_insertAt ⟨ms, rfl⟩, if_neg (by decide)]
  | null | bool | num | str | arr => rfl

theorem placed_withInstances (h : isManaged r = true) :
    placed (withInstances r insts) = insts.map (frame r, ·) := by
  rw [placed, instancesOf_withInstances insts h, frame_withInstances insts h]

end Frames

section Digest

/-- The texts in order, each after its length, all after their number. -/
def multisetInput (addresses : List String) : List UInt8 :=
  let sorted := (addresses.map utf8).insertionSort (· ≤ ·)
  leBytes (UInt64.ofNat sorted.length) ++ sorted.flatMap sliceBytes

def multisetHash (x : Externals) (addresses : List String) : String :=
  x.blake3 (multisetInput addresses)

/-- The digest does not collide on the two lists, and no text is longer than the eight
bytes of its length can say. -/
structure ToldApart (x : Externals) (before after : List String) : Prop where
  short_before : ∀ a ∈ before, (utf8 a).length < 2 ^ 64
  short_after : ∀ a ∈ after, (utf8 a).length < 2 ^ 64
  digest : multisetHash x before = multisetHash x after →
    multisetInput before = multisetInput after

theorem perm_of_multisetInput_eq {xs ys : List String} (hx : ∀ a ∈ xs, (utf8 a).length < 2 ^ 64)
    (hy : ∀ a ∈ ys, (utf8 a).length < 2 ^ 64) (h : multisetInput xs = multisetInput ys) :
    xs.Perm ys := by
  have hframes := (List.append_inj h (by simp)).2
  have hsorted := flatMap_sliceBytes_inj (by simpa using hx) (by simpa using hy) hframes
  have hback := (List.perm_insertionSort (· ≤ ·) (xs.map utf8)).symm
  rw [hsorted] at hback
  exact (List.map_perm_map_iff utf8_injective).mp
    (hback.trans (List.perm_insertionSort (· ≤ ·) (ys.map utf8)))

structure Bijection where
  before : String
  after : String
  disjoint : Bool
  ok : Bool

def bijection (x : Externals) (before after : List String) : Bijection :=
  let disjoint : Bool := after.dedup.length = after.length
  let hb := multisetHash x before
  let ha := multisetHash x after
  ⟨hb, ha, disjoint, disjoint && hb = ha⟩

theorem nodup_of_bijection {x : Externals} {before after : List String}
    (h : (bijection x before after).ok = true) : after.Nodup := by
  simp only [bijection, Bool.and_eq_true, decide_eq_true_eq] at h
  rw [← List.dedup_eq_self]
  exact (List.dedup_sublist after).eq_of_length h.1

/-- The digest does not depend on the order. -/
theorem multisetInput_perm {xs ys : List String} (h : xs.Perm ys) :
    multisetInput xs = multisetInput ys := by
  have hsorted : (xs.map utf8).insertionSort (· ≤ ·) = (ys.map utf8).insertionSort (· ≤ ·) := by
    have hperm := (List.perm_insertionSort (· ≤ ·) (xs.map utf8)).trans
      ((h.map utf8).trans (List.perm_insertionSort (· ≤ ·) (ys.map utf8)).symm)
    exact hperm.eq_of_pairwise' (List.pairwise_insertionSort _ _) (List.pairwise_insertionSort _ _)
  rw [multisetInput, multisetInput, hsorted]

theorem bijection_of_perm {x : Externals} {before after : List String} (h : before.Perm after)
    (hnodup : after.Nodup) : (bijection x before after).ok = true := by
  have hhash : multisetHash x before = multisetHash x after := by
    rw [multisetHash, multisetHash, multisetInput_perm h]
  simp only [bijection, Bool.and_eq_true, decide_eq_true_eq]
  exact ⟨by rw [List.dedup_eq_self.mpr hnodup], hhash⟩

theorem perm_of_bijection {x : Externals} {before after : List String}
    (h : (bijection x before after).ok = true) (ht : ToldApart x before after) :
    before.Perm after := by
  simp only [bijection, Bool.and_eq_true, decide_eq_true_eq] at h
  exact perm_of_multisetInput_eq ht.short_before ht.short_after (ht.digest h.2)

end Digest

end Migrate

end PangeaOperator
