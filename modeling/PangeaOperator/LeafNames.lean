import Mathlib
import PangeaOperator.LeafPartition

/-!
# Names of leaves

`pangea-leaf`, `names.rs`. A leaf is named by the template it comes from and a slug of its key. A
name that is shared or too long is clipped, and a digest of the key is put after it.
-/

namespace PangeaOperator.Migrate

open SipHash

def maxNameLen : Nat := 63

/-- Whether a dash was the last character, or nothing yet. -/
def slugFrom : Bool → List Char → List Char
  | _, [] => []
  | dash, c :: cs =>
    if c.isAlphanum then c.toLower :: slugFrom false cs
    else if !dash then '-' :: slugFrom true cs
    else slugFrom dash cs

def trimEndDashes (cs : List Char) : List Char := cs.rdropWhile (· = '-')

def slug (raw : String) : String :=
  match trimEndDashes ((slugFrom true raw.toList).dropWhile (· = '-')) with
  | [] => "leaf"
  | cs => String.ofList cs

/-- The first eight digits of the digest. -/
def suffix (x : Externals) (key : LeafKey) : String :=
  String.ofList ((x.blake3 (utf8 key.tag ++ [0] ++ utf8 key.raw)).toList.take 8)

def clip (s : String) (max : Nat) : String := String.ofList (trimEndDashes (s.toList.take max))

def plainName (base : String) (key : LeafKey) : String := base ++ "-" ++ slug key.raw

def leafName (x : Externals) (base : String) (keys : List LeafKey) (key : LeafKey) : String :=
  let n := plainName base key
  if (keys.map (plainName base)).count n > 1 ∨ n.utf8ByteSize > maxNameLen then
    clip n (maxNameLen - 9) ++ "-" ++ suffix x key
  else n

def leafNames (x : Externals) (base : String) (keys : List LeafKey) : SortedMap LeafKey String :=
  SortedMap.ofList (keys.map fun k => (k, leafName x base keys k))

/-- `names[&key]` -/
def nameOf (names : SortedMap LeafKey String) (key : LeafKey) : String :=
  (names.get? key).getD ""

example : slug "/a_B.c//" = "a-b-c" := by decide +kernel

/-- A key whose plain name is not its own, or does not fit. -/
def NeedsSuffix (base : String) (keys : List LeafKey) (key : LeafKey) : Prop :=
  (keys.map (plainName base)).count (plainName base key) > 1 ∨
    (plainName base key).utf8ByteSize > maxNameLen

instance (base : String) (keys : List LeafKey) (key : LeafKey) :
    Decidable (NeedsSuffix base keys key) := inferInstanceAs (Decidable (_ ∨ _))

/-- Each key has a name, no two the same one, and each name fits. -/
def NamesUnique (names : SortedMap LeafKey String) (keys : List LeafKey) : Prop :=
  (∀ k, k ∈ names.keys ↔ k ∈ keys) ∧
  (∀ i ∈ keys, ∀ j ∈ keys, nameOf names i = nameOf names j → i = j) ∧
  ∀ k ∈ keys, (nameOf names k).length ≤ maxNameLen

/-- The plain name of one key reads as the clipped name of another with its digits. -/
def ReadsAs (x : Externals) (base : String) (k j : LeafKey) : Prop :=
  plainName base k = clip (plainName base j) (maxNameLen - 9) ++ "-" ++ suffix x j

instance (x : Externals) (base : String) (k j : LeafKey) : Decidable (ReadsAs x base k j) :=
  inferInstanceAs (Decidable (_ = _))

section Unique

variable {x : Externals} {base : String} {keys : List LeafKey} {i j k : LeafKey}

theorem leafName_of_needs (h : NeedsSuffix base keys k) :
    leafName x base keys k = clip (plainName base k) (maxNameLen - 9) ++ "-" ++ suffix x k :=
  if_pos h

theorem leafName_of_plain (h : ¬NeedsSuffix base keys k) :
    leafName x base keys k = plainName base k := if_neg h

theorem nameOf_leafNames (hkeys : keys.Nodup) (hk : k ∈ keys) :
    nameOf (leafNames x base keys) k = leafName x base keys k := by
  have hfst : (keys.map fun k => (k, leafName x base keys k)).map Prod.fst = keys := by
    rw [List.map_map]
    exact List.map_id keys
  have hget : (leafNames x base keys).get? k = some (leafName x base keys k) :=
    (SortedMap.get?_ofList_iff (by rwa [hfst])).mpr (List.mem_map_of_mem hk)
  rw [nameOf, hget]
  rfl

theorem mem_keys_leafNames : k ∈ (leafNames x base keys).keys ↔ k ∈ keys := by
  rw [leafNames, SortedMap.mem_keys_ofList, List.map_map]
  exact iff_of_eq (congrArg (k ∈ ·) (List.map_id keys))

theorem length_clip_le (s : String) (max : Nat) : (clip s max).length ≤ max := by
  have htrim : (trimEndDashes (s.toList.take max)).length ≤ (s.toList.take max).length :=
    (List.rdropWhile_prefix _ _).length_le
  rw [clip, String.length_ofList]
  exact htrim.trans (List.length_take_le _ _)

theorem length_suffix_le : (suffix x k).length ≤ 8 := by
  rw [suffix, String.length_ofList]
  exact List.length_take_le _ _

/-- Each character takes a byte at least. -/
theorem length_le_utf8ByteSize (s : String) : s.length ≤ s.utf8ByteSize := by
  have hchars (cs : List Char) : cs.length ≤ String.utf8Len cs := by
    induction cs with
    | nil => exact Nat.zero_le _
    | cons c cs ih =>
      have hc := Char.utf8Size_pos c
      rw [String.utf8Len_cons, List.length_cons]
      omega
  have hsize : s.utf8ByteSize = String.utf8Len s.toList := by simp
  rw [hsize]
  exact hchars s.toList

theorem length_leafName_le : (leafName x base keys k).length ≤ maxNameLen := by
  by_cases h : NeedsSuffix base keys k
  · have hclip := length_clip_le (plainName base k) (maxNameLen - 9)
    have hdigits := length_suffix_le (x := x) (k := k)
    rw [leafName_of_needs h, String.length_append, String.length_append]
    change _ + 1 + _ ≤ 63
    change _ ≤ 54 at hclip
    omega
  · rw [leafName_of_plain h]
    exact (length_le_utf8ByteSize _).trans (not_lt.mp (not_or.mp h).2)

/-- Two keys of one plain name share it. -/
theorem needsSuffix_of_shared (hi : i ∈ keys) (hj : j ∈ keys) (hne : i ≠ j)
    (h : plainName base i = plainName base j) : NeedsSuffix base keys i := by
  left
  have hperm := (List.perm_cons_erase hi).map (plainName base)
  have hrest : plainName base i ∈ (keys.erase i).map (plainName base) := by
    rw [h]
    exact List.mem_map_of_mem ((List.mem_erase_of_ne hne.symm).mpr hj)
  have hcount := List.count_pos_iff.mpr hrest
  rw [hperm.count_eq, List.map_cons, List.count_cons_self]
  omega

/-- Digits of one length tell the keys apart, whatever stands before them. -/
theorem suffixed_inj (hlen : ∀ k ∈ keys, (suffix x k).length = 8)
    (hinj : ∀ i ∈ keys, ∀ j ∈ keys, suffix x i = suffix x j → i = j) (hi : i ∈ keys)
    (hj : j ∈ keys) {s t : String} (h : s ++ suffix x i = t ++ suffix x j) : i = j := by
  refine hinj i hi j hj (String.toList_inj.mp ?_)
  have hchars : s.toList ++ (suffix x i).toList = t.toList ++ (suffix x j).toList := by
    rw [← String.toList_append, h, String.toList_append]
  refine (List.append_inj' hchars ?_).2
  rw [String.length_toList, String.length_toList, hlen i hi, hlen j hj]

/-- Plain names that are kept differ among themselves, and so do names with digits; a kept name
and one with digits may only meet where the one reads as the other. -/
theorem leafNames_unique_iff (x : Externals) (base : String) (keys : List LeafKey)
    (hkeys : keys.Nodup) (hlen : ∀ k ∈ keys, (suffix x k).length = 8)
    (hinj : ∀ i ∈ keys, ∀ j ∈ keys, suffix x i = suffix x j → i = j) :
    NamesUnique (leafNames x base keys) keys ↔
      ∀ k ∈ keys, ∀ j ∈ keys, ¬NeedsSuffix base keys k → NeedsSuffix base keys j →
        ¬ReadsAs x base k j := by
  constructor
  · rintro ⟨-, hunique, -⟩ k hk j hj hplain hneeds hreads
    have hname : leafName x base keys k = leafName x base keys j := by
      rw [leafName_of_plain hplain, leafName_of_needs hneeds]
      exact hreads
    have heq := hunique k hk j hj
      (by rw [nameOf_leafNames hkeys hk, nameOf_leafNames hkeys hj, hname])
    exact hplain (heq ▸ hneeds)
  · intro hapart
    refine ⟨fun k => mem_keys_leafNames, fun i hi j hj h => ?_, fun k hk => ?_⟩
    · rw [nameOf_leafNames hkeys hi, nameOf_leafNames hkeys hj] at h
      by_cases hni : NeedsSuffix base keys i <;> by_cases hnj : NeedsSuffix base keys j
      · rw [leafName_of_needs hni, leafName_of_needs hnj] at h
        exact suffixed_inj hlen hinj hi hj h
      · rw [leafName_of_needs hni, leafName_of_plain hnj] at h
        exact absurd h.symm (hapart j hj i hi hnj hni)
      · rw [leafName_of_plain hni, leafName_of_needs hnj] at h
        exact absurd h (hapart i hi j hj hni hnj)
      · rw [leafName_of_plain hni, leafName_of_plain hnj] at h
        by_contra hne
        exact hni (needsSuffix_of_shared hi hj hne h)
    · rw [nameOf_leafNames hkeys hk]
      exact length_leafName_le

end Unique

/-- Two repositories of one slug, and one whose name ends in the first digits of `a_b`'s digest. -/
def dashedKeys : List LeafKey := [.keyed "a_b", .keyed "a-b", .keyed "a-b-bd53e748"]

/-- `blake3` of the three keys. -/
def dashedDigests : Externals where
  fromSlice _ := .error "expected value at line 1 column 1"
  toVecPretty _ := .ok []
  blake3 bytes :=
    if bytes = utf8 "keyed" ++ [0] ++ utf8 "a_b" then
      "bd53e748fb746642a5593710c22aaa408d79915ab3c91979166fec9c154d5de5"
    else if bytes = utf8 "keyed" ++ [0] ++ utf8 "a-b" then
      "e4457206e999650e78b737b4b5b5228cc4c3e6db8acfc2b648ccd43291efdd37"
    else "8cc8e3686472615271dbd3b946b2cc0d811e3690610c449d29bc031723d033af"

theorem leafNames_meet : dashedKeys.Nodup ∧
    (∀ k ∈ dashedKeys, (suffix dashedDigests k).length = 8) ∧
    (∀ i ∈ dashedKeys, ∀ j ∈ dashedKeys,
      suffix dashedDigests i = suffix dashedDigests j → i = j) ∧
    ¬NamesUnique (leafNames dashedDigests "r" dashedKeys) dashedKeys := by
  refine ⟨by decide +kernel, by decide +kernel, by decide +kernel, fun h => ?_⟩
  have hmeet : nameOf (leafNames dashedDigests "r" dashedKeys) (.keyed "a_b") =
      nameOf (leafNames dashedDigests "r" dashedKeys) (.keyed "a-b-bd53e748") := by
    decide +kernel
  have heq := h.2.1 (.keyed "a_b") (by decide +kernel) (.keyed "a-b-bd53e748")
    (by decide +kernel) hmeet
  exact absurd heq (by decide +kernel)

theorem leafNames_unique_pair :
    NamesUnique (leafNames dashedDigests "r" [.keyed "a_b", .keyed "a-b"])
      [.keyed "a_b", .keyed "a-b"] :=
  (leafNames_unique_iff dashedDigests "r" [.keyed "a_b", .keyed "a-b"] (by decide +kernel)
    (by decide +kernel) (by decide +kernel)).mpr (by decide +kernel)

end PangeaOperator.Migrate
