import PangeaOperator.Lib.JsonText
import PangeaOperator.Lib.Text
import PangeaOperator.Settling

/-!
# Plan approval

The approval hash of `controller/template_controller.rs`: the canonical text of a drift
list, the canonical bytes of the state it was planned against, and what an approval is
compared with. Reading JSON is serde's and stays a parameter.
-/

namespace PangeaOperator

open Json SipHash

def DriftEntry.line (e : DriftEntry) : String :=
  e.address ++ "|" ++ e.action ++ "|" ++ ",".intercalate e.attributes

/-- One line an entry, attributes and lines sorted. -/
def canonicalDriftFingerprint (drifts : List DriftDetail) : String :=
  "\n".intercalate (sortTexts (drifts.map (fun d => d.entry.line)))

def contentHash (input : String) : UInt64 := sipHash (textBytes input)

inductive CurrentStateFingerprint where
  | absent
  | present (bytes : List UInt8)
  | unreadable
  deriving DecidableEq, Repr

def CurrentStateFingerprint.isPresent : CurrentStateFingerprint → Bool
  | present _ => true
  | _ => false

/-- The bytes to hash; nothing where the state could not be read. -/
def resolveApprovalHashInput : CurrentStateFingerprint → Option (Option (List UInt8))
  | .absent => some none
  | .present bytes => some (some bytes)
  | .unreadable => none

def isPlanApproved (statusApproved specApproved : Option String) (planHash : String) : Bool :=
  statusApproved = some planHash || specApproved = some planHash

section Hash

variable {ν : Type} (numText : ν → List Char) (parse : List UInt8 → Option (Json ν))

/-- `serde_json::to_vec`. -/
def jsonBytes (v : Json ν) : List UInt8 := utf8 (String.ofList (render numText v))

def canonicalizeStateBytes (bytes : List UInt8) : List UInt8 :=
  match parse bytes with
  | some value => jsonBytes numText (sortKeys value)
  | none => bytes

/-- A state is tagged before it is hashed, so that an empty one differs from none. -/
def taggedState : Option (List UInt8) → List UInt8
  | some bytes => 1 :: sliceBytes (canonicalizeStateBytes numText parse bytes)
  | none => [0]

/-- What `plan_approval_hash` feeds its hasher. -/
def approvalBytes (planText : String) (stateBytes : Option (List UInt8)) : List UInt8 :=
  leBytes (contentHash planText) ++ taggedState numText parse stateBytes

def planApprovalHash (planText : String) (stateBytes : Option (List UInt8)) : String :=
  hex16 (sipHash (approvalBytes numText parse planText stateBytes))

/-- What is relied on of serde's JSON: numbers are written apart, objects that are read have no
key twice, and what was read reads again after its keys are sorted. -/
structure ReadsJson : Prop where
  numbers : NumberText numText
  distinct : ∀ bytes v, parse bytes = some v → DistinctKeys v
  rereads : ∀ bytes v, parse bytes = some v → (parse (jsonBytes numText (sortKeys v))).isSome

/-- Both absent, both JSON and equal up to the order of keys, or neither JSON and equal. -/
def SameState : Option (List UInt8) → Option (List UInt8) → Prop
  | none, none => True
  | some a, some b =>
    (∃ v w, parse a = some v ∧ parse b = some w ∧ Same v w) ∨
      (parse a = none ∧ parse b = none ∧ a = b)
  | _, _ => False

variable {numText parse}

theorem jsonBytes_injective (h : NumberText numText) : Function.Injective (jsonBytes numText) := by
  intro v w hvw
  have htext := utf8_injective hvw
  exact render_injective h (String.ofList_injective htext)

theorem canonicalizeStateBytes_eq_iff (h : ReadsJson numText parse) (a b : List UInt8) :
    canonicalizeStateBytes numText parse a = canonicalizeStateBytes numText parse b ↔
      SameState parse (some a) (some b) := by
  unfold canonicalizeStateBytes SameState
  cases ha : parse a with
  | none =>
    cases hb : parse b with
    | none => simp [ha, hb]
    | some w =>
      refine iff_of_false ?_ (by simp [ha, hb])
      intro he
      have hs := h.rereads b w hb
      simp only at he
      rw [← he, ha] at hs
      cases hs
  | some v =>
    cases hb : parse b with
    | none =>
      refine iff_of_false ?_ (by simp [ha, hb])
      intro he
      have hs := h.rereads a v ha
      simp only at he
      rw [he, hb] at hs
      cases hs
    | some w =>
      simp only [(jsonBytes_injective h.numbers).eq_iff,
        sortKeys_eq_iff v w (h.distinct a v ha) (h.distinct b w hb)]
      simp [ha, hb]

theorem approvalBytes_eq_iff (h : ReadsJson numText parse) (p q : String)
    (a b : Option (List UInt8)) :
    approvalBytes numText parse p a = approvalBytes numText parse q b ↔
      contentHash p = contentHash q ∧ SameState parse a b := by
  have hsplit (m n : UInt64) (r s : List UInt8) :
      leBytes m ++ r = leBytes n ++ s ↔ m = n ∧ r = s := by
    constructor
    · intro he
      obtain ⟨hm, hr⟩ := List.append_inj he (by simp)
      exact ⟨leBytes_injective hm, hr⟩
    · rintro ⟨rfl, rfl⟩
      rfl
  rw [approvalBytes, approvalBytes, hsplit]
  refine and_congr_right (fun _ => ?_)
  cases a with
  | none => cases b <;> simp [SameState, taggedState]
  | some a =>
    cases b with
    | none => simp [SameState, taggedState]
    | some b =>
      rw [← canonicalizeStateBytes_eq_iff h]
      simp [taggedState, sliceBytes_injective.eq_iff]

end Hash

/-- An entry whose parts hold none of the separators written after them. -/
structure Separated (d : DriftDetail) : Prop where
  address : '\n' ∉ d.address.toList
  action : '\n' ∉ d.action.toList ∧ '|' ∉ d.action.toList
  attributes : ∀ t ∈ d.attributes,
    '\n' ∉ t.toList ∧ '|' ∉ t.toList ∧ ',' ∉ t.toList ∧ t ≠ ""

section Text

theorem mem_entry_attributes {d : DriftDetail} {t : String} :
    t ∈ d.entry.attributes ↔ t ∈ d.attributes :=
  (sortTexts_perm d.attributes).mem_iff

theorem toList_line (e : DriftEntry) : e.line.toList =
    (e.address.toList ++ '|' :: e.action.toList) ++
      '|' :: [','].intercalate (e.attributes.map String.toList) := by
  simp [DriftEntry.line]

theorem not_mem_attributes {d : DriftDetail} {c : Char} (hc : c ≠ ',')
    (h : ∀ t ∈ d.attributes, c ∉ t.toList) :
    c ∉ [','].intercalate (d.entry.attributes.map String.toList) := by
  intro hm
  rcases mem_intercalate hm with he | ⟨p, hp, hcp⟩
  · exact hc he
  · obtain ⟨t, ht, rfl⟩ := List.mem_map.mp hp
    exact h t (mem_entry_attributes.mp ht) hcp

theorem attributes_eq_of_intercalate_eq {d d' : DriftDetail} (h : Separated d) (h' : Separated d')
    (he : [','].intercalate (d.entry.attributes.map String.toList) =
      [','].intercalate (d'.entry.attributes.map String.toList)) :
    d.entry.attributes = d'.entry.attributes := by
  have hparts (d : DriftDetail) (h : Separated d) :
      ∀ p ∈ d.entry.attributes.map String.toList, ',' ∉ p ∧ p ≠ [] := by
    intro p hp
    obtain ⟨t, ht, rfl⟩ := List.mem_map.mp hp
    obtain ⟨-, -, hcomma, hne⟩ := h.attributes t (mem_entry_attributes.mp ht)
    exact ⟨hcomma, by simpa using hne⟩
  have hmap := intercalate_inj (hparts d h) (hparts d' h') he
  exact List.map_injective_iff.mpr (fun _ _ => String.toList_injective) hmap

/-- The line of a separated entry determines it. -/
theorem entry_eq_of_line_eq {d d' : DriftDetail} (h : Separated d) (h' : Separated d')
    (he : d.entry.line = d'.entry.line) : d.entry = d'.entry := by
  have hlist := congrArg String.toList he
  rw [toList_line, toList_line] at hlist
  obtain ⟨hfront, hattr⟩ := append_cons_inj_right
    (not_mem_attributes (by decide) (fun t ht => (h.attributes t ht).2.1))
    (not_mem_attributes (by decide) (fun t ht => (h'.attributes t ht).2.1)) hlist
  obtain ⟨haddr, haction⟩ := append_cons_inj_right h.action.2 h'.action.2 hfront
  have hattributes := attributes_eq_of_intercalate_eq h h' hattr
  rw [DriftEntry.mk.injEq]
  exact ⟨String.toList_injective haddr, String.toList_injective haction, hattributes⟩

theorem line_single {d : DriftDetail} (h : Separated d) :
    '\n' ∉ d.entry.line.toList ∧ d.entry.line.toList ≠ [] := by
  rw [toList_line]
  refine ⟨?_, by simp⟩
  have hattr := not_mem_attributes (d := d) (c := '\n') (by decide)
    (fun t ht => (h.attributes t ht).1)
  simp only [List.mem_append, List.mem_cons, not_or]
  exact ⟨⟨h.address, by decide, h.action.1⟩, by decide, hattr⟩

/-- The lines of a drift list, in the order of the text. -/
def driftLines (drifts : List DriftDetail) : List String :=
  sortTexts (drifts.map (fun d => d.entry.line))

theorem driftLines_eq_iff_perm (a b : List DriftDetail) :
    driftLines a = driftLines b ↔
      (a.map (fun d => d.entry.line)).Perm (b.map (fun d => d.entry.line)) := by
  unfold driftLines
  rw [sortTexts_eq_sort, sortTexts_eq_sort]
  constructor
  · intro h
    have hsort := congrArg Multiset.ofList h
    rw [Multiset.sort_eq, Multiset.sort_eq] at hsort
    exact Multiset.coe_eq_coe.mp hsort
  · intro h
    rw [Multiset.coe_eq_coe.mpr h]

/-- Reordering entries or attributes never changes the text. -/
theorem canonicalDriftFingerprint_eq_of_driftSet_eq {a b : List DriftDetail}
    (h : driftSet a = driftSet b) :
    canonicalDriftFingerprint a = canonicalDriftFingerprint b := by
  have hp := ((driftSet_eq_iff a b).mp h).map DriftEntry.line
  simp only [List.map_map] at hp
  exact congrArg "\n".intercalate ((driftLines_eq_iff_perm a b).mpr hp)

theorem driftLines_eq_of_text_eq {a b : List DriftDetail} (ha : ∀ d ∈ a, Separated d)
    (hb : ∀ d ∈ b, Separated d)
    (h : canonicalDriftFingerprint a = canonicalDriftFingerprint b) :
    driftLines a = driftLines b := by
  have hparts (ds : List DriftDetail) (hs : ∀ d ∈ ds, Separated d) :
      ∀ p ∈ (driftLines ds).map String.toList, '\n' ∉ p ∧ p ≠ [] := by
    intro p hp
    obtain ⟨t, ht, rfl⟩ := List.mem_map.mp hp
    obtain ⟨d, hd, rfl⟩ := List.mem_map.mp ((sortTexts_perm _).subset ht)
    exact line_single (hs d hd)
  have hlist := congrArg String.toList h
  unfold canonicalDriftFingerprint at hlist
  rw [String.toList_intercalate, String.toList_intercalate] at hlist
  have hmap := intercalate_inj (hparts a ha) (hparts b hb) hlist
  exact List.map_injective_iff.mpr (fun _ _ => String.toList_injective) hmap

/-- The text of separated entries is their drift set. -/
theorem canonicalDriftFingerprint_eq_iff {a b : List DriftDetail} (ha : ∀ d ∈ a, Separated d)
    (hb : ∀ d ∈ b, Separated d) :
    canonicalDriftFingerprint a = canonicalDriftFingerprint b ↔ driftSet a = driftSet b := by
  refine ⟨fun h => ?_, canonicalDriftFingerprint_eq_of_driftSet_eq⟩
  have hlines := (driftLines_eq_iff_perm a b).mp (driftLines_eq_of_text_eq ha hb h)
  rw [driftSet_eq_iff]
  have hentries : ((a.map DriftDetail.entry).map DriftEntry.line).Perm
      ((b.map DriftDetail.entry).map DriftEntry.line) := by
    simpa only [List.map_map, Function.comp_def] using hlines
  refine perm_of_perm_map DriftEntry.line (fun e he e' he' hline => ?_) hentries
  obtain ⟨d, hd, rfl⟩ := List.mem_map.mp he
  obtain ⟨d', hd', rfl⟩ := List.mem_map.mp he'
  exact entry_eq_of_line_eq (ha d hd) (hb d' hd') hline

end Text

section Identifies

variable {ν : Type} (numText : ν → List Char) (parse : List UInt8 → Option (Json ν))

def approvalHash (drifts : List DriftDetail) (state : Option (List UInt8)) : String :=
  planApprovalHash numText parse (canonicalDriftFingerprint drifts) state

/-- What is hashed for a plan and its state. -/
def approvalHashed (drifts : List DriftDetail) (state : Option (List UInt8)) :
    Set (List UInt8) :=
  {textBytes (canonicalDriftFingerprint drifts),
    approvalBytes numText parse (canonicalDriftFingerprint drifts) state}

/-- The hash is the same exactly for the same plan against the same state. -/
def Identifies (drifts drifts' : List DriftDetail) (state state' : Option (List UInt8)) : Prop :=
  approvalHash numText parse drifts state = approvalHash numText parse drifts' state' ↔
    driftSet drifts = driftSet drifts' ∧ SameState parse state state'

variable {numText parse}

theorem approvalHash_eq_iff (serde : ReadsJson numText parse) {drifts drifts' : List DriftDetail}
    {state state' : Option (List UInt8)}
    (hash : Set.InjOn sipHash
      (approvalHashed numText parse drifts state ∪ approvalHashed numText parse drifts' state')) :
    approvalHash numText parse drifts state = approvalHash numText parse drifts' state' ↔
      canonicalDriftFingerprint drifts = canonicalDriftFingerprint drifts' ∧
        SameState parse state state' := by
  have hcontent : contentHash (canonicalDriftFingerprint drifts) =
      contentHash (canonicalDriftFingerprint drifts') ↔
        canonicalDriftFingerprint drifts = canonicalDriftFingerprint drifts' := by
    refine ⟨fun h => textBytes_injective (hash ?_ ?_ h), fun h => congrArg _ h⟩
    · exact .inl (.inl rfl)
    · exact .inr (.inl rfl)
  rw [← hcontent, ← approvalBytes_eq_iff serde, approvalHash, approvalHash, planApprovalHash,
    planApprovalHash, hex16_injective.eq_iff]
  refine ⟨fun h => hash ?_ ?_ h, fun h => congrArg _ h⟩
  · exact .inl (.inr rfl)
  · exact .inr (.inr rfl)

/-- Separated entries are identified by their approval hash, together with the state. -/
theorem approval_hash_identifies_plan (serde : ReadsJson numText parse)
    (drifts drifts' : List DriftDetail) (state state' : Option (List UInt8))
    (hash : Set.InjOn sipHash
      (approvalHashed numText parse drifts state ∪ approvalHashed numText parse drifts' state'))
    (h : ∀ d ∈ drifts, Separated d) (h' : ∀ d ∈ drifts', Separated d) :
    Identifies numText parse drifts drifts' state state' := by
  rw [Identifies, approvalHash_eq_iff serde hash, canonicalDriftFingerprint_eq_iff h h']

end Identifies

/-- No numbers are read. -/
def noNumber : Empty → List Char := Empty.elim

theorem numberText_noNumber : NumberText noNumber :=
  ⟨fun a => a.elim, fun a => a.elim, fun a => a.elim⟩

/-- A reader that knows the empty object. -/
def readEmptyObject (bytes : List UInt8) : Option (Json Empty) :=
  if bytes = utf8 "\x7b\x7d" then some (.obj []) else none

theorem readsJson_emptyObject : ReadsJson noNumber readEmptyObject := by
  have hvalue (bytes : List UInt8) (v : Json Empty) (h : readEmptyObject bytes = some v) :
      v = .obj [] := by
    unfold readEmptyObject at h
    split at h
    · exact (Option.some.inj h).symm
    · cases h
  refine ⟨numberText_noNumber, ?_, ?_⟩
  · intro bytes v h
    rw [hvalue bytes v h]
    exact .obj (by simp) (by simp)
  · intro bytes v h
    rw [hvalue bytes v h]
    decide

def webUpdate : DriftDetail := ⟨"aws_instance.web", "update", "low", ["ami", "tags"], none, none⟩
def logDelete : DriftDetail := ⟨"aws_s3_bucket.log", "delete", "medium", [], none, none⟩

theorem separated_webUpdate : Separated webUpdate := ⟨by decide, by decide, by decide⟩
theorem separated_logDelete : Separated logDelete := ⟨by decide, by decide, by decide⟩

/-- A plan in another order, against the same state, keeps its approval. -/
theorem reordered_plan_identified :
    Identifies noNumber readEmptyObject [webUpdate, logDelete] [logDelete, webUpdate]
      (some (utf8 "\x7b\x7d")) (some (utf8 "\x7b\x7d")) := by
  have htext : canonicalDriftFingerprint [logDelete, webUpdate] =
      canonicalDriftFingerprint [webUpdate, logDelete] := by decide
  refine approval_hash_identifies_plan readsJson_emptyObject _ _ _ _ ?_ ?_ ?_
  · rw [approvalHashed, approvalHashed, htext, Set.union_self, Set.injOn_pair]
    intro h
    exact absurd h (by decide +kernel)
  · simp [separated_webUpdate, separated_logDelete]
  · simp [separated_webUpdate, separated_logDelete]

/-- An update of one attribute whose name has a comma, and one of two attributes. -/
def commaUpdate : DriftDetail := ⟨"aws_instance.web", "update", "low", ["ami,tags"], none, none⟩

/-- The approval of one is good for the other. -/
theorem comma_plans_share_approval :
    ¬(ReadsJson noNumber readEmptyObject →
      Set.InjOn sipHash (approvalHashed noNumber readEmptyObject [commaUpdate] none ∪
        approvalHashed noNumber readEmptyObject [webUpdate] none) →
      Identifies noNumber readEmptyObject [commaUpdate] [webUpdate] none none) := by
  have htext : canonicalDriftFingerprint [commaUpdate] = canonicalDriftFingerprint [webUpdate] := by
    decide
  intro h
  have hash : Set.InjOn sipHash (approvalHashed noNumber readEmptyObject [commaUpdate] none ∪
      approvalHashed noNumber readEmptyObject [webUpdate] none) := by
    rw [approvalHashed, approvalHashed, htext, Set.union_self, Set.injOn_pair]
    intro h
    exact absurd h (by decide +kernel)
  have hset : driftSet [commaUpdate] = driftSet [webUpdate] := by
    refine ((h readsJson_emptyObject hash).mp ?_).1
    rw [approvalHash, approvalHash, htext]
  exact absurd hset (by decide)

end PangeaOperator
