import PangeaOperator.Crd
import PangeaOperator.Lib.SipHash

/-!
# State settling

`controller/settling.rs`: the fingerprint of a drift list and the verdict of one drift
check. The fingerprint hashes the texts of the entries one after the other, entries
sorted by address alone; `DriftKey` is what it is meant to identify.
-/

namespace PangeaOperator

open SipHash

inductive SettlingExhaustionAction where
  | fail
  | alert
  | continue
  deriving DecidableEq, Repr

structure SettlingPolicy where
  maxConsecutiveDriftCycles : Nat := 5
  onExhaustion : SettlingExhaustionAction := .fail
  deriving DecidableEq, Repr

inductive SettlingOutcome where
  | settled
  | progressing (cycles : Nat)
  | stuckByFingerprint (cycles : Nat) (fingerprint : String) (stuckAddresses : List String)
  | stuckByCount (cycles : Nat) (stuckAddresses : List String)
  deriving DecidableEq, Repr

namespace SettlingOutcome

def cycleCount : SettlingOutcome → Nat
  | settled => 0
  | progressing cycles => cycles
  | stuckByFingerprint cycles _ _ => cycles
  | stuckByCount cycles _ => cycles

def stuckAddresses : SettlingOutcome → List String
  | stuckByFingerprint _ _ addresses => addresses
  | stuckByCount _ addresses => addresses
  | _ => []

def IsStuckByFingerprint : SettlingOutcome → Prop
  | stuckByFingerprint _ _ _ => True
  | _ => False

end SettlingOutcome

inductive SettlingAction where
  | acceptSettled
  | keepTrying
  | alertButContinue
  | escalateToFailed
  deriving DecidableEq, Repr

/-- `Vec<String>::sort`. -/
def sortTexts (ts : List String) : List String := ts.insertionSort (· ≤ ·)

/-- Address, action and sorted attribute names of an entry. -/
structure DriftEntry where
  address : String
  action : String
  attributes : List String
  deriving DecidableEq, Repr

def DriftDetail.entry (d : DriftDetail) : DriftEntry :=
  ⟨d.address, d.action, sortTexts d.attributes⟩

/-- The stable sort by address. -/
def sortByAddress (es : List DriftEntry) : List DriftEntry :=
  es.insertionSort (fun a b => a.address ≤ b.address)

def DriftEntry.texts (e : DriftEntry) : List String := e.address :: e.action :: e.attributes

/-- The texts in the order they are hashed. -/
def fingerprintTexts (drifts : List DriftDetail) : List String :=
  (sortByAddress (drifts.map DriftDetail.entry)).flatMap DriftEntry.texts

def fingerprintBytes (drifts : List DriftDetail) : List UInt8 :=
  (fingerprintTexts drifts).flatMap textBytes

def fingerprint (drifts : List DriftDetail) : String := hex16 (sipHash (fingerprintBytes drifts))

def evaluateSettling (policy : SettlingPolicy) (priorCycles : Nat)
    (priorFingerprint : Option String) (currentDrifts : List DriftDetail) : SettlingOutcome :=
  if currentDrifts.isEmpty then .settled
  else
    let cycles := saturatingSucc priorCycles
    let currentFp := fingerprint currentDrifts
    let stuck := (currentDrifts.take 20).map DriftDetail.address
    if priorFingerprint = some currentFp then .stuckByFingerprint cycles currentFp stuck
    else if policy.maxConsecutiveDriftCycles ≤ cycles then .stuckByCount cycles stuck
    else .progressing cycles

def actionFor (outcome : SettlingOutcome) (policy : SettlingPolicy) : SettlingAction :=
  match outcome with
  | .settled => .acceptSettled
  | .progressing _ => .keepTrying
  | .stuckByFingerprint _ _ _ | .stuckByCount _ _ =>
    match policy.onExhaustion with
    | .fail => .escalateToFailed
    | .alert => .alertButContinue
    | .continue => .keepTrying

theorem evaluateSettling_eq_settled_iff (policy : SettlingPolicy) (priorCycles : Nat)
    (priorFingerprint : Option String) (drifts : List DriftDetail) :
    evaluateSettling policy priorCycles priorFingerprint drifts = .settled ↔ drifts = [] := by
  unfold evaluateSettling
  dsimp only
  split
  · next h => simpa using h
  · next h =>
    have hne : drifts ≠ [] := by simpa using h
    refine iff_of_false ?_ hne
    split
    · simp
    · split <;> simp

/-- A check with drift is stuck by fingerprint exactly when the fingerprints agree. -/
theorem isStuckByFingerprint_iff (policy : SettlingPolicy) (priorCycles : Nat)
    (priorFingerprint : Option String) {drifts : List DriftDetail} (h : drifts ≠ []) :
    (evaluateSettling policy priorCycles priorFingerprint drifts).IsStuckByFingerprint ↔
      priorFingerprint = some (fingerprint drifts) := by
  unfold evaluateSettling
  dsimp only
  rw [if_neg (by simpa using h)]
  split
  · next hp => exact iff_of_true trivial hp
  · next hp =>
    refine iff_of_false ?_ hp
    split <;> exact id

theorem fingerprint_eq_iff {a b : List DriftDetail}
    (hash : Set.InjOn sipHash {fingerprintBytes a, fingerprintBytes b}) :
    fingerprint a = fingerprint b ↔ fingerprintTexts a = fingerprintTexts b := by
  constructor
  · intro h
    have hbytes : fingerprintBytes a = fingerprintBytes b :=
      hash (by simp) (by simp) (hex16_injective h)
    exact flatMap_textBytes_injective hbytes
  · intro h
    simp only [fingerprint, fingerprintBytes, h]

/-- What a drift list is up to order: address, action and attributes of every entry. -/
def driftSet (drifts : List DriftDetail) : Multiset (String × String × Multiset String) :=
  Multiset.ofList (drifts.map (fun d => (d.address, d.action, Multiset.ofList d.attributes)))

theorem sortTexts_perm (ts : List String) : (sortTexts ts).Perm ts := List.perm_insertionSort _ ts

theorem sortTexts_eq_sort (ts : List String) :
    sortTexts ts = (Multiset.ofList ts).sort (· ≤ ·) := by
  refine List.Perm.eq_of_pairwise (fun a b _ _ => le_antisymm)
    (List.pairwise_insertionSort _ ts) (Multiset.pairwise_sort _ _) ?_
  exact (sortTexts_perm ts).trans (Multiset.coe_eq_coe.mp (Multiset.sort_eq _ _).symm)

/-- Equal as sets of entries, however the two lists are ordered. -/
theorem driftSet_eq_iff (a b : List DriftDetail) :
    driftSet a = driftSet b ↔ (a.map DriftDetail.entry).Perm (b.map DriftDetail.entry) := by
  have entry_key (ds : List DriftDetail) : ds.map DriftDetail.entry =
      (ds.map (fun d => (d.address, d.action, Multiset.ofList d.attributes))).map
        (fun k => (⟨k.1, k.2.1, k.2.2.sort (· ≤ ·)⟩ : DriftEntry)) := by
    simp [DriftDetail.entry, sortTexts_eq_sort]
  have key_entry (ds : List DriftDetail) :
      ds.map (fun d => (d.address, d.action, Multiset.ofList d.attributes)) =
        (ds.map DriftDetail.entry).map
          (fun e => (e.address, e.action, Multiset.ofList e.attributes)) := by
    simp only [List.map_map]
    refine List.map_congr_left (fun d _ => ?_)
    simp [DriftDetail.entry, Multiset.coe_eq_coe.mpr (sortTexts_perm d.attributes)]
  constructor
  · intro h
    rw [entry_key a, entry_key b]
    exact (Multiset.coe_eq_coe.mp h).map _
  · intro h
    refine Multiset.coe_eq_coe.mpr ?_
    rw [key_entry a, key_entry b]
    exact h.map _

/-- Entries of two lists that the hashed texts keep apart: no address twice in the first, and no
attribute named like an address of either. -/
structure Apart (a b : List DriftDetail) : Prop where
  addresses : (a.map DriftDetail.address).Nodup
  attributes : ∀ d ∈ a ++ b, ∀ t ∈ d.attributes, t ∉ (a ++ b).map DriftDetail.address

section Texts

variable {A : String → Prop}

theorem attributes_append_inj {xs ys : List String} {es fs : List DriftEntry}
    (hx : ∀ t ∈ xs, ¬A t) (hy : ∀ t ∈ ys, ¬A t) (he : ∀ e ∈ es, A e.address)
    (hf : ∀ e ∈ fs, A e.address)
    (h : xs ++ es.flatMap DriftEntry.texts = ys ++ fs.flatMap DriftEntry.texts) :
    xs = ys ∧ es.flatMap DriftEntry.texts = fs.flatMap DriftEntry.texts := by
  induction xs generalizing ys with
  | nil =>
    cases ys with
    | nil => exact ⟨rfl, h⟩
    | cons y ys =>
      cases es with
      | nil => simp at h
      | cons e es =>
        have hay : e.address = y := (List.cons.inj h).1
        exact absurd (hay ▸ he e List.mem_cons_self) (hy y List.mem_cons_self)
  | cons x xs ih =>
    cases ys with
    | nil =>
      cases fs with
      | nil => simp at h
      | cons f fs =>
        have hax : x = f.address := (List.cons.inj h).1
        exact absurd (hax ▸ hf f List.mem_cons_self) (hx x List.mem_cons_self)
    | cons y ys =>
      obtain ⟨rfl, ht⟩ := List.cons.inj h
      obtain ⟨rfl, hr⟩ := ih (fun t h => hx t (List.mem_cons_of_mem _ h))
        (fun t h => hy t (List.mem_cons_of_mem _ h)) ht
      exact ⟨rfl, hr⟩

/-- The texts tell the entries apart when no attribute is one of the addresses. -/
theorem flatMap_texts_inj {es fs : List DriftEntry} (he : ∀ e ∈ es, A e.address)
    (hf : ∀ e ∈ fs, A e.address) (hea : ∀ e ∈ es, ∀ t ∈ e.attributes, ¬A t)
    (hfa : ∀ e ∈ fs, ∀ t ∈ e.attributes, ¬A t)
    (h : es.flatMap DriftEntry.texts = fs.flatMap DriftEntry.texts) : es = fs := by
  induction es generalizing fs with
  | nil =>
    cases fs with
    | nil => rfl
    | cons f fs => simp [DriftEntry.texts] at h
  | cons e es ih =>
    cases fs with
    | nil => simp [DriftEntry.texts] at h
    | cons f fs =>
      simp only [List.flatMap_cons, DriftEntry.texts, List.cons_append, List.cons.injEq] at h
      obtain ⟨haddr, haction, hrest⟩ := h
      obtain ⟨hattr, htail⟩ := attributes_append_inj (hea e List.mem_cons_self)
        (hfa f List.mem_cons_self) (fun x h => he x (List.mem_cons_of_mem _ h))
        (fun x h => hf x (List.mem_cons_of_mem _ h)) hrest
      have hef : e = f := by
        cases e
        cases f
        simp_all
      rw [hef, ih (fun x h => he x (List.mem_cons_of_mem _ h))
        (fun x h => hf x (List.mem_cons_of_mem _ h))
        (fun x h => hea x (List.mem_cons_of_mem _ h))
        (fun x h => hfa x (List.mem_cons_of_mem _ h)) htail]

end Texts

theorem sortByAddress_perm (es : List DriftEntry) : (sortByAddress es).Perm es :=
  List.perm_insertionSort _ es

theorem sortByAddress_pairwise (es : List DriftEntry) :
    (sortByAddress es).Pairwise (fun a b => a.address ≤ b.address) := by
  have : Std.Total (fun a b : DriftEntry => a.address ≤ b.address) :=
    ⟨fun a b => le_total a.address b.address⟩
  have : IsTrans DriftEntry (fun a b => a.address ≤ b.address) :=
    ⟨fun a b c => le_trans⟩
  exact List.pairwise_insertionSort _ es

/-- Sorting by address forgets the order only where no address occurs twice. -/
theorem sortByAddress_eq_of_perm {es fs : List DriftEntry} (hp : es.Perm fs)
    (hn : (es.map DriftEntry.address).Nodup) : sortByAddress es = sortByAddress fs := by
  refine List.Perm.eq_of_pairwise (fun a b ha hb hab hba => ?_) (sortByAddress_pairwise es)
    (sortByAddress_pairwise fs)
    (((sortByAddress_perm es).trans hp).trans (sortByAddress_perm fs).symm)
  have ha' : a ∈ es := (sortByAddress_perm es).subset ha
  have hb' : b ∈ es := hp.symm.subset ((sortByAddress_perm fs).subset hb)
  exact List.inj_on_of_nodup_map hn ha' hb' (le_antisymm hab hba)

theorem mem_sortByAddress_entry {ds : List DriftDetail} {e : DriftEntry}
    (h : e ∈ sortByAddress (ds.map DriftDetail.entry)) : ∃ d ∈ ds, d.entry = e :=
  List.mem_map.mp ((sortByAddress_perm _).subset h)

/-- Where entries stay apart, the hashed texts are the drift set. -/
theorem fingerprintTexts_eq_iff {a b : List DriftDetail} (h : Apart a b) :
    fingerprintTexts a = fingerprintTexts b ↔ driftSet a = driftSet b := by
  rw [driftSet_eq_iff]
  constructor
  · intro ht
    have hsorted : sortByAddress (a.map DriftDetail.entry) =
        sortByAddress (b.map DriftDetail.entry) := by
      refine flatMap_texts_inj (A := fun t => t ∈ (a ++ b).map DriftDetail.address)
        ?_ ?_ ?_ ?_ ht
      · intro e he
        obtain ⟨d, hd, rfl⟩ := mem_sortByAddress_entry he
        exact List.mem_map.mpr ⟨d, List.mem_append_left b hd, rfl⟩
      · intro e he
        obtain ⟨d, hd, rfl⟩ := mem_sortByAddress_entry he
        exact List.mem_map.mpr ⟨d, List.mem_append_right a hd, rfl⟩
      · intro e he t ht
        obtain ⟨d, hd, rfl⟩ := mem_sortByAddress_entry he
        exact h.attributes d (List.mem_append_left b hd) t ((sortTexts_perm _).subset ht)
      · intro e he t ht
        obtain ⟨d, hd, rfl⟩ := mem_sortByAddress_entry he
        exact h.attributes d (List.mem_append_right a hd) t ((sortTexts_perm _).subset ht)
    exact ((sortByAddress_perm _).symm.trans (hsorted ▸ sortByAddress_perm _))
  · intro hp
    have hn : ((a.map DriftDetail.entry).map DriftEntry.address).Nodup := by
      rw [List.map_map]
      exact h.addresses
    unfold fingerprintTexts
    rw [sortByAddress_eq_of_perm hp hn]

end PangeaOperator
