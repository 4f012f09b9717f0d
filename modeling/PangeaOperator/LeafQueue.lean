import Mathlib
import PangeaOperator.Lib.Run

/-!
# The in-process leaf queue

`leaf_queue.rs`. One queue behind a mutex, with the claims that its pulls have handed out. A
claim addresses its message by sequence number alone and may outlive the delivery it came with.
Instants and durations are numbers of nanoseconds.
-/

namespace PangeaOperator.LeafQueue

inductive LeafAction where
  | plan | apply | drift | import
  deriving DecidableEq, Repr

def LeafAction.asStr : LeafAction → String
  | .plan => "plan"
  | .apply => "apply"
  | .drift => "drift"
  | .import => "import"

structure LeafWork where
  leaf : String
  credential : String
  action : LeafAction
  digest : String
  cost : UInt64
  deriving DecidableEq, Repr

def LeafWork.msgId (w : LeafWork) : String := ":".intercalate [w.leaf, w.action.asStr, w.digest]

/-- The part of `LeafConfig` that the settings of a queue come from. -/
structure LeafConfig where
  perCredentialCap : Nat
  ackWaitSecs : Nat
  maxDeliver : Nat
  duplicateWindowSecs : Nat
  deriving DecidableEq, Repr

structure QueueSettings where
  ackWait : Nat
  maxDeliver : Nat
  duplicateWindow : Nat
  maxAckPending : Nat
  deriving DecidableEq, Repr

def fromSecs (s : Nat) : Nat := s * 1000000000

def usizeMax : Nat := 2 ^ 64 - 1

def QueueSettings.fromConfig (cfg : LeafConfig) : QueueSettings where
  ackWait := fromSecs (max cfg.ackWaitSecs 1)
  maxDeliver := max cfg.maxDeliver 1
  duplicateWindow := fromSecs (max cfg.duplicateWindowSecs 1)
  maxAckPending := if cfg.perCredentialCap = 0 then usizeMax else cfg.perCredentialCap

theorem QueueSettings.fromConfig_maxDeliver_pos (cfg : LeafConfig) :
    0 < (fromConfig cfg).maxDeliver := Nat.le_max_right cfg.maxDeliver 1

inductive Published where
  | queued
  | duplicate
  deriving DecidableEq, Repr

structure Entry where
  seq : Nat
  work : LeafWork
  delivered : Nat
  deriving DecidableEq, Repr

structure Inflight where
  entry : Entry
  deadline : Nat
  deriving DecidableEq, Repr

/-- What a pull hands out; the sequence number is all that its methods address the queue with. -/
structure Claim where
  seq : Nat
  work : LeafWork
  delivered : Nat
  deriving DecidableEq, Repr

/-- `inflight` is the map by sequence number, in the order of its keys. `next` is a `u64`, which
it takes 2^64 - 1 publishes to fill; it counts on here. -/
structure State where
  settings : QueueSettings
  seen : List (String × Nat)
  ready : List Entry
  inflight : List Inflight
  dead : List LeafWork
  next : Nat
  deriving DecidableEq, Repr

section Inflight

def remove (l : List Inflight) (seq : Nat) : List Inflight := l.filter (·.entry.seq ≠ seq)

def lookup (l : List Inflight) (seq : Nat) : Option Inflight := l.find? (·.entry.seq = seq)

/-- `BTreeMap::insert`. -/
def insert (l : List Inflight) (f : Inflight) : List Inflight :=
  l.filter (·.entry.seq < f.entry.seq) ++ f :: l.filter (f.entry.seq < ·.entry.seq)

/-- `get_mut`, with a new deadline for the entry found. -/
def extend (l : List Inflight) (seq deadline : Nat) : List Inflight :=
  l.map (fun f => if f.entry.seq = seq then { f with deadline := deadline } else f)

variable (l : List Inflight) (seq deadline : Nat)

@[simp] theorem lookup_nil : lookup [] seq = none := rfl

@[simp] theorem map_entry_extend :
    (extend l seq deadline).map Inflight.entry = l.map Inflight.entry := by
  rw [extend, List.map_map]
  apply List.map_congr_left
  intro f _
  simp only [Function.comp_apply]
  split <;> rfl

theorem mem_remove_iff (f : Inflight) : f ∈ remove l seq ↔ f ∈ l ∧ f.entry.seq ≠ seq := by
  simp [remove]

theorem mem_of_lookup {l : List Inflight} {seq : Nat} {f : Inflight}
    (h : lookup l seq = some f) : f ∈ l ∧ f.entry.seq = seq :=
  ⟨List.mem_of_find?_eq_some h, by simpa using List.find?_some h⟩

theorem lookup_eq_none_iff : lookup l seq = none ↔ ∀ f ∈ l, f.entry.seq ≠ seq := by
  simp [lookup]

theorem remove_of_lookup_none {l : List Inflight} {seq : Nat} (h : lookup l seq = none) :
    remove l seq = l := by
  rw [remove, List.filter_eq_self]
  intro f hf
  rw [decide_eq_true_eq]
  exact (lookup_eq_none_iff l seq).mp h f hf

/-- Where the key is new, nothing is lost. -/
theorem insert_perm {l : List Inflight} {f : Inflight} (h : ∀ g ∈ l, g.entry.seq ≠ f.entry.seq) :
    (insert l f).Perm (f :: l) := by
  have hrest : l.filter (fun g => decide (f.entry.seq < g.entry.seq)) =
      l.filter (fun g => !decide (g.entry.seq < f.entry.seq)) := by
    apply List.filter_congr
    intro g hg
    have := h g hg
    simp only [← decide_not, decide_eq_decide]
    omega
  rw [insert, hrest]
  exact List.perm_middle.trans ((List.filter_append_perm _ l).cons f)

/-- Taking the entry of a key out leaves the others, once each. -/
theorem lookup_cons_remove_perm {l : List Inflight} {seq : Nat} {f : Inflight}
    (hl : (l.map (·.entry.seq)).Nodup) (h : lookup l seq = some f) :
    l.Perm (f :: remove l seq) := by
  obtain ⟨hf, hseq⟩ := mem_of_lookup h
  have hsame : l.filter (fun g => decide (g.entry.seq = seq)) = [f] := by
    apply List.perm_singleton.mp
    refine (List.perm_ext_iff_of_nodup ?_ (List.nodup_singleton f)).mpr (fun g => ?_)
    · exact (List.Nodup.of_map _ hl).filter _
    · rw [List.mem_filter, List.mem_singleton, decide_eq_true_eq]
      constructor
      · rintro ⟨hg, hgs⟩
        exact List.inj_on_of_nodup_map hl hg hf (hgs.trans hseq.symm)
      · rintro rfl
        exact ⟨hf, hseq⟩
  have hsplit := List.filter_append_perm (fun g : Inflight => decide (g.entry.seq = seq)) l
  rw [hsame] at hsplit
  refine hsplit.symm.trans ?_
  simp [remove]

end Inflight

namespace State

def new (settings : QueueSettings) : State := ⟨settings, [], [], [], [], 1⟩

/-- The deliveries whose deadline has passed, in the order of the map. -/
def due (s : State) (now : Nat) : List Inflight := s.inflight.filter (·.deadline ≤ now)

/-- One turn of the loop over the due deliveries. -/
def expireOne (s : State) (f : Inflight) : State :=
  match lookup s.inflight f.entry.seq with
  | none => s
  | some g =>
    let s := { s with inflight := remove s.inflight f.entry.seq }
    if s.settings.maxDeliver ≤ g.entry.delivered then { s with dead := s.dead ++ [g.entry.work] }
    else { s with ready := s.ready ++ [g.entry] }

def expire (s : State) (now : Nat) : State :=
  (s.due now).foldl expireOne
    { s with seen := s.seen.filter (fun e => now - e.2 < s.settings.duplicateWindow) }

def publish (s : State) (work : LeafWork) (now : Nat) : Published × State :=
  let s := s.expire now
  let id := work.msgId
  if id ∈ s.seen.map Prod.fst then (.duplicate, s)
  else (.queued,
    { s with
      seen := s.seen ++ [(id, now)]
      next := s.next + 1
      ready := s.ready ++ [⟨s.next, work, 0⟩] })

def held (s : State) (credential : String) : Nat :=
  s.inflight.countP (·.entry.work.credential = credential)

/-- The loop of `pull` over `ready`, from a number of claims handed out: the claims, the entries
kept and the deliveries. -/
def handOut (credential : String) (room deadline : Nat) :
    List Entry → Nat → List Inflight → List Claim × List Entry × List Inflight
  | [], _, inflight => ([], [], inflight)
  | e :: es, n, inflight =>
    if n < room ∧ e.work.credential = credential then
      let e := { e with delivered := e.delivered + 1 }
      let rest := handOut credential room deadline es (n + 1) (insert inflight ⟨e, deadline⟩)
      (⟨e.seq, e.work, e.delivered⟩ :: rest.1, rest.2)
    else
      let rest := handOut credential room deadline es n inflight
      (rest.1, e :: rest.2.1, rest.2.2)

def pull (s : State) (credential : String) (max now : Nat) : List Claim × State :=
  let s := s.expire now
  let room := min (s.settings.maxAckPending - s.held credential) max
  let out := handOut credential room (now + s.settings.ackWait) s.ready 0 s.inflight
  (out.1, { s with ready := out.2.1, inflight := out.2.2 })

def exhausted (s : State) (now : Nat) : List LeafWork × State :=
  let s := s.expire now
  (s.dead, { s with dead := [] })

end State

namespace Claim

def progress (c : Claim) (s : State) (now : Nat) : State :=
  { s with inflight := extend s.inflight c.seq (now + s.settings.ackWait) }

def ack (c : Claim) (s : State) : State := { s with inflight := remove s.inflight c.seq }

def nak (c : Claim) (s : State) : State :=
  match lookup s.inflight c.seq with
  | none => s
  | some f =>
    { s with inflight := remove s.inflight c.seq, ready := s.ready ++ [f.entry] }

end Claim

section Expiry

variable {s : State} {now : Nat}

/-- Due deliveries that were the last allowed ones, and the others. -/
def State.spent (s : State) (now : Nat) : List Entry :=
  ((s.due now).map Inflight.entry).filter (s.settings.maxDeliver ≤ ·.delivered)

def State.revived (s : State) (now : Nat) : List Entry :=
  ((s.due now).map Inflight.entry).filter (·.delivered < s.settings.maxDeliver)

theorem expireOne_of_mem (hn : (s.inflight.map (·.entry.seq)).Nodup) {f : Inflight}
    (hf : f ∈ s.inflight) : s.expireOne f =
      if s.settings.maxDeliver ≤ f.entry.delivered then
        { s with inflight := remove s.inflight f.entry.seq, dead := s.dead ++ [f.entry.work] }
      else { s with inflight := remove s.inflight f.entry.seq, ready := s.ready ++ [f.entry] } := by
  have hfound : lookup s.inflight f.entry.seq = some f := by
    cases h : lookup s.inflight f.entry.seq with
    | none => exact absurd rfl ((lookup_eq_none_iff _ _).mp h f hf)
    | some g =>
      obtain ⟨hg, hseq⟩ := mem_of_lookup h
      rw [List.inj_on_of_nodup_map hn hg hf hseq]
  simp only [State.expireOne, hfound]

/-- The loop over any deliveries in flight: each goes where its count sends it. -/
theorem foldl_expireOne (ds : List Inflight) (s : State)
    (hn : (s.inflight.map (·.entry.seq)).Nodup) (hds : ∀ f ∈ ds, f ∈ s.inflight)
    (hd : (ds.map (·.entry.seq)).Nodup) : ds.foldl State.expireOne s =
      { s with
        inflight := s.inflight.filter (fun f => f.entry.seq ∉ ds.map (·.entry.seq))
        ready := s.ready ++ (ds.map Inflight.entry).filter (·.delivered < s.settings.maxDeliver)
        dead := s.dead ++
          ((ds.map Inflight.entry).filter
            (s.settings.maxDeliver ≤ ·.delivered)).map Entry.work } := by
  induction ds generalizing s with
  | nil => simp
  | cons f ds ih =>
    rw [List.map_cons, List.nodup_cons] at hd
    have hf := hds f List.mem_cons_self
    have hrest : ∀ g ∈ ds, g ∈ remove s.inflight f.entry.seq := by
      intro g hg
      refine (mem_remove_iff _ _ g).mpr ⟨hds g (List.mem_cons_of_mem f hg), fun h => hd.1 ?_⟩
      exact h ▸ List.mem_map_of_mem hg
    have hkept : ((remove s.inflight f.entry.seq).map (·.entry.seq)).Nodup :=
      hn.sublist (List.filter_sublist.map _)
    have hfilter : (remove s.inflight f.entry.seq).filter
        (fun g => g.entry.seq ∉ ds.map (·.entry.seq)) =
          s.inflight.filter (fun g => g.entry.seq ∉ (f :: ds).map (·.entry.seq)) := by
      rw [remove, List.filter_filter]
      apply List.filter_congr
      intro g _
      rw [Bool.eq_iff_iff, Bool.and_eq_true, decide_eq_true_eq, decide_eq_true_eq,
        decide_eq_true_eq, List.map_cons, List.mem_cons, not_or, and_comm]
    rw [List.foldl_cons, expireOne_of_mem hn hf]
    by_cases hlast : s.settings.maxDeliver ≤ f.entry.delivered
    · have hnot : ¬ f.entry.delivered < s.settings.maxDeliver := by omega
      rw [if_pos hlast, ih _ hkept hrest hd.2]
      simp only [hfilter, List.map_cons, List.filter_cons, hlast, hnot, decide_true, decide_false,
        if_true, List.map_cons, List.append_assoc, List.singleton_append, Bool.false_eq_true,
        if_false]
    · have hless : f.entry.delivered < s.settings.maxDeliver := by omega
      rw [if_neg hlast, ih _ hkept hrest hd.2]
      simp only [hfilter, List.map_cons, List.filter_cons, hlast, hless, decide_true, decide_false,
        if_true, List.append_assoc, List.singleton_append, Bool.false_eq_true, if_false]

/-- What expiry does, where no two deliveries share a sequence number. -/
theorem expire_eq (hn : (s.inflight.map (·.entry.seq)).Nodup) (now : Nat) : s.expire now =
    { s with
      seen := s.seen.filter (fun e => now - e.2 < s.settings.duplicateWindow)
      inflight := s.inflight.filter (now < ·.deadline)
      ready := s.ready ++ s.revived now
      dead := s.dead ++ (s.spent now).map Entry.work } := by
  have hsub : (s.due now).Sublist s.inflight := List.filter_sublist
  have hkept : s.inflight.filter (fun f => f.entry.seq ∉ (s.due now).map (·.entry.seq)) =
      s.inflight.filter (now < ·.deadline) := by
    apply List.filter_congr
    intro f hf
    rw [decide_eq_decide]
    constructor
    · intro h
      by_contra hdue
      refine h (List.mem_map_of_mem (List.mem_filter.mpr ⟨hf, ?_⟩))
      rw [decide_eq_true_eq]
      omega
    · intro hlive hmem
      obtain ⟨g, hg, hseq⟩ := List.mem_map.mp hmem
      obtain ⟨hgl, hgd⟩ := List.mem_filter.mp hg
      rw [List.inj_on_of_nodup_map hn hgl hf hseq, decide_eq_true_eq] at hgd
      omega
  have hloop (seen : List (String × Nat)) := foldl_expireOne (s.due now) { s with seen := seen } hn
    (fun f hf => hsub.subset hf) (hn.sublist (hsub.map _))
  rw [State.expire, hloop]
  simp only [hkept, State.revived, State.spent]

/-- Expiry loses no entry. -/
theorem expire_perm (s : State) (now : Nat) :
    ((s.inflight.filter (now < ·.deadline)).map Inflight.entry ++
      (s.revived now ++ s.spent now)).Perm (s.inflight.map Inflight.entry) := by
  have hdue : (s.revived now ++ s.spent now).Perm ((s.due now).map Inflight.entry) := by
    have h := List.filter_append_perm
      (fun e : Entry => decide (e.delivered < s.settings.maxDeliver))
      ((s.due now).map Inflight.entry)
    have hneg : (fun e : Entry => !decide (e.delivered < s.settings.maxDeliver)) =
        fun e : Entry => decide (s.settings.maxDeliver ≤ e.delivered) := by
      funext e
      rw [← decide_not, decide_eq_decide]
      omega
    rwa [hneg] at h
  have hlive := List.filter_append_perm (fun f : Inflight => decide (now < f.deadline)) s.inflight
  have hneg : (fun f : Inflight => !decide (now < f.deadline)) =
      fun f : Inflight => decide (f.deadline ≤ now) := by
    funext f
    rw [← decide_not, decide_eq_decide]
    omega
  rw [hneg] at hlive
  refine (hdue.append_left _).trans ?_
  rw [← List.map_append]
  exact hlive.map Inflight.entry

end Expiry

section HandOut

/-- The entry as its next delivery carries it. -/
def Entry.deliver (e : Entry) : Entry := { e with delivered := e.delivered + 1 }

def Entry.claim (e : Entry) : Claim := ⟨e.seq, e.work, e.delivered⟩

@[simp] theorem Entry.deliver_seq (e : Entry) : e.deliver.seq = e.seq := rfl
@[simp] theorem Entry.deliver_work (e : Entry) : e.deliver.work = e.work := rfl

/-- The loop of a pull splits the ready entries into those it hands out, all of the credential and
no more than there is room for, and those it keeps. -/
theorem handOut_spec (credential : String) (room deadline : Nat) (es : List Entry) (n : Nat)
    (inflight : List Inflight)
    (hn : (es.map Entry.seq ++ inflight.map (·.entry.seq)).Nodup) :
    ∃ taken kept : List Entry, es.Perm (taken ++ kept) ∧ (∀ e ∈ taken,
      e.work.credential = credential) ∧ taken.length ≤ room - n ∧
      (State.handOut credential room deadline es n inflight).1 =
        taken.map (fun e => e.deliver.claim) ∧
      (State.handOut credential room deadline es n inflight).2.1 = kept ∧
      (State.handOut credential room deadline es n inflight).2.2.Perm
        (taken.map (fun e => ⟨e.deliver, deadline⟩) ++ inflight) := by
  induction es generalizing n inflight with
  | nil => exact ⟨[], [], .nil, by simp, by simp, rfl, rfl, .refl _⟩
  | cons e es ih =>
    rw [List.map_cons, List.cons_append, List.nodup_cons] at hn
    unfold State.handOut
    split
    · next h =>
      have hfresh : ∀ g ∈ inflight, g.entry.seq ≠ e.deliver.seq := by
        intro g hg heq
        rw [Entry.deliver_seq] at heq
        exact hn.1 (List.mem_append_right _ (heq ▸ List.mem_map_of_mem hg))
      have hperm : (insert inflight ⟨e.deliver, deadline⟩).Perm
          (⟨e.deliver, deadline⟩ :: inflight) :=
        insert_perm hfresh
      have hnext : (es.map Entry.seq ++
          (insert inflight ⟨e.deliver, deadline⟩).map (·.entry.seq)).Nodup := by
        have hmid : (es.map Entry.seq ++ (insert inflight ⟨e.deliver, deadline⟩).map
            (·.entry.seq)).Perm (e.seq :: (es.map Entry.seq ++ inflight.map (·.entry.seq))) :=
          ((hperm.map _).append_left _).trans List.perm_middle
        exact hmid.nodup_iff.mpr (List.nodup_cons.mpr hn)
      obtain ⟨taken, kept, hes, hcred, hroom, hclaims, hkept, hin⟩ := ih (n + 1) _ hnext
      refine ⟨e :: taken, kept, hes.cons e, ?_, ?_, ?_, hkept, ?_⟩
      · exact List.forall_mem_cons.mpr ⟨h.2, hcred⟩
      · rw [List.length_cons]
        omega
      · exact congrArg (e.deliver.claim :: ·) hclaims
      · exact hin.trans ((hperm.append_left _).trans List.perm_middle)
    · obtain ⟨taken, kept, hes, hcred, hroom, hclaims, hkept, hin⟩ := ih n inflight hn.2
      refine ⟨taken, e :: kept, (hes.cons e).trans List.perm_middle.symm, hcred, hroom, hclaims,
        ?_, hin⟩
      exact congrArg (e :: ·) hkept

/-- What a pull takes out of the ready entries and what it keeps. -/
structure Handed (s : State) (credential : String) (max now : Nat) (taken kept : List Entry) :
    Prop where
  ready : (s.expire now).ready.Perm (taken ++ kept)
  same : ∀ e ∈ taken, e.work.credential = credential
  room : taken.length ≤ (s.expire now).settings.maxAckPending - (s.expire now).held credential
  claims : (s.pull credential max now).1 = taken.map (fun e => e.deliver.claim)
  left : (s.pull credential max now).2.ready = kept
  inflight : (s.pull credential max now).2.inflight.Perm
    (taken.map (fun e => ⟨e.deliver, now + (s.expire now).settings.ackWait⟩) ++
      (s.expire now).inflight)
  seqs : (taken.map Entry.seq ++ (kept.map Entry.seq ++
    (s.expire now).inflight.map (·.entry.seq))).Nodup

theorem pull_handed (s : State) (credential : String) (max now : Nat)
    (hn : ((s.expire now).ready.map Entry.seq ++
      (s.expire now).inflight.map (·.entry.seq)).Nodup) :
    ∃ taken kept, Handed s credential max now taken kept := by
  obtain ⟨taken, kept, hready, hcred, hroom, hclaims, hkept, hin⟩ := handOut_spec credential
    (min ((s.expire now).settings.maxAckPending - (s.expire now).held credential) max)
    (now + (s.expire now).settings.ackWait) (s.expire now).ready 0 (s.expire now).inflight hn
  refine ⟨taken, kept, hready, hcred, by omega, hclaims, hkept, hin, ?_⟩
  have hperm := (hready.map Entry.seq).append_right ((s.expire now).inflight.map (·.entry.seq))
  rw [List.map_append, List.append_assoc] at hperm
  exact hperm.nodup_iff.mp hn

namespace Handed

variable {s : State} {credential : String} {max now : Nat} {taken kept : List Entry}

theorem mem_ready (h : Handed s credential max now taken kept) {e : Entry}
    (he : e ∈ taken ∨ e ∈ kept) : e ∈ (s.expire now).ready :=
  h.ready.mem_iff.mpr (List.mem_append.mpr he)

/-- Claims are counted by the entries taken. -/
theorem countP_claims (h : Handed s credential max now taken kept) (seq : Nat) :
    (s.pull credential max now).1.countP (·.seq = seq) = (taken.map Entry.seq).count seq := by
  rw [h.claims, List.countP_map, List.count_eq_countP, List.countP_map]
  apply List.countP_congr
  intro e _
  simp [Entry.claim]

theorem count_taken (h : Handed s credential max now taken kept) {e : Entry} (he : e ∈ taken) :
    (taken.map Entry.seq).count e.seq = 1 :=
  List.count_eq_one_of_mem (List.nodup_append.mp h.seqs).1 (List.mem_map_of_mem he)

theorem count_kept (h : Handed s credential max now taken kept) {e : Entry} (he : e ∈ kept) :
    (taken.map Entry.seq).count e.seq = 0 :=
  List.count_eq_zero_of_not_mem (fun hmem => (List.nodup_append.mp h.seqs).2.2 e.seq hmem e.seq
    (List.mem_append_left _ (List.mem_map_of_mem he)) rfl)

theorem count_inflight (h : Handed s credential max now taken kept) {f : Inflight}
    (hf : f ∈ (s.expire now).inflight) : (taken.map Entry.seq).count f.entry.seq = 0 :=
  List.count_eq_zero_of_not_mem (fun hmem => (List.nodup_append.mp h.seqs).2.2 f.entry.seq hmem
    f.entry.seq (List.mem_append_right _ (List.mem_map.mpr ⟨f, hf, rfl⟩)) rfl)

/-- A delivery in flight after the pull is a new one or was in flight before. -/
theorem mem_inflight (h : Handed s credential max now taken kept) {f : Inflight}
    (hf : f ∈ (s.pull credential max now).2.inflight) :
    (∃ e ∈ taken, f = ⟨e.deliver, now + (s.expire now).settings.ackWait⟩) ∨
      f ∈ (s.expire now).inflight := by
  rcases List.mem_append.mp (h.inflight.mem_iff.mp hf) with hf | hf
  · obtain ⟨e, he, rfl⟩ := List.mem_map.mp hf
    exact .inl ⟨e, he, rfl⟩
  · exact .inr hf

/-- Only the credential that pulls gains deliveries, as many as it takes. -/
theorem held (h : Handed s credential max now taken kept) (c : String) :
    (s.pull credential max now).2.held c =
      taken.countP (·.work.credential = c) + (s.expire now).held c := by
  refine (h.inflight.countP_eq _).trans ?_
  rw [List.countP_append, List.countP_map]
  rfl

theorem held_le (h : Handed s credential max now taken kept) {c : String}
    (hc : (s.expire now).held c ≤ (s.expire now).settings.maxAckPending) :
    (s.pull credential max now).2.held c ≤ (s.expire now).settings.maxAckPending := by
  have hroom := h.room
  rw [h.held]
  by_cases heq : c = credential
  · have hle : taken.countP (fun e => decide (e.work.credential = c)) ≤ taken.length :=
      List.countP_le_length
    subst heq
    omega
  · have hzero : taken.countP (fun e => decide (e.work.credential = c)) = 0 := by
      rw [List.countP_eq_zero]
      intro e he hmem
      rw [decide_eq_true_eq, h.same e he] at hmem
      exact heq hmem.symm
    omega

end Handed

end HandOut

end PangeaOperator.LeafQueue
