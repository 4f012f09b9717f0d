import PangeaOperator.LeafQueue

/-!
# Runs of the in-process leaf queue

Any interleaving of the operations of any number of publishers and workers, with the time that
passes between them. `publish` and `pull` read the clock before they get the lock, so their
instants may lie behind it.
-/

namespace PangeaOperator.LeafQueue

/-- One published message; two of them may carry the same work. -/
structure Item where
  seq : Nat
  work : LeafWork
  deriving DecidableEq, Repr

def Entry.item (e : Entry) : Item := ⟨e.seq, e.work⟩

/-- The queue, the claims that workers hold, and what has happened so far: the messages whose
publish returned `Queued`, the acked ones, those in `dead`, those `exhausted` has answered with,
its answers, and every claim a pull has handed out. -/
structure World where
  queue : State
  clock : Nat
  claims : List Claim
  queued : List Item
  acked : List Item
  buried : List Item
  reported : List Item
  answers : List LeafWork
  deliveries : List Claim

inductive Event where
  | publish (work : LeafWork) (now : Nat)
  | pull (credential : String) (max now : Nat)
  | progress (c : Claim)
  | ack (c : Claim)
  | nak (c : Claim)
  | drop (c : Claim)
  | exhausted
  | pass (d : Nat)
  deriving DecidableEq, Repr

namespace World

def new (settings : QueueSettings) : World := ⟨.new settings, 0, [], [], [], [], [], [], []⟩

/-- Expiry as the history sees it. -/
def settle (w : World) (now : Nat) : World :=
  { w with
    queue := w.queue.expire now
    buried := w.buried ++ (w.queue.spent now).map Entry.item }

/-- What cannot happen (an instant still to come, a claim nobody holds) leaves the world alone. -/
def step (w : World) : Event → World
  | .publish work now =>
    if now ≤ w.clock then
      let out := w.queue.publish work now
      { w.settle now with
        queue := out.2
        queued := if out.1 = .queued then w.queued ++ [⟨w.queue.next, work⟩] else w.queued }
    else w
  | .pull credential max now =>
    if now ≤ w.clock then
      let out := w.queue.pull credential max now
      { w.settle now with
        queue := out.2
        claims := w.claims ++ out.1
        deliveries := w.deliveries ++ out.1 }
    else w
  | .progress c => if c ∈ w.claims then { w with queue := c.progress w.queue w.clock } else w
  | .ack c =>
    if c ∈ w.claims then
      { w with
        queue := c.ack w.queue
        claims := w.claims.erase c
        acked := w.acked ++ ((lookup w.queue.inflight c.seq).map (·.entry.item)).toList }
    else w
  | .nak c =>
    if c ∈ w.claims then { w with queue := c.nak w.queue, claims := w.claims.erase c } else w
  | .drop c => { w with claims := w.claims.erase c }
  | .exhausted =>
    let out := w.queue.exhausted w.clock
    { w with
      queue := out.2
      buried := []
      reported := w.reported ++ (w.settle w.clock).buried
      answers := w.answers ++ out.1 }
  | .pass d => { w with clock := w.clock + d }

inductive Place where
  | ready | inflight | dead | acked | reported
  deriving DecidableEq, Repr

def items (w : World) : Place → List Item
  | .ready => w.queue.ready.map Entry.item
  | .inflight => w.queue.inflight.map (·.entry.item)
  | .dead => w.buried
  | .acked => w.acked
  | .reported => w.reported

/-- How often pulls have handed a message out. -/
def times (w : World) (seq : Nat) : Nat := w.deliveries.countP (·.seq = seq)

end World

open World

section Pull

variable {w : World} {credential : String} {max now : Nat}

theorem queue_pull (w : World) (credential : String) (max : Nat) (hnow : now ≤ w.clock) :
    (w.step (.pull credential max now)).queue = (w.queue.pull credential max now).2 := by
  rw [World.step, if_pos hnow]

theorem deliveries_pull (hnow : now ≤ w.clock) : (w.step (.pull credential max now)).deliveries =
    w.deliveries ++ (w.queue.pull credential max now).1 := by
  rw [World.step, if_pos hnow]

/-- A pull counts once for each message it takes. -/
theorem times_pull {taken kept : List Entry} (hh : Handed w.queue credential max now taken kept)
    (hnow : now ≤ w.clock) (seq : Nat) : (w.step (.pull credential max now)).times seq =
      w.times seq + (taken.map Entry.seq).count seq := by
  rw [times, deliveries_pull hnow, List.countP_append, hh.countP_claims]
  rfl

end Pull

/-- The books: every message queued is in one place, under a sequence number of its own. -/
structure Accounted (w : World) : Prop where
  places : ∀ i, w.queued.count i = (w.items .ready).count i + (w.items .inflight).count i +
    (w.items .dead).count i + (w.items .acked).count i + (w.items .reported).count i
  seqs : (w.queued.map Item.seq).Nodup
  fresh : ∀ i ∈ w.queued, i.seq < w.queue.next
  dead : w.buried.map Item.work = w.queue.dead
  answers : w.reported.map Item.work = w.answers
  slots : ∀ credential, w.queue.held credential ≤ w.queue.settings.maxAckPending

theorem accounted_new (settings : QueueSettings) : Accounted (World.new settings) where
  places := fun _ => rfl
  seqs := List.nodup_nil
  fresh := nofun
  dead := rfl
  answers := rfl
  slots := fun _ => Nat.zero_le _

namespace Accounted

variable {w : World}

/-- What is ready and what is in flight, as one list, is part of what was queued. -/
theorem waiting_subperm (h : Accounted w) :
    (w.items .ready ++ w.items .inflight).Subperm w.queued := by
  rw [List.subperm_iff_count]
  intro i
  rw [List.count_append]
  have := h.places i
  omega

theorem waiting_nodup (h : Accounted w) :
    (w.queue.ready.map Entry.seq ++ w.queue.inflight.map (·.entry.seq)).Nodup := by
  have hmap : w.queue.ready.map Entry.seq ++ w.queue.inflight.map (·.entry.seq) =
      (w.items .ready ++ w.items .inflight).map Item.seq := by
    simp only [items, List.map_append, List.map_map]
    rfl
  rw [hmap]
  obtain ⟨l, hperm, hsub⟩ := h.waiting_subperm
  exact (hperm.map Item.seq).nodup_iff.mp (h.seqs.sublist (hsub.map Item.seq))

theorem inflight_nodup (h : Accounted w) :
    (w.queue.inflight.map (·.entry.seq)).Nodup := (List.nodup_append.mp h.waiting_nodup).2.1

theorem mem_queued (h : Accounted w) {i : Item}
    (hi : i ∈ w.items .ready ∨ i ∈ w.items .inflight) : i ∈ w.queued :=
  h.waiting_subperm.subset (List.mem_append.mpr hi)

/-- A message queued is counted once, in one place. -/
theorem count_eq_one (h : Accounted w) {i : Item} (hi : i ∈ w.queued) : w.queued.count i = 1 :=
  List.count_eq_one_of_mem (List.Nodup.of_map _ h.seqs) hi

theorem place (h : Accounted w) {i : Item} (hi : i ∈ w.queued) : ∃ p, i ∈ w.items p := by
  have hone := h.count_eq_one hi
  have hsum := h.places i
  by_contra hnone
  have hzero (p : Place) : (w.items p).count i = 0 :=
    List.count_eq_zero_of_not_mem (fun hp => hnone ⟨p, hp⟩)
  simp only [hzero] at hsum
  omega

/-- Expiry moves entries out of flight, to `ready` or to `dead`. -/
theorem settle (h : Accounted w) (now : Nat) : Accounted (w.settle now) := by
  have heq := expire_eq h.inflight_nodup now
  constructor
  · intro i
    have hcount := ((expire_perm w.queue now).map Entry.item).count_eq i
    have hplaces := h.places i
    simp only [items, World.settle, heq, List.map_append, List.count_append, List.map_map]
      at hcount hplaces ⊢
    simp only [Function.comp_def] at hcount hplaces ⊢
    omega
  · exact h.seqs
  · intro i hi
    rw [World.settle, heq]
    exact h.fresh i hi
  · rw [World.settle, heq]
    simp only [List.map_append, List.map_map, h.dead]
    rfl
  · exact h.answers
  · intro credential
    have hsub : (w.queue.inflight.filter (now < ·.deadline)).Sublist w.queue.inflight :=
      List.filter_sublist
    rw [World.settle, heq]
    exact hsub.countP_le.trans (h.slots credential)

/-- A message leaves flight with its claim's sequence number; where it goes is up to the rest. -/
theorem count_remove (h : Accounted w) {seq : Nat} {f : Inflight}
    (hf : lookup w.queue.inflight seq = some f) (i : Item) : (w.items .inflight).count i =
      ((remove w.queue.inflight seq).map (·.entry.item)).count i + [f.entry.item].count i := by
  have hperm := lookup_cons_remove_perm h.inflight_nodup hf
  have hcount := (hperm.map (·.entry.item)).count_eq i
  rw [List.map_cons, List.count_cons] at hcount
  rw [items, hcount, List.count_singleton]

theorem held_remove_le (h : Accounted w) (seq : Nat) (credential : String) :
    (remove w.queue.inflight seq).countP (·.entry.work.credential = credential) ≤
      w.queue.settings.maxAckPending :=
  (List.Sublist.countP_le List.filter_sublist).trans (h.slots credential)

theorem publish (h : Accounted w) (work : LeafWork) (now : Nat) :
    Accounted (w.step (.publish work now)) := by
  have hs := h.settle now
  have hnext : (w.queue.expire now).next = w.queue.next := by rw [expire_eq h.inflight_nodup]
  unfold World.step
  dsimp only
  split
  · unfold State.publish
    dsimp only
    split
    · exact hs
    · -- the new message is ready, under the next sequence number
      have hnot : (⟨w.queue.next, work⟩ : Item) ∉ w.queued :=
        fun hi => Nat.lt_irrefl _ (h.fresh _ hi)
      rw [if_pos rfl]
      constructor
      · intro i
        have hplaces := hs.places i
        simp only [items, World.settle, List.map_append, List.count_append, List.map_cons,
          List.map_nil, Entry.item, hnext] at hplaces ⊢
        omega
      · rw [List.map_append, List.nodup_append]
        refine ⟨h.seqs, List.nodup_singleton _, ?_⟩
        intro a ha b hb
        obtain ⟨i, hi, rfl⟩ := List.mem_map.mp ha
        rw [List.map_singleton, List.mem_singleton] at hb
        exact hb ▸ (h.fresh i hi).ne
      · intro i hi
        dsimp only
        rw [hnext]
        rcases List.mem_append.mp hi with hi | hi
        · exact Nat.lt_succ_of_lt (h.fresh i hi)
        · rw [List.mem_singleton.mp hi]
          exact Nat.lt_succ_self _
      · exact hs.dead
      · exact hs.answers
      · exact hs.slots
  · exact h

theorem pull (h : Accounted w) (credential : String) (max now : Nat) :
    Accounted (w.step (.pull credential max now)) := by
  have hs := h.settle now
  unfold World.step
  dsimp only
  split
  · obtain ⟨taken, kept, hh⟩ := pull_handed w.queue credential max now hs.waiting_nodup
    refine ⟨fun i => ?_, h.seqs, hs.fresh, hs.dead, h.answers, fun c => hh.held_le (hs.slots c)⟩
    have hplaces := hs.places i
    have hcount := (hh.ready.map Entry.item).count_eq i
    have hflight := (hh.inflight.map (·.entry.item)).count_eq i
    rw [List.map_append, List.count_append, List.map_map] at hflight
    change _ = (taken.map Entry.item).count i + _ at hflight
    simp only [items, World.settle, hh.left, List.map_append, List.count_append]
      at hplaces hcount ⊢
    omega
  · exact h

theorem progress (h : Accounted w) (c : Claim) : Accounted (w.step (.progress c)) := by
  have hitems : (extend w.queue.inflight c.seq (w.clock + w.queue.settings.ackWait)).map
      (·.entry.item) = w.queue.inflight.map (·.entry.item) := by
    have := congrArg (List.map Entry.item) (map_entry_extend w.queue.inflight c.seq
      (w.clock + w.queue.settings.ackWait))
    rwa [List.map_map, List.map_map] at this
  unfold World.step
  dsimp only
  split
  · constructor
    · intro i
      have hplaces := h.places i
      simp only [items, Claim.progress, hitems] at hplaces ⊢
      exact hplaces
    · exact h.seqs
    · exact h.fresh
    · exact h.dead
    · exact h.answers
    · intro credential
      have hcount : (w.queue.inflight.map Inflight.entry).countP (·.work.credential = credential) ≤
          w.queue.settings.maxAckPending := by
        rw [List.countP_map]
        exact h.slots credential
      rw [← map_entry_extend w.queue.inflight c.seq (w.clock + w.queue.settings.ackWait),
        List.countP_map] at hcount
      exact hcount
  · exact h

theorem ack (h : Accounted w) (c : Claim) : Accounted (w.step (.ack c)) := by
  unfold World.step
  dsimp only
  split
  · refine ⟨fun i => ?_, h.seqs, h.fresh, h.dead, h.answers, h.held_remove_le c.seq⟩
    have hplaces := h.places i
    cases hf : lookup w.queue.inflight c.seq with
    | none =>
      simp only [items, Claim.ack, remove_of_lookup_none hf, Option.map_none, Option.toList_none,
        List.append_nil] at hplaces ⊢
      exact hplaces
    | some f =>
      have hcount := h.count_remove hf i
      simp only [items, Claim.ack, Option.map_some, Option.toList_some, List.count_append]
        at hplaces hcount ⊢
      omega
  · exact h

theorem nak (h : Accounted w) (c : Claim) : Accounted (w.step (.nak c)) := by
  unfold World.step
  dsimp only
  split
  · cases hf : lookup w.queue.inflight c.seq with
    | none =>
      simp only [Claim.nak, hf]
      exact ⟨h.places, h.seqs, h.fresh, h.dead, h.answers, h.slots⟩
    | some f =>
      simp only [Claim.nak, hf]
      refine ⟨fun i => ?_, h.seqs, h.fresh, h.dead, h.answers, h.held_remove_le c.seq⟩
      have hplaces := h.places i
      have hcount := h.count_remove hf i
      simp only [items, List.map_append, List.count_append, List.map_cons, List.map_nil]
        at hplaces hcount ⊢
      omega
  · exact h

theorem exhausted (h : Accounted w) : Accounted (w.step .exhausted) := by
  have hs := h.settle w.clock
  constructor
  · intro i
    have hplaces := hs.places i
    simp only [items, World.step, State.exhausted, World.settle, List.count_append, List.count_nil]
      at hplaces ⊢
    omega
  · exact hs.seqs
  · exact hs.fresh
  · rfl
  · have hdead := hs.dead
    simp only [World.step, State.exhausted, List.map_append, h.answers, hdead]
    rfl
  · exact hs.slots

theorem step (h : Accounted w) (e : Event) : Accounted (w.step e) := by
  cases e with
  | publish work now => exact h.publish work now
  | pull credential max now => exact h.pull credential max now
  | progress c => exact h.progress c
  | ack c => exact h.ack c
  | nak c => exact h.nak c
  | drop c => exact ⟨h.places, h.seqs, h.fresh, h.dead, h.answers, h.slots⟩
  | exhausted => exact h.exhausted
  | pass d => exact ⟨h.places, h.seqs, h.fresh, h.dead, h.answers, h.slots⟩

end Accounted

theorem accounted_run (settings : QueueSettings) (es : List Event) :
    Accounted (run World.step (World.new settings) es) :=
  run_invariant (fun _ e h => h.step e) (accounted_new settings) es

/-- Every message queued is in one place, once, and the places are what the queue holds and
has answered. -/
structure Conserved (w : World) : Prop where
  once : ∀ i ∈ w.queued, ∃ p, (w.items p).count i = 1 ∧ ∀ q, q ≠ p → i ∉ w.items q
  own : (w.queued.map Item.seq).Nodup
  dead : (w.items .dead).map Item.work = w.queue.dead
  answers : (w.items .reported).map Item.work = w.answers
  distinct : (w.queue.ready.map Entry.seq ++ w.queue.inflight.map (·.entry.seq)).Nodup
  slots : ∀ credential, w.queue.held credential ≤ w.queue.settings.maxAckPending

theorem Accounted.once {w : World} (h : Accounted w) {i : Item} (hi : i ∈ w.queued) :
    ∃ p, (w.items p).count i = 1 ∧ ∀ q, q ≠ p → i ∉ w.items q := by
  obtain ⟨p, hp⟩ := h.place hi
  have hone := h.count_eq_one hi
  have hsum := h.places i
  have hpos := List.count_pos_iff.mpr hp
  refine ⟨p, ?_, fun q hq hmem => ?_⟩
  · cases p <;> omega
  · have hq' := List.count_pos_iff.mpr hmem
    cases p <;> cases q <;> first | exact absurd rfl hq | omega

theorem queue_conserves_work (settings : QueueSettings) (es : List Event) :
    Conserved (run World.step (World.new settings) es) := by
  have h := accounted_run settings es
  exact ⟨fun _ hi => h.once hi, h.seqs, h.dead, h.answers, h.waiting_nodup, h.slots⟩

section Limit

/-- Every entry still in the queue carries the number of its deliveries, which the limit bounds;
a ready one may be delivered again. -/
structure Limited (w : World) : Prop where
  ready : ∀ e ∈ w.queue.ready, w.times e.seq = e.delivered ∧
    e.delivered < w.queue.settings.maxDeliver
  inflight : ∀ f ∈ w.queue.inflight, w.times f.entry.seq = f.entry.delivered ∧
    f.entry.delivered ≤ w.queue.settings.maxDeliver
  fresh : ∀ seq, w.queue.next ≤ seq → w.times seq = 0
  bound : ∀ seq, w.times seq ≤ w.queue.settings.maxDeliver

theorem limited_new (settings : QueueSettings) : Limited (World.new settings) where
  ready := nofun
  inflight := nofun
  fresh _ _ := rfl
  bound _ := Nat.zero_le _

/-- A nak that finds its message in flight finds it with deliveries left. -/
def NakInTime (w : World) : Event → Prop
  | .nak c => c ∈ w.claims → ∀ f ∈ w.queue.inflight, f.entry.seq = c.seq →
      f.entry.delivered < w.queue.settings.maxDeliver
  | _ => True

instance (w : World) (e : Event) : Decidable (NakInTime w e) :=
  match e with
  | .nak c => inferInstanceAs (Decidable (c ∈ w.claims → ∀ f ∈ w.queue.inflight,
      f.entry.seq = c.seq → f.entry.delivered < w.queue.settings.maxDeliver))
  | .publish .. | .pull .. | .progress _ | .ack _ | .drop _ | .exhausted | .pass _ =>
    isTrue trivial

namespace Limited

variable {w : World}

theorem settle (h : Limited w) (ha : Accounted w) (now : Nat) : Limited (w.settle now) := by
  have heq := expire_eq ha.inflight_nodup now
  constructor
  · intro e he
    rw [World.settle, heq] at he
    rcases List.mem_append.mp he with he | he
    · rw [World.settle, heq]
      exact h.ready e he
    · obtain ⟨hdue, hless⟩ := List.mem_filter.mp he
      obtain ⟨f, hf, rfl⟩ := List.mem_map.mp hdue
      rw [World.settle, heq]
      exact ⟨(h.inflight f (List.mem_filter.mp hf).1).1, of_decide_eq_true hless⟩
  · intro f hf
    rw [World.settle, heq] at hf ⊢
    exact h.inflight f (List.mem_filter.mp hf).1
  · rw [World.settle, heq]
    exact h.fresh
  · rw [World.settle, heq]
    exact h.bound

theorem publish (h : Limited w) (ha : Accounted w) (hpos : 0 < w.queue.settings.maxDeliver)
    (work : LeafWork) (now : Nat) : Limited (w.step (.publish work now)) := by
  have hs := h.settle ha now
  have heq := expire_eq ha.inflight_nodup now
  unfold World.step
  dsimp only
  split
  · unfold State.publish
    dsimp only
    split
    · exact hs
    · refine ⟨?_, hs.inflight, fun seq hseq => hs.fresh seq (Nat.le_of_succ_le hseq), hs.bound⟩
      intro e he
      rcases List.mem_append.mp he with he | he
      · exact hs.ready e he
      · rw [List.mem_singleton.mp he]
        refine ⟨hs.fresh _ (Nat.le_refl _), ?_⟩
        change 0 < (w.queue.expire now).settings.maxDeliver
        rw [heq]
        exact hpos
  · exact h

theorem pull (h : Limited w) (ha : Accounted w) (credential : String) (max now : Nat) :
    Limited (w.step (.pull credential max now)) := by
  have hs := h.settle ha now
  have has := ha.settle now
  by_cases hnow : now ≤ w.clock
  · obtain ⟨taken, kept, hh⟩ := pull_handed w.queue credential max now has.waiting_nodup
    have htimes := times_pull hh hnow
    have hqueue := queue_pull w credential max hnow
    have hsettings : (w.queue.pull credential max now).2.settings = (w.queue.expire now).settings :=
      rfl
    constructor
    · intro e he
      rw [hqueue, hh.left] at he
      rw [htimes, hh.count_kept he, hqueue, hsettings]
      exact hs.ready e (hh.mem_ready (.inr he))
    · intro f hf
      rw [hqueue] at hf
      rw [htimes, hqueue, hsettings]
      rcases hh.mem_inflight hf with ⟨e, he, rfl⟩ | hf
      · obtain ⟨hcount, hless⟩ := hs.ready e (hh.mem_ready (.inl he))
        rw [Entry.deliver_seq, hh.count_taken he]
        exact ⟨congrArg (· + 1) hcount, hless⟩
      · rw [hh.count_inflight hf]
        exact hs.inflight f hf
    · intro seq hseq
      rw [hqueue] at hseq
      rw [htimes, List.count_eq_zero_of_not_mem]
      · exact hs.fresh seq hseq
      · intro hmem
        obtain ⟨e, he, rfl⟩ := List.mem_map.mp hmem
        have hqueued := has.mem_queued (i := e.item)
          (.inl (List.mem_map_of_mem (hh.mem_ready (.inl he))))
        exact Nat.not_lt_of_le hseq (has.fresh _ hqueued)
    · intro seq
      rw [htimes, hqueue, hsettings]
      by_cases hmem : seq ∈ taken.map Entry.seq
      · obtain ⟨e, he, rfl⟩ := List.mem_map.mp hmem
        obtain ⟨hcount, hless⟩ := hs.ready e (hh.mem_ready (.inl he))
        rw [hh.count_taken he, show w.times e.seq = e.delivered from hcount]
        exact hless
      · rw [List.count_eq_zero_of_not_mem hmem]
        exact hs.bound seq
  · rw [World.step, if_neg hnow]
    exact h

theorem progress (h : Limited w) (c : Claim) : Limited (w.step (.progress c)) := by
  unfold World.step
  dsimp only
  split
  · refine ⟨h.ready, fun f hf => ?_, h.fresh, h.bound⟩
    have hentry : f.entry ∈ w.queue.inflight.map Inflight.entry := by
      rw [← map_entry_extend w.queue.inflight c.seq (w.clock + w.queue.settings.ackWait)]
      exact List.mem_map_of_mem hf
    obtain ⟨g, hg, heq⟩ := List.mem_map.mp hentry
    have := h.inflight g hg
    rw [heq] at this
    exact this
  · exact h

theorem ack (h : Limited w) (c : Claim) : Limited (w.step (.ack c)) := by
  unfold World.step
  dsimp only
  split
  · exact ⟨h.ready, fun f hf => h.inflight f (List.mem_filter.mp hf).1, h.fresh, h.bound⟩
  · exact h

theorem nak (h : Limited w) {c : Claim} (hc : NakInTime w (.nak c)) :
    Limited (w.step (.nak c)) := by
  unfold World.step
  dsimp only
  split
  · next hclaim =>
    cases hf : lookup w.queue.inflight c.seq with
    | none =>
      simp only [Claim.nak, hf]
      exact ⟨h.ready, h.inflight, h.fresh, h.bound⟩
    | some f =>
      obtain ⟨hmem, hseq⟩ := mem_of_lookup hf
      simp only [Claim.nak, hf]
      refine ⟨fun e he => ?_, fun g hg => h.inflight g (List.mem_filter.mp hg).1, h.fresh,
        h.bound⟩
      rcases List.mem_append.mp he with he | he
      · exact h.ready e he
      · rw [List.mem_singleton.mp he]
        exact ⟨(h.inflight f hmem).1, hc hclaim f hmem hseq⟩
  · exact h

theorem step (h : Limited w) (ha : Accounted w) (hpos : 0 < w.queue.settings.maxDeliver)
    {e : Event} (he : NakInTime w e) : Limited (w.step e) := by
  cases e with
  | publish work now => exact h.publish ha hpos work now
  | pull credential max now => exact h.pull ha credential max now
  | progress c => exact h.progress c
  | ack c => exact h.ack c
  | nak c => exact h.nak he
  | drop c => exact ⟨h.ready, h.inflight, h.fresh, h.bound⟩
  | exhausted =>
    have hs := h.settle ha w.clock
    exact ⟨hs.ready, hs.inflight, hs.fresh, hs.bound⟩
  | pass d => exact ⟨h.ready, h.inflight, h.fresh, h.bound⟩

end Limited

theorem settings_step (w : World) (e : Event) (ha : Accounted w) :
    (w.step e).queue.settings = w.queue.settings := by
  have hexpire (now : Nat) : (w.queue.expire now).settings = w.queue.settings := by
    rw [expire_eq ha.inflight_nodup]
  cases e with
  | publish work now =>
    unfold World.step State.publish
    dsimp only
    split
    · split <;> exact hexpire now
    · rfl
  | pull credential max now =>
    unfold World.step
    dsimp only
    split
    · exact hexpire now
    · rfl
  | progress c => unfold World.step; dsimp only; split <;> rfl
  | ack c => unfold World.step; dsimp only; split <;> rfl
  | nak c =>
    unfold World.step Claim.nak
    dsimp only
    split
    · split <;> rfl
    · rfl
  | drop c => rfl
  | exhausted => exact hexpire w.clock
  | pass d => rfl

/-- Nothing is handed out more than `max_deliver` times, and what was handed out that often, is not
acked and has no deadline to wait for, is among what `exhausted` has answered with once it is
called. -/
structure DeliveryBounded (w : World) : Prop where
  bounded : ∀ i ∈ w.queued, w.times i.seq ≤ w.queue.settings.maxDeliver
  ends : ∀ i ∈ w.queued, w.times i.seq = w.queue.settings.maxDeliver → i ∉ w.acked →
    (∀ f ∈ w.queue.inflight, f.entry.item = i → f.deadline ≤ w.clock) →
    i ∈ (w.step .exhausted).reported

theorem Limited.deliveryBounded {w : World} (h : Limited w) (ha : Accounted w) :
    DeliveryBounded w := by
  refine ⟨fun i _ => h.bound i.seq, fun i hi htimes hacked hlate => ?_⟩
  change i ∈ w.reported ++ (w.buried ++ (w.queue.spent w.clock).map Entry.item)
  obtain ⟨p, hp⟩ := ha.place hi
  cases p with
  | ready =>
    -- a ready message has deliveries left
    obtain ⟨e, he, rfl⟩ := List.mem_map.mp hp
    obtain ⟨hcount, hless⟩ := h.ready e he
    change w.times e.seq = _ at htimes
    omega
  | inflight =>
    obtain ⟨f, hf, rfl⟩ := List.mem_map.mp hp
    have hcount := (h.inflight f hf).1
    change w.times f.entry.seq = _ at htimes
    refine List.mem_append_right _ (List.mem_append_right _ (List.mem_map_of_mem ?_))
    refine List.mem_filter.mpr ⟨List.mem_map_of_mem (List.mem_filter.mpr ⟨hf, ?_⟩), ?_⟩
    · exact decide_eq_true (hlate f hf rfl)
    · exact decide_eq_true (by omega)
  | dead => exact List.mem_append_right _ (List.mem_append_left _ hp)
  | acked => exact absurd hp hacked
  | reported => exact List.mem_append_left _ hp

theorem limited_run {settings : QueueSettings} (hpos : 0 < settings.maxDeliver) {es : List Event}
    (h : Along World.step (World.new settings) es NakInTime) :
    Limited (run World.step (World.new settings) es) := by
  have hstep (w : World) (e : Event) (he : NakInTime w e)
      (hw : Limited w ∧ Accounted w ∧ w.queue.settings = settings) :
      Limited (w.step e) ∧ Accounted (w.step e) ∧ (w.step e).queue.settings = settings := by
    obtain ⟨hl, ha, hs⟩ := hw
    refine ⟨hl.step ha ?_ he, ha.step e, (settings_step w e ha).trans hs⟩
    rw [hs]
    exact hpos
  exact (run_invariant_of_along hstep ⟨limited_new settings, accounted_new settings, rfl⟩ h).1

theorem delivery_is_bounded (settings : QueueSettings) (hpos : 0 < settings.maxDeliver)
    (es : List Event) (h : Along World.step (World.new settings) es NakInTime) :
    DeliveryBounded (run World.step (World.new settings) es) :=
  (limited_run hpos h).deliveryBounded (accounted_run settings es)

/-- The settings of the source's own tests, with a wait of 100 ms. -/
def ghSettings : QueueSettings := ⟨100000000, 3, 600000000000, 8⟩

def ghWork : LeafWork := ⟨"a", "gh", .plan, "d1", 4⟩

/-- A claim of the n-th delivery of the first message. -/
def ghClaim (n : Nat) : Claim := ⟨1, ghWork, n⟩

/-- Twice a run fails and naks, then the last one dies. -/
def failingTwice : List Event :=
  [.publish ghWork 0, .pull "gh" 1 0, .nak (ghClaim 1), .pull "gh" 1 0, .nak (ghClaim 2),
    .pull "gh" 1 0, .pass 100000000]

theorem failing_twice_is_bounded :
    (0 < ghSettings.maxDeliver ∧ Along World.step (World.new ghSettings) failingTwice NakInTime) ∧
      DeliveryBounded (run World.step (World.new ghSettings) failingTwice) :=
  have hpos : 0 < ghSettings.maxDeliver := by decide
  have hnaks : Along World.step (World.new ghSettings) failingTwice NakInTime := by
    decide +kernel
  ⟨⟨hpos, hnaks⟩, delivery_is_bounded ghSettings hpos failingTwice hnaks⟩

/-- The third run fails as well: its nak makes the message ready, the next pull delivers it a
fourth time. -/
theorem nak_outruns_the_limit : ¬ ∀ (settings : QueueSettings) (es : List Event),
    0 < settings.maxDeliver → DeliveryBounded (run World.step (World.new settings) es) := by
  intro h
  have hbound := (h ghSettings [.publish ghWork 0, .pull "gh" 1 0, .nak (ghClaim 1),
    .pull "gh" 1 0, .nak (ghClaim 2), .pull "gh" 1 0, .nak (ghClaim 3), .pull "gh" 1 0]
    (by decide)).bounded ⟨1, ghWork⟩
  revert hbound
  decide +kernel

end Limit

section Lease

/-- The world as the worker of a claim sees it: the deadline it has to beat is the one its own
pull and its own calls of `progress` have set. -/
structure Lease where
  world : World
  due : Nat

def Lease.step (c : Claim) (l : Lease) (e : Event) : Lease where
  world := l.world.step e
  due := if e = .progress c ∧ c ∈ l.world.claims then
    l.world.clock + l.world.queue.settings.ackWait else l.due

/-- The worker is within its deadline and has not finished with the message. -/
def Working (c : Claim) (l : Lease) (e : Event) : Prop :=
  l.world.clock < l.due ∧ e ≠ .ack c ∧ e ≠ .nak c

/-- No claim of another delivery naks the message while it is in flight. -/
def Undisturbed (c : Claim) (l : Lease) : Event → Prop
  | .nak d => d ∈ l.world.claims → d.seq = c.seq → lookup l.world.queue.inflight c.seq = none
  | _ => True

/-- The claim's message is not ready, and its deadline is no earlier than the worker's. -/
structure Guarded (c : Claim) (l : Lease) : Prop where
  accounted : Accounted l.world
  known : c.seq < l.world.queue.next
  ready : ∀ e ∈ l.world.queue.ready, e.seq ≠ c.seq
  deadline : ∀ f ∈ l.world.queue.inflight, f.entry.seq = c.seq → l.due ≤ f.deadline
  due : l.due ≤ l.world.clock + l.world.queue.settings.ackWait

namespace Guarded

variable {c : Claim} {l : Lease}

/-- An instant before the worker's deadline does not make its message ready. -/
theorem settle (h : Guarded c l) {now : Nat} (hnow : now < l.due) :
    Guarded c ⟨l.world.settle now, l.due⟩ := by
  have heq := expire_eq h.accounted.inflight_nodup now
  refine ⟨h.accounted.settle now, ?_, ?_, ?_, ?_⟩
  · rw [World.settle, heq]
    exact h.known
  · intro e he
    rw [World.settle, heq] at he
    rcases List.mem_append.mp he with he | he
    · exact h.ready e he
    · obtain ⟨f, hf, rfl⟩ := List.mem_map.mp (List.mem_filter.mp he).1
      obtain ⟨hmem, hdue⟩ := List.mem_filter.mp hf
      intro hseq
      have := h.deadline f hmem hseq
      have := of_decide_eq_true hdue
      omega
  · intro f hf
    rw [World.settle, heq] at hf
    exact h.deadline f (List.mem_filter.mp hf).1
  · rw [World.settle, heq]
    exact h.due

theorem publish (h : Guarded c l) (hlive : l.world.clock < l.due) (work : LeafWork) (now : Nat) :
    Guarded c ⟨l.world.step (.publish work now), l.due⟩ := by
  have ha := h.accounted.publish work now
  unfold World.step at ha ⊢
  dsimp only at ha ⊢
  split
  · next hnow =>
    have hs := h.settle (show now < l.due by omega)
    rw [if_pos hnow] at ha
    unfold State.publish at ha ⊢
    dsimp only at ha ⊢
    split
    · exact hs
    · next hnew =>
      rw [if_neg hnew] at ha
      refine ⟨ha, Nat.lt_succ_of_lt hs.known, fun e he => ?_, hs.deadline, hs.due⟩
      rcases List.mem_append.mp he with he | he
      · exact hs.ready e he
      · rw [List.mem_singleton.mp he]
        exact (Nat.ne_of_lt hs.known).symm
  · exact h

/-- A pull by anybody leaves the message where it is. -/
theorem pull (h : Guarded c l) (hlive : l.world.clock < l.due) (credential : String)
    (max now : Nat) : Guarded c ⟨l.world.step (.pull credential max now), l.due⟩ ∧
      (l.world.step (.pull credential max now)).times c.seq = l.world.times c.seq := by
  by_cases hnow : now ≤ l.world.clock
  · have hs := h.settle (show now < l.due by omega)
    obtain ⟨taken, kept, hh⟩ :=
      pull_handed l.world.queue credential max now hs.accounted.waiting_nodup
    have hother {e : Entry} (he : e ∈ taken) : e.seq ≠ c.seq :=
      hs.ready e (hh.mem_ready (.inl he))
    have ha := h.accounted.pull credential max now
    refine ⟨⟨ha, ?_, ?_, ?_, ?_⟩, ?_⟩
    · rw [queue_pull l.world credential max hnow]
      exact hs.known
    · rw [queue_pull l.world credential max hnow, hh.left]
      exact fun e he => hs.ready e (hh.mem_ready (.inr he))
    · rw [queue_pull l.world credential max hnow]
      intro f hf hseq
      rcases hh.mem_inflight hf with ⟨e, he, rfl⟩ | hf
      · exact absurd (show e.seq = c.seq from hseq) (hother he)
      · exact hs.deadline f hf hseq
    · rw [settings_step l.world _ h.accounted, World.step, if_pos hnow]
      exact h.due
    · rw [times_pull hh hnow, List.count_eq_zero_of_not_mem, Nat.add_zero]
      intro hmem
      obtain ⟨e, he, heq⟩ := List.mem_map.mp hmem
      exact hother he heq
  · rw [World.step, if_neg hnow]
    exact ⟨h, rfl⟩

theorem progress (h : Guarded c l) (d : Claim) : Guarded c (l.step c (.progress d)) := by
  have ha := h.accounted.progress d
  unfold Lease.step World.step at ha ⊢
  dsimp only at ha ⊢
  split
  · next hd =>
    rw [if_pos hd] at ha
    have hdue : (if Event.progress d = .progress c ∧ c ∈ l.world.claims then
        l.world.clock + l.world.queue.settings.ackWait else l.due) ≤
          l.world.clock + l.world.queue.settings.ackWait := by
      split
      · exact Nat.le_refl _
      · exact h.due
    refine ⟨ha, h.known, h.ready, fun f hf hseq => ?_, hdue⟩
    obtain ⟨g, hg, rfl⟩ := List.mem_map.mp hf
    split at hseq
    · next heq =>
      rw [if_pos heq]
      exact hdue
    · next heq =>
      -- another message's claim: the worker's deadline is as it was
      have hne : ¬ (Event.progress d = .progress c ∧ c ∈ l.world.claims) := by
        rintro ⟨hdc, -⟩
        cases hdc
        exact heq hseq
      rw [if_neg heq, if_neg hne]
      exact h.deadline g hg hseq
  · next hd =>
    rw [if_neg]
    · exact h
    · rintro ⟨hdc, hc⟩
      cases hdc
      exact hd hc

theorem ack (h : Guarded c l) (d : Claim) : Guarded c ⟨l.world.step (.ack d), l.due⟩ := by
  have ha := h.accounted.ack d
  unfold World.step at ha ⊢
  dsimp only at ha ⊢
  split
  · next hd =>
    rw [if_pos hd] at ha
    exact ⟨ha, h.known, h.ready, fun f hf => h.deadline f (List.mem_filter.mp hf).1, h.due⟩
  · exact h

theorem nak (h : Guarded c l) {d : Claim} (hd : Undisturbed c l (.nak d)) :
    Guarded c ⟨l.world.step (.nak d), l.due⟩ := by
  have ha := h.accounted.nak d
  unfold World.step at ha ⊢
  dsimp only at ha ⊢
  split
  · next hclaim =>
    rw [if_pos hclaim] at ha
    cases hf : lookup l.world.queue.inflight d.seq with
    | none =>
      simp only [Claim.nak, hf] at ha ⊢
      exact ⟨ha, h.known, h.ready, h.deadline, h.due⟩
    | some f =>
      -- a message that is found in flight is another one
      have hne : d.seq ≠ c.seq := by
        intro heq
        have hnone := hd hclaim heq
        rw [← heq, hf] at hnone
        cases hnone
      simp only [Claim.nak, hf] at ha ⊢
      refine ⟨ha, h.known, fun e he => ?_, fun g hg => h.deadline g (List.mem_filter.mp hg).1,
        h.due⟩
      rcases List.mem_append.mp he with he | he
      · exact h.ready e he
      · rw [List.mem_singleton.mp he, (mem_of_lookup hf).2]
        exact hne
  · exact h

/-- No step of a run in which the worker lives and no stale nak strikes redelivers its message. -/
theorem step (h : Guarded c l) {e : Event} (hw : Working c l e) (hu : Undisturbed c l e) :
    Guarded c (l.step c e) ∧ (l.step c e).world.times c.seq = l.world.times c.seq := by
  have hsame (e : Event) (hne : ∀ d, e ≠ .progress d) : l.step c e = ⟨l.world.step e, l.due⟩ := by
    rw [Lease.step, if_neg (fun he => hne c he.1)]
  cases e with
  | publish work now =>
    rw [hsame (.publish work now) nofun]
    refine ⟨h.publish hw.1 work now, ?_⟩
    unfold World.step
    dsimp only
    split <;> rfl
  | pull credential max now =>
    rw [hsame (.pull credential max now) nofun]
    exact h.pull hw.1 credential max now
  | progress d =>
    refine ⟨h.progress d, ?_⟩
    unfold Lease.step World.step
    dsimp only
    split <;> rfl
  | ack d =>
    rw [hsame (.ack d) nofun]
    refine ⟨h.ack d, ?_⟩
    unfold World.step
    dsimp only
    split <;> rfl
  | nak d =>
    rw [hsame (.nak d) nofun]
    refine ⟨h.nak hu, ?_⟩
    unfold World.step
    dsimp only
    split <;> rfl
  | drop d =>
    rw [hsame (.drop d) nofun]
    have ha := h.accounted.step (.drop d)
    exact ⟨⟨ha, h.known, h.ready, h.deadline, h.due⟩, rfl⟩
  | exhausted =>
    rw [hsame .exhausted nofun]
    have hs := h.settle hw.1
    have ha := h.accounted.exhausted
    exact ⟨⟨ha, hs.known, hs.ready, hs.deadline, hs.due⟩, rfl⟩
  | pass d =>
    rw [hsame (.pass d) nofun]
    have ha := h.accounted.step (.pass d)
    refine ⟨⟨ha, h.known, h.ready, h.deadline, ?_⟩, rfl⟩
    have := h.due
    change l.due ≤ l.world.clock + d + l.world.queue.settings.ackWait
    omega

/-- The pull that hands a message out starts the lease of it. -/
theorem start {w : World} (ha : Accounted w) {credential : String} {max now : Nat}
    (hnow : now ≤ w.clock) (hc : c ∈ (w.queue.pull credential max now).1) :
    Guarded c ⟨w.step (.pull credential max now), now + w.queue.settings.ackWait⟩ := by
  have hs := ha.settle now
  obtain ⟨taken, kept, hh⟩ := pull_handed w.queue credential max now hs.waiting_nodup
  have hsettings : (w.queue.expire now).settings = w.queue.settings := by
    rw [expire_eq ha.inflight_nodup]
  obtain ⟨e, he, rfl⟩ : ∃ e ∈ taken, e.deliver.claim = c := by
    rw [hh.claims] at hc
    exact List.mem_map.mp hc
  have hone := hh.count_taken he
  refine ⟨ha.pull credential max now, ?_, fun k hk hseq => ?_, fun f hf hseq => ?_, ?_⟩
  · rw [queue_pull w credential max hnow]
    exact hs.fresh e.item (hs.mem_queued (.inl (List.mem_map_of_mem (hh.mem_ready (.inl he)))))
  · rw [queue_pull w credential max hnow, hh.left] at hk
    have hzero := hh.count_kept hk
    rw [show k.seq = e.seq from hseq] at hzero
    omega
  · rw [queue_pull w credential max hnow] at hf
    rcases hh.mem_inflight hf with ⟨k, -, rfl⟩ | hf
    · rw [hsettings]
    · have hzero := hh.count_inflight hf
      rw [show f.entry.seq = e.seq from hseq] at hzero
      omega
  · rw [settings_step w _ ha, World.step, if_pos hnow]
    exact Nat.add_le_add_right hnow _

end Guarded

/-- The lease that a pull starts. -/
def World.lease (w : World) (credential : String) (max now : Nat) : Lease :=
  ⟨w.step (.pull credential max now), now + w.queue.settings.ackWait⟩

theorem run_lease_world (c : Claim) (l : Lease) (es : List Event) :
    (run (Lease.step c) l es).world = run World.step l.world es := by
  induction es generalizing l with
  | nil => rfl
  | cons e es ih => exact ih (l.step c e)

theorem live_worker_keeps_its_message (settings : QueueSettings) (es later : List Event)
    (w : World) (hw : w = run World.step (World.new settings) es) (credential : String)
    (max now : Nat) (hnow : now ≤ w.clock) (c : Claim)
    (hc : c ∈ (w.queue.pull credential max now).1)
    (hworking : Along (Lease.step c) (w.lease credential max now) later (Working c))
    (hstale : Along (Lease.step c) (w.lease credential max now) later (Undisturbed c)) :
    (run World.step (w.step (.pull credential max now)) later).times c.seq =
      (w.step (.pull credential max now)).times c.seq := by
  have ha : Accounted w := hw ▸ accounted_run settings es
  have hstep (l : Lease) (e : Event) (he : Working c l e ∧ Undisturbed c l e)
      (hl : Guarded c l ∧ l.world.times c.seq = (w.step (.pull credential max now)).times c.seq) :
      Guarded c (l.step c e) ∧
        (l.step c e).world.times c.seq = (w.step (.pull credential max now)).times c.seq := by
    obtain ⟨hguard, htimes⟩ := hl.1.step he.1 he.2
    exact ⟨hguard, htimes.trans hl.2⟩
  have hboth : Along (Lease.step c) (w.lease credential max now) later
      (fun l e => Working c l e ∧ Undisturbed c l e) :=
    fun pre e post he => ⟨hworking pre e post he, hstale pre e post he⟩
  have hend := (run_invariant_of_along hstep ⟨Guarded.start ha hnow hc, rfl⟩ hboth).2
  rwa [run_lease_world] at hend

instance (c : Claim) (l : Lease) (e : Event) : Decidable (Working c l e) :=
  inferInstanceAs (Decidable (_ ∧ _ ∧ _))

instance (c : Claim) (l : Lease) (e : Event) : Decidable (Undisturbed c l e) :=
  match e with
  | .nak d => inferInstanceAs (Decidable (d ∈ l.world.claims → d.seq = c.seq →
      lookup l.world.queue.inflight c.seq = none))
  | .publish .. | .pull .. | .progress _ | .ack _ | .drop _ | .exhausted | .pass _ =>
    isTrue trivial

/-- The first worker's delivery expires. -/
def expiredOnce : List Event := [.publish ghWork 0, .pull "gh" 1 0, .pass 100000000]

/-- The second worker beats its deadline twice, while the first one acks late and others pull. -/
def secondWorks : List Event :=
  [.pass 60000000, .progress (ghClaim 2), .pull "gh" 1 160000000, .pass 60000000,
    .progress (ghClaim 2), .ack (ghClaim 1), .pull "gh" 1 220000000]

theorem second_worker_keeps_its_message :
    (run World.step ((run World.step (World.new ghSettings) expiredOnce).step
      (.pull "gh" 1 100000000)) secondWorks).times 1 =
      ((run World.step (World.new ghSettings) expiredOnce).step (.pull "gh" 1 100000000)).times 1 :=
  live_worker_keeps_its_message ghSettings expiredOnce secondWorks _ rfl "gh" 1 100000000
    (by decide +kernel) (ghClaim 2) (by decide +kernel) (by decide +kernel) (by decide +kernel)

/-- The first worker's run fails after its delivery has expired: its nak takes the message from
the second worker, and the next pull hands it out a third time. -/
theorem stale_nak_takes_the_message : ¬ ∀ (settings : QueueSettings) (es later : List Event)
    (w : World), w = run World.step (World.new settings) es → ∀ (credential : String)
    (max now : Nat), now ≤ w.clock → ∀ c ∈ (w.queue.pull credential max now).1,
    Along (Lease.step c) (w.lease credential max now) later (Working c) →
    (run World.step (w.step (.pull credential max now)) later).times c.seq =
      (w.step (.pull credential max now)).times c.seq := by
  intro h
  have hsame := h ghSettings expiredOnce [.nak (ghClaim 1), .pull "gh" 1 100000000] _ rfl "gh" 1
    100000000 (by decide +kernel) (ghClaim 2) (by decide +kernel) (by decide +kernel)
  revert hsame
  decide +kernel

end Lease

end PangeaOperator.LeafQueue
