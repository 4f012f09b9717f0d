import PangeaOperator.Lib.Run
import PangeaOperator.PhaseUpdate

/-!
# Runs of the pass machine

Projections of the stored status interleaved with phase entries, each reading the
document the step before left and merging its patch into it. The theorem at the end
says when a run never loses a generation.
-/

namespace PangeaOperator

open Json

structure Projection where
  live : Int
  now : Time
  incarnation : String
  deriving DecidableEq, Repr

inductive PassEvent where
  | project (q : Projection)
  | updatePhase (phase : Phase) (o : Observed)
  | updatePhaseWithError (phase : Phase) (error : String) (o : Observed)
  | beginPass (kind : Phase) (o : Observed)
  deriving DecidableEq, Repr

/-- A phase entry on a document that does not read writes nothing. -/
def enterPhase (stored : Doc) (body : Status → Doc) : Doc :=
  match Status.read stored with
  | none => stored
  | some s => patchStatus stored (body s)

def passStep (deadlines : Deadlines) (stored : Doc) : PassEvent → Doc
  | .project q => project stored q.live q.now deadlines q.incarnation
  | .updatePhase phase o => enterPhase stored (fun s => updatePhase s phase o)
  | .updatePhaseWithError phase error o =>
    enterPhase stored (fun s => updatePhaseWithError s phase error o)
  | .beginPass kind o => enterPhase stored (fun s => beginPass s kind o)

/-- The typed status after an event. -/
def passNext (deadlines : Deadlines) (s : Status) : PassEvent → Status
  | .project q =>
    projected s (projectStatus s q.live q.now deadlines q.incarnation) q.incarnation
  | .updatePhase phase o => updatedPhase s phase o
  | .updatePhaseWithError phase error o => updatedPhaseWithError s phase error o
  | .beginPass kind o =>
    { s with
      pass := some ((begunPass s kind o).toStatus o.incarnation)
      generationLagSince := (begunPass s kind o).lagSince }

theorem read_passStep {stored : Doc} {s : Status} (hs : Status.read stored = some s)
    (deadlines : Deadlines) (e : PassEvent) :
    Status.read (passStep deadlines stored e) = some (passNext deadlines s e) := by
  cases e with
  | project q => exact read_project hs q.live q.now deadlines q.incarnation
  | updatePhase phase o =>
    simp only [passStep, enterPhase, hs]
    exact read_updatePhase hs phase o
  | updatePhaseWithError phase error o =>
    simp only [passStep, enterPhase, hs]
    exact read_updatePhaseWithError hs phase error o
  | beginPass kind o =>
    simp only [passStep, enterPhase, hs]
    exact read_beginPass hs kind o

/-- The document of a run always reads as the typed run. -/
theorem read_run {stored : Doc} {s : Status} (hs : Status.read stored = some s)
    (deadlines : Deadlines) (es : List PassEvent) :
    Status.read (run (passStep deadlines) stored es) = some (run (passNext deadlines) s es) := by
  induction es generalizing stored s with
  | nil => exact hs
  | cons e es ih => exact ih (read_passStep hs deadlines e)

/-- The pass an event computes before it is written. -/
def eventPass (deadlines : Deadlines) (s : Status) : PassEvent → PassPhase
  | .project q => projectedPass s q.live q.now deadlines q.incarnation
  | .updatePhase phase o => enteredPass s phase none o
  | .updatePhaseWithError phase error o => enteredPass s phase (some error) o
  | .beginPass kind o => begunPass s kind o

/-- The stored record holds this pass as far as generations go. -/
structure Records (p : PassStatus) (pass : PassPhase) : Prop where
  kind : p.kind = pass.kind
  generation : p.generation = pass.generation
  queuedGeneration : p.queuedGeneration = pass.queued.map Queued.generation
  queuedSince : p.queuedSince = pass.queued.map Queued.since

theorem records_toStatus (pass : PassPhase) (incarnation : String) :
    Records (pass.toStatus incarnation) pass := by
  cases pass <;> exact ⟨rfl, rfl, rfl, rfl⟩

theorem records_mergedPass (stored : Option PassStatus) {new : PassStatus} {pass : PassPhase}
    (h : Records new pass) : Records (mergedPass stored new) pass := by
  cases stored with
  | none => exact h
  | some old =>
    simp only [mergedPass]
    split
    · next hk => exact ⟨hk.trans h.kind, h.generation, h.queuedGeneration, h.queuedSince⟩
    · exact h

/-- Every event leaves a record of the pass it computed. -/
theorem passNext_records (deadlines : Deadlines) (s : Status) (e : PassEvent) :
    ∃ p, (passNext deadlines s e).pass = some p ∧ Records p (eventPass deadlines s e) := by
  cases e with
  | project q => exact ⟨_, rfl, records_mergedPass s.pass (records_toStatus _ _)⟩
  | updatePhase phase o => exact ⟨_, rfl, records_toStatus _ _⟩
  | updatePhaseWithError phase error o => exact ⟨_, rfl, records_toStatus _ _⟩
  | beginPass kind o => exact ⟨_, rfl, records_toStatus _ _⟩

/-- A queue slot that holds something holds a generation beyond the pass. -/
def QueueBeyond (p : PassPhase) : Prop := ∀ q, p.queued = some q → p.generation < q.generation

theorem observe_queueBeyond (live : Int) (now : Time) (p : PassPhase) :
    QueueBeyond (p.observe live now) := by
  intro q hq
  unfold PassPhase.observe at hq ⊢
  split at hq
  · next hl =>
    rw [if_pos hl]
    cases p with
    | planning g startedAt heartbeat queued =>
      exact of_decide_eq_true (Option.filter_eq_some_iff.mp hq).2
    | applying g startedAt heartbeat queued =>
      exact of_decide_eq_true (Option.filter_eq_some_iff.mp hq).2
    | _ => simp [PassPhase.queued] at hq
  · next hl =>
    rw [if_neg hl]
    rw [not_le] at hl
    cases p with
    | planning g startedAt heartbeat queued =>
      cases hq
      exact hl
    | applying g startedAt heartbeat queued =>
      cases hq
      exact hl
    | _ => simp [PassPhase.queued] at hq

/-- The watchdog keeps a pass or replaces it by a stalled one. -/
theorem watchdog_eq_or_stalled (now : Time) (deadlines : Deadlines) (p : PassPhase) :
    p.watchdog now deadlines = p ∨ (p.watchdog now deadlines).kind = .stalled := by
  cases p with
  | planning g startedAt heartbeat queued =>
    simp only [PassPhase.watchdog, PassPhase.watchActive]
    split
    · exact .inr rfl
    · split
      · exact .inr rfl
      · split
        · exact .inr rfl
        · exact .inl rfl
  | applying g startedAt heartbeat queued =>
    simp only [PassPhase.watchdog, PassPhase.watchActive]
    split
    · exact .inr rfl
    · split
      · exact .inr rfl
      · split
        · exact .inr rfl
        · exact .inl rfl
  | pending g since =>
    simp only [PassPhase.watchdog]
    split
    · exact .inr rfl
    · exact .inl rfl
  | _ => exact .inl rfl

theorem namedStall_eq_or_stalled (s : Status) (p : PassPhase) (now : Time) (deadlines : Deadlines)
    (incarnation : String) :
    namedStall s p now deadlines incarnation = p ∨
      (namedStall s p now deadlines incarnation).kind = .stalled := by
  have active (heartbeat : Time) :
      namedStallActive s p heartbeat now deadlines incarnation = p ∨
        (namedStallActive s p heartbeat now deadlines incarnation).kind = .stalled := by
    unfold namedStallActive
    dsimp only
    split
    · exact .inr rfl
    · split
      · split
        · exact .inr rfl
        · exact .inl rfl
      · exact .inl rfl
  cases p with
  | planning g startedAt heartbeat queued => exact active heartbeat
  | applying g startedAt heartbeat queued => exact active heartbeat
  | _ => exact .inl rfl

theorem queued_of_kind_stalled {p : PassPhase} (h : p.kind = .stalled) : p.queued = none := by
  cases p <;> simp_all [PassPhase.kind, PassPhase.queued]

theorem eventPass_queueBeyond (deadlines : Deadlines) (s : Status) (e : PassEvent) :
    QueueBeyond (eventPass deadlines s e) := by
  cases e with
  | project q =>
    simp only [eventPass, projectedPass]
    rcases watchdog_eq_or_stalled q.now deadlines
      ((namedStall s (s.storedPass q.now) q.now deadlines q.incarnation).observe q.live q.now)
      with h | h
    · rw [h]
      exact observe_queueBeyond _ _ _
    · intro e he
      rw [queued_of_kind_stalled h] at he
      simp at he
  | updatePhase phase o => exact observe_queueBeyond _ _ _
  | updatePhaseWithError phase error o => exact observe_queueBeyond _ _ _
  | beginPass kind o => exact observe_queueBeyond _ _ _

/-- The pass is for this generation or a later one, or it has queued exactly this one. -/
def Covers (p : PassPhase) (live : Int) : Prop :=
  live ≤ p.generation ∨ p.queued.map Queued.generation = some live

/-- The state in which a projection lets the backstop expire an active pass although a newer
generation waits behind it: no named stall applies, and neither the heartbeat nor the queue
deadline has passed. -/
def BackstopDrops (s : Status) (deadlines : Deadlines) (q : Projection) : Prop :=
  match s.storedPass q.now with
  | .planning g startedAt heartbeat queued | .applying g startedAt heartbeat queued =>
    namedStall s (s.storedPass q.now) q.now deadlines q.incarnation = s.storedPass q.now ∧
      g < q.live ∧ q.now - heartbeat ≤ deadlines.heartbeat ∧
      q.now - (queued.map Queued.since).getD q.now ≤ deadlines.pendingStart ∧
      deadlines.backstop < q.now - startedAt
  | _ => False

section Watchdog

variable {label : String} {g live : Int} {startedAt heartbeat now : Time} {deadlines : Deadlines}
  {p : PassPhase}

theorem watchActive_covers_reached {queued : Option Queued} (hg : live ≤ g)
    (hp : p.generation = g) (hq : ∀ q, queued = some q → g < q.generation) :
    Covers (PassPhase.watchActive label g startedAt heartbeat queued now deadlines p) live := by
  refine .inl ?_
  unfold PassPhase.watchActive
  split
  · cases queued with
    | none => exact hg
    | some q => exact hg.trans (hq q rfl).le
  · dsimp only
    split
    · next q hb =>
      exact hg.trans (hq q (Option.filter_eq_some_iff.mp hb).1).le
    · split
      · exact hg
      · exact hp ▸ hg

theorem watchActive_covers_beyond {since : Time} (hg : g < live)
    (hq : p.queued = some ⟨live, since⟩) :
    Covers (PassPhase.watchActive label g startedAt heartbeat (some ⟨live, since⟩) now deadlines p)
        live ↔
      ¬(now - heartbeat ≤ deadlines.heartbeat ∧ now - since ≤ deadlines.pendingStart ∧
        deadlines.backstop < now - startedAt) := by
  unfold PassPhase.watchActive
  split
  · next hh => exact iff_of_true (.inl le_rfl) (fun h => absurd h.1 (not_le.mpr hh))
  · next hh =>
    dsimp only
    split
    · next q hb =>
      obtain ⟨he, hlate⟩ := Option.filter_eq_some_iff.mp hb
      cases he
      exact iff_of_true (.inl le_rfl)
        (fun h => absurd h.2.1 (not_le.mpr (of_decide_eq_true hlate)))
    · next hb =>
      have hs : now - since ≤ deadlines.pendingStart := by
        by_contra hlate
        rw [Option.filter_eq_none_iff] at hb
        exact hb _ rfl (decide_eq_true (not_le.mp hlate))
      split
      · next hlong =>
        refine iff_of_false ?_ (fun h => h ⟨not_lt.mp hh, hs, hlong⟩)
        rintro (hc | hc)
        · exact absurd hc (not_le.mpr hg)
        · simp [PassPhase.queued] at hc
      · next hlong =>
        refine iff_of_true (.inr ?_) (fun h => hlong h.2.2)
        rw [hq]
        rfl

/-- Both kinds of active pass, as what they become on either side of the live generation. -/
theorem active_covers_iff (mk : Option Queued → PassPhase) (hg : ∀ q, (mk q).generation = g)
    (hq : ∀ q, (mk q).queued = q) (queued : Option Queued) :
    Covers
        (if live ≤ g then
          PassPhase.watchActive label g startedAt heartbeat (PassPhase.keepQueue g queued) now
            deadlines (mk (PassPhase.keepQueue g queued))
        else
          PassPhase.watchActive label g startedAt heartbeat
            (PassPhase.joinQueue live now queued) now
            deadlines (mk (PassPhase.joinQueue live now queued))) live ↔
      ¬(g < live ∧ now - heartbeat ≤ deadlines.heartbeat ∧
        now - (queued.map Queued.since).getD now ≤ deadlines.pendingStart ∧
        deadlines.backstop < now - startedAt) := by
  split
  · next hl =>
    refine iff_of_true (watchActive_covers_reached hl (hg _) ?_)
      (fun h => absurd hl (not_le.mpr h.1))
    intro e he
    exact of_decide_eq_true (Option.filter_eq_some_iff.mp he).2
  · next hl =>
    refine (watchActive_covers_beyond (not_le.mp hl) (hq _)).trans (not_congr ?_)
    simp only [not_le.mp hl, true_and]

end Watchdog

theorem observe_covers_of_not_active {p : PassPhase} (h : p.kind ≠ .planning ∧ p.kind ≠ .applying)
    (live : Int) (now : Time) (deadlines : Deadlines) :
    Covers ((p.observe live now).watchdog now deadlines) live := by
  have hobs : live ≤ (p.observe live now).generation ∧
      (p.observe live now).kind ≠ .planning ∧ (p.observe live now).kind ≠ .applying := by
    unfold PassPhase.observe
    split
    · cases p <;> simp_all [PassPhase.kind]
    · cases p <;> simp_all [PassPhase.kind, PassPhase.generation]
  obtain ⟨hle, hpl, hap⟩ := hobs
  refine .inl ?_
  cases hp : p.observe live now with
  | planning g startedAt heartbeat queued => simp [hp, PassPhase.kind] at hpl
  | applying g startedAt heartbeat queued => simp [hp, PassPhase.kind] at hap
  | pending g since =>
    rw [hp] at hle
    simp only [PassPhase.watchdog]
    split <;> exact hle
  | _ =>
    rw [hp] at hle
    exact hle

theorem stalled_not_active {p : PassPhase} (h : p.kind = .stalled) :
    p.kind ≠ .planning ∧ p.kind ≠ .applying := by
  rw [h]
  decide

/-- A projection covers the live generation except in the one state of the backstop. -/
theorem projectedPass_covers_iff (s : Status) (deadlines : Deadlines) (q : Projection) :
    Covers (projectedPass s q.live q.now deadlines q.incarnation) q.live ↔
      ¬BackstopDrops s deadlines q := by
  unfold projectedPass BackstopDrops
  rcases namedStall_eq_or_stalled s (s.storedPass q.now) q.now deadlines q.incarnation with hn | hn
  · rw [hn]
    cases s.storedPass q.now with
    | planning g startedAt heartbeat queued =>
      rw [PassPhase.observe_planning, apply_ite (PassPhase.watchdog q.now deadlines)]
      simp only [true_and]
      exact active_covers_iff (.planning g startedAt heartbeat) (fun _ => rfl) (fun _ => rfl) queued
    | applying g startedAt heartbeat queued =>
      rw [PassPhase.observe_applying, apply_ite (PassPhase.watchdog q.now deadlines)]
      simp only [true_and]
      exact active_covers_iff (.applying g startedAt heartbeat) (fun _ => rfl) (fun _ => rfl) queued
    | _ =>
      refine iff_of_true (observe_covers_of_not_active ?_ _ _ _) id
      simp [PassPhase.kind]
  · refine iff_of_true (observe_covers_of_not_active (stalled_not_active hn) _ _ _) (fun h => ?_)
    cases hp : s.storedPass q.now with
    | planning g startedAt heartbeat queued =>
      rw [hp] at h hn
      rw [h.1] at hn
      simp [PassPhase.kind] at hn
    | applying g startedAt heartbeat queued =>
      rw [hp] at h hn
      rw [h.1] at hn
      simp [PassPhase.kind] at hn
    | _ => simp [hp] at h

/-- A pass at work: the only kind with a queue slot. -/
def PassKind.Active (k : PassKind) : Prop := k = .planning ∨ k = .applying

theorem PassKind.not_active_stalled : ¬PassKind.Active .stalled := by
  rintro (h | h) <;> cases h

/-- An active pass after a projection is the stored one, with the queue slot brought up to date. -/
theorem projectedPass_of_active {s : Status} {deadlines : Deadlines} {q : Projection}
    (h : (projectedPass s q.live q.now deadlines q.incarnation).kind.Active) :
    (s.storedPass q.now).kind.Active ∧
      (projectedPass s q.live q.now deadlines q.incarnation).generation =
        (s.storedPass q.now).generation ∧
      (projectedPass s q.live q.now deadlines q.incarnation).queued =
        if q.live ≤ (s.storedPass q.now).generation then
          PassPhase.keepQueue (s.storedPass q.now).generation (s.storedPass q.now).queued
        else PassPhase.joinQueue q.live q.now (s.storedPass q.now).queued := by
  unfold projectedPass at h ⊢
  rcases watchdog_eq_or_stalled q.now deadlines
    ((namedStall s (s.storedPass q.now) q.now deadlines q.incarnation).observe q.live q.now)
    with hw | hw
  · rw [hw] at h ⊢
    rcases namedStall_eq_or_stalled s (s.storedPass q.now) q.now deadlines q.incarnation
      with hn | hn
    · rw [hn] at h ⊢
      cases hp : s.storedPass q.now with
      | planning g startedAt heartbeat queued =>
        rw [PassPhase.observe_planning]
        by_cases hl : q.live ≤ g
        · rw [if_pos hl]
          exact ⟨.inl rfl, rfl, (if_pos hl).symm⟩
        · rw [if_neg hl]
          exact ⟨.inl rfl, rfl, (if_neg hl).symm⟩
      | applying g startedAt heartbeat queued =>
        rw [PassPhase.observe_applying]
        by_cases hl : q.live ≤ g
        · rw [if_pos hl]
          exact ⟨.inr rfl, rfl, (if_pos hl).symm⟩
        · rw [if_neg hl]
          exact ⟨.inr rfl, rfl, (if_neg hl).symm⟩
      | _ =>
        rw [hp] at h
        unfold PassPhase.observe at h
        split at h <;> rcases h with h | h <;> cases h
    · exfalso
      generalize namedStall s (s.storedPass q.now) q.now deadlines q.incarnation = n at h hn
      cases n <;> simp only [PassPhase.kind, reduceCtorEq] at hn
      unfold PassPhase.observe at h
      split at h <;> exact PassKind.not_active_stalled h
  · rw [hw] at h
    exact absurd h PassKind.not_active_stalled

/-- Reading a record gives back the pass it holds. -/
theorem fromStatus_of_records {p : PassStatus} {pass : PassPhase} (h : Records p pass)
    (now : Time) :
    (PassPhase.fromStatus p now).kind = pass.kind ∧
      (PassPhase.fromStatus p now).generation = pass.generation ∧
      (PassPhase.fromStatus p now).queued = pass.queued := by
  obtain ⟨kind, generation, since, heartbeatAt, reason, queuedGeneration, queuedSince, stall,
    incarnation⟩ := p
  obtain ⟨hk, hg, hq, hs⟩ := h
  simp only at hk hg hq hs
  subst hk hg hq hs
  cases pass with
  | planning g startedAt heartbeat queued => cases queued <;> exact ⟨rfl, rfl, rfl⟩
  | applying g startedAt heartbeat queued => cases queued <;> exact ⟨rfl, rfl, rfl⟩
  | _ => exact ⟨rfl, rfl, rfl⟩

/-- When the first of these projections sees a generation beyond `g`. -/
def firstBeyond (g : Int) (qs : List Projection) : Option Time :=
  (qs.find? (fun q => g < q.live)).map Projection.now

theorem since_keepQueue_or {p : PassPhase} (hb : QueueBeyond p) (q : Projection)
    (qs : List Projection) :
    Option.or
        ((if q.live ≤ p.generation then PassPhase.keepQueue p.generation p.queued
          else PassPhase.joinQueue q.live q.now p.queued).map Queued.since)
        (firstBeyond p.generation qs) =
      (p.queued.map Queued.since).or (firstBeyond p.generation (q :: qs)) := by
  have hkeep : PassPhase.keepQueue p.generation p.queued = p.queued := by
    cases hq : p.queued with
    | none => rfl
    | some e => exact Option.filter_eq_some_iff.mpr ⟨rfl, decide_eq_true (hb e hq)⟩
  by_cases hl : q.live ≤ p.generation
  · rw [if_pos hl, hkeep]
    simp [firstBeyond, hl]
  · rw [if_neg hl]
    cases p.queued <;> simp [PassPhase.joinQueue, firstBeyond, not_le.mp hl]

theorem queue_since_of_projections (deadlines : Deadlines) (s : Status) (q : Projection)
    (qs : List Projection) :
    ∃ p, (run (passNext deadlines) s ((q :: qs).map .project)).pass = some p ∧
      (QueueBeyond (s.storedPass q.now) → p.kind.Active → (s.storedPass q.now).kind.Active ∧
        p.generation = (s.storedPass q.now).generation ∧
        p.queuedSince = ((s.storedPass q.now).queued.map Queued.since).or
          (firstBeyond (s.storedPass q.now).generation (q :: qs))) := by
  induction qs generalizing s q with
  | nil =>
    obtain ⟨p, hp, hr⟩ := passNext_records deadlines s (.project q)
    refine ⟨p, hp, fun hb ha => ?_⟩
    obtain ⟨hact, hgen, hqueue⟩ := projectedPass_of_active (hr.kind ▸ ha)
    refine ⟨hact, hr.generation.trans hgen, ?_⟩
    rw [← since_keepQueue_or hb q [], ← hqueue, hr.queuedSince]
    simp [firstBeyond, eventPass]
  | cons q' qs ih =>
    obtain ⟨p, hp, hr⟩ := passNext_records deadlines s (.project q)
    have hstored : (passNext deadlines s (.project q)).storedPass q'.now =
        PassPhase.fromStatus p q'.now := by
      rw [Status.storedPass, hp]
    obtain ⟨hk, hg, hq⟩ := fromStatus_of_records hr q'.now
    have hbeyond : QueueBeyond ((passNext deadlines s (.project q)).storedPass q'.now) := by
      intro e he
      rw [hstored] at he ⊢
      rw [hg]
      exact eventPass_queueBeyond deadlines s (.project q) e (hq ▸ he)
    obtain ⟨r, hrun, hlast⟩ := ih (passNext deadlines s (.project q)) q'
    refine ⟨r, hrun, fun hb ha => ?_⟩
    obtain ⟨hact, hgen, hsince⟩ := hlast hbeyond ha
    rw [hstored] at hact hgen hsince
    obtain ⟨hact', hgen', hqueue⟩ := projectedPass_of_active (hk ▸ hact)
    have hg' : (PassPhase.fromStatus p q'.now).generation = (s.storedPass q.now).generation :=
      hg.trans hgen'
    have hq' := hq.trans hqueue
    refine ⟨hact', hgen.trans hg', ?_⟩
    rw [← since_keepQueue_or hb q (q' :: qs), ← hq', ← hg', ← hsince]

theorem observedGeneration_cases (p : PassPhase) (previous : Int) :
    p.observedGeneration previous = previous ∨
      previous < p.observedGeneration previous ∧ p.observedGeneration previous = p.generation ∧
        (p.kind = .settled ∨ ∃ g reason, p = .failed g reason ∧ reason ≠ "") := by
  cases p with
  | settled g =>
    rcases le_or_gt g previous with h | h
    · exact .inl (max_eq_left h)
    · exact .inr ⟨lt_max_of_lt_right h, max_eq_right h.le, .inl rfl⟩
  | failed g reason =>
    simp only [PassPhase.observedGeneration]
    split
    · next hr =>
      rcases le_or_gt g previous with h | h
      · exact .inl (max_eq_left h)
      · exact .inr ⟨lt_max_of_lt_right h, max_eq_right h.le, .inr ⟨g, reason, rfl, hr⟩⟩
    · exact .inl rfl
  | _ => exact .inl rfl

theorem passNext_observedGeneration (deadlines : Deadlines) (s : Status) (e : PassEvent) :
    (passNext deadlines s e).observedGeneration = s.observedGeneration ∨
      (passNext deadlines s e).observedGeneration =
        (eventPass deadlines s e).observedGeneration s.observedGeneration := by
  cases e with
  | beginPass kind o => exact .inl rfl
  | _ => exact .inr rfl

/-- A projection that ends in a failed pass found it failed, for the same reason. -/
theorem storedPass_of_projected_failed {s : Status} {deadlines : Deadlines} {q : Projection}
    {g : Int} {reason : String}
    (h : projectedPass s q.live q.now deadlines q.incarnation = .failed g reason) :
    s.storedPass q.now = .failed g reason := by
  unfold projectedPass at h
  rcases watchdog_eq_or_stalled q.now deadlines
    ((namedStall s (s.storedPass q.now) q.now deadlines q.incarnation).observe q.live q.now)
    with hw | hw
  · rw [hw] at h
    rcases namedStall_eq_or_stalled s (s.storedPass q.now) q.now deadlines q.incarnation
      with hn | hn
    · rw [hn] at h
      unfold PassPhase.observe at h
      split at h
      · cases hp : s.storedPass q.now <;> rw [hp] at h <;> simp_all
      · cases hp : s.storedPass q.now <;> rw [hp] at h <;> simp at h
    · exfalso
      generalize namedStall s (s.storedPass q.now) q.now deadlines q.incarnation = n at h hn
      cases n <;> simp only [PassPhase.kind, reduceCtorEq] at hn
      unfold PassPhase.observe at h
      split at h <;> simp at h
  · rw [h] at hw
    simp [PassPhase.kind] at hw

theorem fromStatus_failed_reason {p : PassStatus} {now : Time} {g : Int} {reason : String}
    (h : PassPhase.fromStatus p now = .failed g reason) (hr : reason ≠ "") :
    p.kind = .failed ∧ p.reason = some reason := by
  unfold PassPhase.fromStatus at h
  cases hk : p.kind <;> simp only [hk, reduceCtorEq, PassPhase.failed.injEq] at h
  refine ⟨rfl, ?_⟩
  cases hp : p.reason with
  | none =>
    rw [hp] at h
    exact absurd h.2.symm hr
  | some r =>
    rw [hp] at h
    exact congrArg some h.2

theorem passNext_reason {deadlines : Deadlines} {s : Status} {e : PassEvent} {g : Int}
    {reason : String} (h : eventPass deadlines s e = .failed g reason) (hr : reason ≠ "")
    {p : PassStatus} (hp : (passNext deadlines s e).pass = some p) : p.reason = some reason := by
  cases e with
  | project q =>
    have hstored := storedPass_of_projected_failed h
    have hnew : (projectStatus s q.live q.now deadlines q.incarnation).pass = .failed g reason := h
    simp only [passNext, projected, hnew, Option.some.injEq] at hp
    cases hold : s.pass with
    | none =>
      rw [hold] at hp
      rw [← hp]
      rfl
    | some old =>
      rw [Status.storedPass, hold] at hstored
      obtain ⟨hk, hreason⟩ := fromStatus_failed_reason hstored hr
      rw [hold, mergedPass, if_pos (by rw [hk]; rfl)] at hp
      rw [← hp]
      exact hreason
  | updatePhase phase o =>
    simp only [passNext, updatedPhase, enteredStatus, Option.some.injEq] at hp
    rw [← hp, show enteredPass s phase none o = .failed g reason from h]
    rfl
  | updatePhaseWithError phase error o =>
    simp only [passNext, updatedPhaseWithError, enteredStatus, Option.some.injEq] at hp
    rw [← hp, show enteredPass s phase (some error) o = .failed g reason from h]
    rfl
  | beginPass kind o =>
    simp only [passNext, Option.some.injEq] at hp
    rw [← hp, show begunPass s kind o = .failed g reason from h]
    rfl

/-- `observedGeneration` never falls, and rises only to the generation of a pass that ended. -/
def ObservedRises (t u : Status) : Prop :=
  t.observedGeneration ≤ u.observedGeneration ∧
    (t.observedGeneration < u.observedGeneration → ∃ p, u.pass = some p ∧
      p.generation = u.observedGeneration ∧
      (p.kind = .settled ∨ p.kind = .failed ∧ ∃ reason, p.reason = some reason ∧ reason ≠ ""))

theorem observedRises_passNext (deadlines : Deadlines) (s : Status) (e : PassEvent) :
    ObservedRises s (passNext deadlines s e) := by
  rcases passNext_observedGeneration deadlines s e with h | h
  · exact ⟨h.ge, fun hlt => absurd h (ne_of_gt hlt)⟩
  · rcases observedGeneration_cases (eventPass deadlines s e) s.observedGeneration
      with hc | ⟨hlt, hgen, hkind⟩
    · rw [hc] at h
      exact ⟨h.ge, fun hlt => absurd h (ne_of_gt hlt)⟩
    · obtain ⟨p, hp, hr⟩ := passNext_records deadlines s e
      refine ⟨h ▸ hlt.le, fun _ => ⟨p, hp, by rw [hr.generation, h, hgen], ?_⟩⟩
      rcases hkind with hk | ⟨g, reason, hf, hne⟩
      · exact .inl (hr.kind.trans hk)
      · exact .inr ⟨by rw [hr.kind, hf]; rfl, reason, passNext_reason hf hne hp, hne⟩

/-- What a run of the pass machine has to keep: the live generation of every projection is
covered, a queue entry keeps the time it was first seen, and the observed generation rises
only to passes that ended. -/
structure NoGenerationLost (deadlines : Deadlines) (s : Status) (es : List PassEvent) : Prop where
  covers : Along (passStep deadlines) s.toJson es (fun stored e => ∀ q, e = .project q →
    ∃ u p, Status.read (passStep deadlines stored e) = some u ∧ u.pass = some p ∧
      (q.live ≤ p.generation ∨ p.queuedGeneration = some q.live))
  since : ∀ pre q qs post, es = pre ++ ((q :: qs).map .project ++ post) →
    ∃ t u p, Status.read (run (passStep deadlines) s.toJson pre) = some t ∧
      Status.read (run (passStep deadlines) s.toJson (pre ++ (q :: qs).map .project)) = some u ∧
      u.pass = some p ∧ ((pre = [] → QueueBeyond (t.storedPass q.now)) → p.kind.Active →
        p.generation = (t.storedPass q.now).generation ∧
        p.queuedSince = ((t.storedPass q.now).queued.map Queued.since).or
          (firstBeyond (t.storedPass q.now).generation (q :: qs)))
  observed : Along (passStep deadlines) s.toJson es (fun stored e => ∃ t u,
    Status.read stored = some t ∧ Status.read (passStep deadlines stored e) = some u ∧
      ObservedRises t u)

theorem reads_passStep (deadlines : Deadlines) (stored : Doc) (e : PassEvent)
    (h : Reads stored) : Reads (passStep deadlines stored e) := by
  obtain ⟨s, hs⟩ := h
  exact ⟨_, read_passStep hs deadlines e⟩

theorem covers_iff_of_read {deadlines : Deadlines} {stored : Doc} {t : Status}
    (ht : Status.read stored = some t) (q : Projection) :
    (∃ u p, Status.read (passStep deadlines stored (.project q)) = some u ∧ u.pass = some p ∧
      (q.live ≤ p.generation ∨ p.queuedGeneration = some q.live)) ↔
      ¬BackstopDrops t deadlines q := by
  rw [← projectedPass_covers_iff, read_passStep ht]
  obtain ⟨p, hp, hr⟩ := passNext_records deadlines t (.project q)
  constructor
  · rintro ⟨u, p', hu, hp', hc⟩
    cases hu
    rw [hp] at hp'
    cases hp'
    rwa [hr.generation, hr.queuedGeneration] at hc
  · intro hc
    refine ⟨_, p, rfl, hp, ?_⟩
    rwa [hr.generation, hr.queuedGeneration]

theorem storedPass_queueBeyond_of_run (deadlines : Deadlines) (s : Status) (pre : List PassEvent)
    (hpre : pre ≠ []) (now : Time) :
    QueueBeyond ((run (passNext deadlines) s pre).storedPass now) := by
  obtain ⟨init, e, rfl⟩ := (List.eq_nil_or_concat' pre).resolve_left hpre
  rw [run_append, run_cons, run_nil]
  obtain ⟨p, hp, hr⟩ := passNext_records deadlines (run (passNext deadlines) s init) e
  obtain ⟨_, hg, hq⟩ := fromStatus_of_records hr now
  rw [Status.storedPass, hp]
  intro b hb
  rw [hg]
  exact eventPass_queueBeyond deadlines _ e b (hq ▸ hb)

theorem covers_along_iff (deadlines : Deadlines) (s : Status) (es : List PassEvent) :
    Along (passStep deadlines) s.toJson es (fun stored e => ∀ q, e = .project q →
        ∃ u p, Status.read (passStep deadlines stored e) = some u ∧ u.pass = some p ∧
          (q.live ≤ p.generation ∨ p.queuedGeneration = some q.live)) ↔
      Along (passStep deadlines) s.toJson es (fun stored e => ∀ q t, e = .project q →
        Status.read stored = some t → ¬BackstopDrops t deadlines q) := by
  refine along_congr (reads_passStep deadlines) ?_ ⟨s, s.read_toJson⟩ es
  rintro stored e ⟨t, ht⟩
  constructor
  · rintro hc q t' rfl ht'
    rw [ht] at ht'
    cases ht'
    exact (covers_iff_of_read ht q).mp (hc q rfl)
  · rintro hc q rfl
    exact (covers_iff_of_read ht q).mpr (hc q t rfl ht)

/-- A run keeps every generation exactly when none of its projections reaches the backstop
with a newer generation waiting. -/
theorem no_generation_lost_iff (deadlines : Deadlines) (s : Status) (es : List PassEvent) :
    NoGenerationLost deadlines s es ↔
      Along (passStep deadlines) s.toJson es (fun stored e => ∀ q t, e = .project q →
        Status.read stored = some t → ¬BackstopDrops t deadlines q) := by
  rw [← covers_along_iff]
  constructor
  · intro h
    exact h.covers
  · intro h
    refine ⟨h, ?_, ?_⟩
    · intro pre q qs post _
      have hpre := read_run s.read_toJson deadlines pre
      have hseg := read_run s.read_toJson deadlines (pre ++ (q :: qs).map .project)
      obtain ⟨p, hp, hsince⟩ :=
        queue_since_of_projections deadlines (run (passNext deadlines) s pre) q qs
      rw [← run_append] at hp
      refine ⟨_, _, p, hpre, hseg, hp, fun hb ha => (hsince ?_ ha).2⟩
      by_cases hnil : pre = []
      · exact hb hnil
      · exact storedPass_queueBeyond_of_run deadlines s pre hnil q.now
    · refine along_of_invariant (reads_passStep deadlines) ?_ ⟨s, s.read_toJson⟩ es
      rintro stored e ⟨t, ht⟩
      exact ⟨t, _, ht, read_passStep ht deadlines e, observedRises_passNext deadlines t e⟩

/-- An apply of generation 1, two hours old, its heartbeat a second ago. -/
def longApply : Status :=
  { pass := some {
      kind := .applying
      generation := 1
      since := some 0
      heartbeatAt := some (seconds 7200)
      reason := none
      queuedGeneration := none
      queuedSince := none
      stall := none
      incarnation := some "operator" } }

/-- Generation 2 arrives as the backstop expires: it is neither the pass's nor queued. -/
theorem long_apply_loses_generation :
    ¬NoGenerationLost {} longApply [.project ⟨2, seconds 7201, "operator"⟩] := by
  intro h
  have hc := h.covers [] _ [] rfl _ rfl
  rw [run_nil, covers_iff_of_read longApply.read_toJson] at hc
  exact hc ⟨by rfl, by decide, by decide, by decide, by decide⟩

end PangeaOperator
