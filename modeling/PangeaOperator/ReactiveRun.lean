import PangeaOperator.ReactiveStore

/-!
# Runs of the reactive stage

The stage runs after every reconcile, on the status it finds. Its event is debounced by the
reason that an earlier run recorded, its patch by a diff against the recorded fields; an
escalation records its own time and its message counts seconds, so under a moving clock the
diff is empty only for a healthy template.
-/

namespace PangeaOperator

open Json

section Diff

/-- The diff field by field. -/
structure Unchanged (prior : Status) (w : ReactiveWrite) : Prop where
  conditions : List.Forall₂ (fun p n => sameCondition p n = true) prior.conditions w.conditions
  verifiedBlockedSince : prior.verifiedBlockedSince = w.verifiedBlockedSince
  autoSuspended : prior.autoSuspended = w.autoSuspended
  lastEscalatedAt : prior.lastEscalatedAt = w.lastEscalatedAt
  lastEscalationReason : prior.lastEscalationReason = w.lastEscalationReason
  applyCursorCount : prior.applyCursorCount = w.applyCursorCount
  applyCursorAdvancedAt : prior.applyCursorAdvancedAt = w.applyCursorAdvancedAt

theorem unchanged_iff (prior : Status) (w : ReactiveWrite) :
    reactivePolicyStatusUnchanged prior w = true ↔ Unchanged prior w := by
  have hconditions : (prior.conditions.length = w.conditions.length ∧
      ∀ c ∈ prior.conditions.zip w.conditions, sameCondition c.1 c.2 = true) ↔
      List.Forall₂ (fun p n => sameCondition p n = true) prior.conditions w.conditions := by
    rw [List.forall₂_iff_zip]
    constructor
    · intro h
      exact ⟨h.1, fun hm => h.2 _ hm⟩
    · intro h
      exact ⟨h.1, fun c hm => h.2 hm⟩
  simp only [reactivePolicyStatusUnchanged, Bool.and_eq_true, decide_eq_true_eq, List.all_eq_true,
    hconditions]
  constructor
  · rintro ⟨⟨⟨⟨⟨⟨h1, h2⟩, h3⟩, h4⟩, h5⟩, h6⟩, h7⟩
    exact ⟨h1, h2, h3, h4, h5, h6, h7⟩
  · rintro ⟨h1, h2, h3, h4, h5, h6, h7⟩
    exact ⟨⟨⟨⟨⟨⟨h1, h2⟩, h3⟩, h4⟩, h5⟩, h6⟩, h7⟩

theorem sameCondition_refl (c : Condition) : sameCondition c c = true := by simp [sameCondition]

theorem forall₂_sameCondition_refl (cs : List Condition) :
    List.Forall₂ (fun p n => sameCondition p n = true) cs cs :=
  List.forall₂_same.mpr (fun c _ => sameCondition_refl c)

theorem sameCondition_iff (p n : Condition) : sameCondition p n = true ↔
    p.type = n.type ∧ p.status = n.status ∧ p.reason = n.reason ∧ p.message = n.message ∧
      p.lastTransitionTime = n.lastTransitionTime := by
  simp only [sameCondition, Bool.and_eq_true, decide_eq_true_eq, and_assoc]

/-- A write that was just stored is no change. -/
theorem unchanged_into (w : ReactiveWrite) (t : Status) : Unchanged (w.into t) w :=
  ⟨forall₂_sameCondition_refl _, rfl, rfl, rfl, rfl, rfl, rfl⟩

end Diff

section After

variable {snapshot : Option Status} {i : ReactiveInput}

/-- What a run whose patch is taken does to a record. -/
theorem reacted_cases (snapshot : Option Status) (hp : i.patched = true) (t : Status) :
    (Unchanged (snapshot.getD {}) (reactiveWrite snapshot i) ∧ reacted snapshot i t = t) ∨
      reacted snapshot i t = (reactiveWrite snapshot i).into t ∨
      ∃ error, forceReset snapshot i (stageEscalation snapshot i) = some error ∧
        reacted snapshot i t = forcedInto snapshot error ((reactiveWrite snapshot i).into t) := by
  by_cases hc : reactivePolicyStatusUnchanged (snapshot.getD {}) (reactiveWrite snapshot i) = true
  · exact .inl ⟨(unchanged_iff _ _).mp hc, reacted_of_unchanged hc⟩
  · refine .inr ?_
    rw [reacted_of_changed hp (Bool.eq_false_iff.mpr hc)]
    split
    · cases hf : forceReset snapshot i (stageEscalation snapshot i) with
      | none => exact .inl rfl
      | some error => exact .inr ⟨error, rfl, rfl⟩
    · exact .inl rfl

theorem unchanged_of_patch_eq_none (h : (applyReactivePolicy snapshot i).patch = none) :
    Unchanged (snapshot.getD {}) (reactiveWrite snapshot i) := by
  rw [← unchanged_iff]
  by_contra hc
  rw [patch_eq (Bool.eq_false_iff.mpr hc)] at h
  cases h

/-- The snapshot of the next run, when nothing else is written. -/
def statusAfter (snapshot : Option Status) (i : ReactiveInput) : Status :=
  reacted snapshot i (snapshot.getD {})

theorem unchanged_statusAfter (snapshot : Option Status) (hp : i.patched = true) :
    Unchanged (statusAfter snapshot i) (reactiveWrite snapshot i) := by
  unfold statusAfter
  obtain ⟨hsame, h⟩ | h | ⟨error, -, h⟩ := reacted_cases snapshot hp (snapshot.getD {})
  · rw [h]
    exact hsame
  · rw [h]
    exact unchanged_into _ _
  · rw [h]
    -- the forced patch writes none of the compared fields
    exact ⟨forall₂_sameCondition_refl _, rfl, rfl, rfl, rfl, rfl, rfl⟩

theorem phase_statusAfter (snapshot : Option Status) (hp : i.patched = true) :
    (statusAfter snapshot i).phase = (snapshot.getD {}).phase ∨
      (statusAfter snapshot i).phase = some .failed := by
  unfold statusAfter
  obtain ⟨-, h⟩ | h | ⟨error, -, h⟩ := reacted_cases snapshot hp (snapshot.getD {})
  · rw [h]
    exact .inl rfl
  · rw [h]
    exact .inl rfl
  · rw [h]
    exact .inr rfl

end After

section Clocks

variable (snapshot : Option Status) {i : ReactiveInput} (j : ReactiveInput)

def verifiedFalse (cs : List Condition) : Bool :=
  cs.any (fun c => c.type = "Verified" && c.status = "False")

theorem verifiedFalse_congr {cs ds : List Condition}
    (h : List.Forall₂ (fun p n => sameCondition p n = true) cs ds) :
    verifiedFalse cs = verifiedFalse ds := by
  induction h with
  | nil => rfl
  | cons hsame _ ih =>
    obtain ⟨htype, hstatus, -⟩ := (sameCondition_iff _ _).mp hsame
    simp only [verifiedFalse, List.any_cons, htype, hstatus] at ih ⊢
    rw [ih]

theorem verifiedFalse_write (i : ReactiveInput) :
    verifiedFalse (reactiveWrite snapshot i).conditions =
      verifiedFalse (snapshot.getD {}).conditions := by
  have hnew (cs : List Condition) (e : Escalation) (now : Time) :
      verifiedFalse [healthyCondition cs e now] = false := rfl
  have hkept (cs : List Condition) :
      verifiedFalse (cs.filter (fun c => !isHealthy c)) = verifiedFalse cs := by
    induction cs with
    | nil => rfl
    | cons c cs ih =>
      simp only [verifiedFalse, List.any_cons] at ih ⊢
      by_cases hc : isHealthy c = true
      · have ht : c.type = "Healthy" := by simpa [isHealthy] using hc
        simp [hc, ih, ht]
      · simp [hc, ih]
  have happend (cs ds : List Condition) :
      verifiedFalse (cs ++ ds) = (verifiedFalse cs || verifiedFalse ds) := List.any_append
  simp only [reactiveWrite, happend, hkept, hnew, Bool.or_false]

/-- The blocked clock keeps its start. -/
theorem newBlockedSince_again (hp : i.patched = true) :
    newBlockedSince (some (statusAfter snapshot i)) j =
      (reactiveWrite snapshot i).verifiedBlockedSince := by
  have hrecorded := unchanged_statusAfter snapshot hp
  have hverified : verifiedFalse (statusAfter snapshot i).conditions =
      verifiedFalse (snapshot.getD {}).conditions :=
    (verifiedFalse_congr hrecorded.conditions).trans (verifiedFalse_write snapshot i)
  have hsecond : newBlockedSince (some (statusAfter snapshot i)) j =
      if verifiedFalse (snapshot.getD {}).conditions then
        (newBlockedSince snapshot i).or (some j.now)
      else none := by
    rw [← hverified]
    exact congrArg (fun since => if verifiedFalse _ then Option.or since _ else none)
      hrecorded.verifiedBlockedSince
  have hfirst : newBlockedSince snapshot i =
      if verifiedFalse (snapshot.getD {}).conditions then
        (snapshot.bind Status.verifiedBlockedSince).or (some i.now)
      else none := by
    cases snapshot with
    | none => rfl
    | some s => rfl
  change _ = newBlockedSince snapshot i
  rw [hsecond, hfirst]
  split
  · cases snapshot.bind Status.verifiedBlockedSince with
    | none => rfl
    | some since => rfl
  · rfl

theorem trackApplyProgress_again (count : Option Nat) (advanced : Option Time)
    (observed : Option Nat) (now later : Time) :
    trackApplyProgress (trackApplyProgress count advanced observed now).1
      (trackApplyProgress count advanced observed now).2 observed later =
      trackApplyProgress count advanced observed now := by
  cases observed with
  | none => rfl
  | some n =>
    by_cases hc : count = some n
    · cases advanced with
      | none => simp [trackApplyProgress, hc]
      | some t => simp [trackApplyProgress, hc]
    · simp [trackApplyProgress, hc]

/-- The frontier pair too: while applying the same reading is made again, and otherwise none. -/
theorem newCursor_again (hp : i.patched = true) (hlen : j.cursorLen = i.cursorLen) :
    newCursor (some (statusAfter snapshot i)) j = newCursor snapshot i := by
  have hrecorded := unchanged_statusAfter snapshot hp
  have hpair : newCursor (some (statusAfter snapshot i)) j =
      trackApplyProgress (newCursor snapshot i).1 (newCursor snapshot i).2
        (sampleApplyFrontier (some (statusAfter snapshot i)) j) j.now := by
    change trackApplyProgress (statusAfter snapshot i).applyCursorCount
      (statusAfter snapshot i).applyCursorAdvancedAt _ _ = _
    rw [hrecorded.applyCursorCount, hrecorded.applyCursorAdvancedAt]
    rfl
  rw [hpair]
  by_cases hphase : (statusAfter snapshot i).phase = some .applying
  · have hbefore : snapshot.bind Status.phase = some .applying := by
      have hkept : (snapshot.getD {}).phase = some .applying := by
        rcases phase_statusAfter snapshot hp with h | h
        · rw [← h]
          exact hphase
        · rw [h] at hphase
          exact absurd hphase (by decide)
      cases snapshot with
      | none => exact absurd hkept (by decide)
      | some s => exact hkept
    have hsample : sampleApplyFrontier (some (statusAfter snapshot i)) j =
        sampleApplyFrontier snapshot i := by
      rw [sampleApplyFrontier, sampleApplyFrontier, Option.bind_some, if_pos hphase,
        if_pos hbefore, hlen]
    rw [hsample]
    exact trackApplyProgress_again _ _ _ _ _
  · have hsample : sampleApplyFrontier (some (statusAfter snapshot i)) j = none := by
      rw [sampleApplyFrontier, Option.bind_some, if_neg hphase]
    rw [hsample]
    rfl

end Clocks

section Worst

theorem reason_eq_none_iff (e : Escalation) : e.reason = none ↔ e = .healthy := by
  cases e with
  | healthy => simp [Escalation.reason]
  | triggered t => simp [Escalation.reason]

theorem mem_of_maxByKey {α : Type} {key : α → Nat} {as : List α} {a : α}
    (h : maxByKey key as = some a) : a ∈ as := by
  cases as with
  | nil => cases h
  | cons b bs =>
    have hfold (x : α) : bs.foldl (fun x y => if key y < key x then x else y) x ∈ x :: bs := by
      clear h
      induction bs generalizing x with
      | nil => exact List.mem_singleton_self x
      | cons y ys ih =>
        rw [List.foldl_cons]
        split
        · rcases List.mem_cons.mp (ih x) with hx | hx
          · rw [hx]
            exact List.mem_cons_self
          · exact List.mem_cons_of_mem _ (List.mem_cons_of_mem _ hx)
        · exact List.mem_cons_of_mem _ (ih y)
    rw [← Option.some.inj h]
    exact hfold b

theorem mem_of_pickWorst {triggers : List Trigger} {t : Trigger}
    (h : pickWorst triggers = .triggered t) : t ∈ triggers := by
  unfold pickWorst at h
  split at h
  · cases h
  · next hmax =>
    cases h
    exact mem_of_maxByKey hmax

theorem reason_checkFailure {s : Status} {policy : FailureEscalation} {t : Trigger}
    (h : checkFailure s policy = some t) : t.reason = "FailureEscalation" := by
  unfold checkFailure at h
  split at h
  · cases h
  · cases h
    rfl

theorem reason_checkVerifiedBlocked {s : Status} {policy : VerifiedBlockedPolicy} {now : Time}
    {t : Trigger} (h : checkVerifiedBlocked s policy now = some t) :
    t.reason = "VerifiedBlocked" := by
  obtain ⟨since, -, h⟩ := Option.bind_eq_some_iff.mp h
  obtain ⟨threshold, -, h⟩ := Option.bind_eq_some_iff.mp h
  split at h
  · cases h
  · cases h
    rfl

/-- Only three phases time out, and the trigger names the phase. -/
theorem checkPhaseTimeout_spec {s : Status} {policy : PhaseTimeoutPolicy} {now : Time} {t : Trigger}
    (h : checkPhaseTimeout s policy now = some t) :
    ∃ phase, s.phase = some phase ∧ (policy.threshold phase).isSome = true ∧
      t.reason = timeoutReason phase ∧ t.action = policy.onTimeout := by
  obtain ⟨phase, hphase, h⟩ := Option.bind_eq_some_iff.mp h
  obtain ⟨entered, -, h⟩ := Option.bind_eq_some_iff.mp h
  obtain ⟨text, htext, h⟩ := Option.bind_eq_some_iff.mp h
  obtain ⟨threshold, -, h⟩ := Option.bind_eq_some_iff.mp h
  simp only at h
  split at h
  · cases h
  · cases h
    exact ⟨phase, hphase, by rw [htext]; rfl, rfl, rfl⟩

/-- A worst reason that names a phase timeout is the timeout's own. -/
theorem timeout_of_worst {s : Status} {policy : EffectiveReactivePolicy} {now : Time} {t : Trigger}
    (h : evaluate (some s) policy now = .triggered t) (ht : isPhaseTimeout t.reason = true) :
    checkPhaseTimeout s policy.phaseTimeout now = some t := by
  have hmem := mem_of_pickWorst h
  rw [List.mem_append, List.mem_append, Option.mem_toList, Option.mem_toList,
    Option.mem_toList] at hmem
  rcases hmem with (hmem | hmem) | hmem
  · rw [reason_checkFailure hmem] at ht
    exact absurd ht (by decide)
  · exact hmem
  · rw [reason_checkVerifiedBlocked hmem] at ht
    exact absurd ht (by decide)

end Worst

section Again

variable {snapshot : Option Status} {i : ReactiveInput}

theorem forceReset_spec {e : Escalation} {error : String}
    (h : forceReset snapshot i e = some error) :
    ∃ t, e = .triggered t ∧ isPhaseTimeout t.reason = true ∧
      (snapshot.getD {}).lastEscalationReason ≠ some t.reason := by
  unfold forceReset at h
  split at h
  · cases h
  · next t =>
    simp only at h
    split at h
    · cases h
    · split at h
      · next hdue =>
        simp only [Bool.and_eq_true, decide_eq_true_eq] at hdue
        exact ⟨t, rfl, hdue.1.1.1.2, by simpa using hdue.1.1.1.1⟩
      · cases h

/-- A forced run is not followed by the same reason: the phase is Failed, which has no timeout. -/
theorem reason_ne_of_forced {error : String} {e : Escalation}
    (hf : forceReset snapshot i e = some error) {t : Status} (ht : t.phase = some .failed)
    (j : ReactiveInput) : (stageEscalation (some t) j).reason ≠ e.reason := by
  obtain ⟨trigger, rfl, htimeout, -⟩ := forceReset_spec hf
  intro hr
  cases hsecond : stageEscalation (some t) j with
  | healthy =>
    rw [hsecond] at hr
    cases hr
  | triggered trigger' =>
    rw [hsecond] at hr
    have hsame : trigger'.reason = trigger.reason := Option.some.inj hr
    rw [← hsame] at htimeout
    obtain ⟨phase, hphase, hthreshold, -⟩ := checkPhaseTimeout_spec
      (timeout_of_worst hsecond htimeout)
    have hfailed : phase = .failed := Option.some.inj (hphase.symm.trans ht)
    rw [hfailed] at hthreshold
    cases hthreshold

/-- At the same instant the same escalation is found again. -/
theorem stageEscalation_again (hp : i.patched = true)
    (hr : (stageEscalation (some (statusAfter snapshot i)) i).reason =
      (stageEscalation snapshot i).reason) :
    stageEscalation (some (statusAfter snapshot i)) i = stageEscalation snapshot i := by
  cases snapshot with
  | none => exact (reason_eq_none_iff _).mp hr
  | some s =>
    have hblocked := newBlockedSince_again (some s) i hp
    have hcursor := newCursor_again (some s) i hp rfl
    unfold statusAfter at hr hblocked hcursor ⊢
    obtain ⟨-, h⟩ | h | ⟨error, hf, h⟩ := reacted_cases (some s) hp s
    · exact congrArg (fun t => stageEscalation (some t) i) h
    · simp only [Option.getD_some, h] at hblocked hcursor ⊢
      simp only [stageEscalation, statusForEval, Option.map_some, hblocked, hcursor]
      rfl
    · rw [Option.getD_some, h] at hr
      exact absurd hr (reason_ne_of_forced hf rfl i)

theorem isHealthy_congr {p n : Condition} (h : sameCondition p n = true) :
    isHealthy p = isHealthy n := by
  rw [isHealthy, isHealthy, ((sameCondition_iff p n).mp h).1]

/-- A condition list the diff takes for a stage's own: one Healthy condition, at the end. -/
theorem split_of_same {cs kept : List Condition} {healthy : Condition}
    (hkept : ∀ c ∈ kept, isHealthy c = false) (hhealthy : isHealthy healthy = true)
    (h : List.Forall₂ (fun p n => sameCondition p n = true) cs (kept ++ [healthy])) :
    ∃ c, sameCondition c healthy = true ∧ cs.find? isHealthy = some c ∧
      cs = cs.filter (fun c => !isHealthy c) ++ [c] := by
  induction kept generalizing cs with
  | nil =>
    obtain ⟨c, rest, hsame, hrest, rfl⟩ := List.forall₂_cons_right_iff.mp h
    cases hrest
    have hc : isHealthy c = true := (isHealthy_congr hsame).trans hhealthy
    exact ⟨c, hsame, by simp [hc], by simp [hc]⟩
  | cons k kept ih =>
    obtain ⟨c', rest, hsame, hrest, rfl⟩ := List.forall₂_cons_right_iff.mp h
    have hc' : isHealthy c' = false :=
      (isHealthy_congr hsame).trans (hkept k List.mem_cons_self)
    obtain ⟨c, hc, hfind, hrest⟩ := ih (fun d hd => hkept d (List.mem_cons_of_mem _ hd)) hrest
    refine ⟨c, hc, by simp [hc', hfind], ?_⟩
    rw [List.filter_cons_of_pos (by simp [hc']), List.cons_append, ← hrest]

/-- The same escalation adds nothing to a list that already says it. -/
theorem conditions_again {cs prior : List Condition} {e : Escalation} {now : Time}
    (h : List.Forall₂ (fun p n => sameCondition p n = true) cs
      (prior.filter (fun c => !isHealthy c) ++ [healthyCondition prior e now])) (later : Time) :
    List.Forall₂ (fun p n => sameCondition p n = true) cs
      (cs.filter (fun c => !isHealthy c) ++ [healthyCondition cs e later]) := by
  have hkept : ∀ c ∈ prior.filter (fun c => !isHealthy c), isHealthy c = false := by
    intro c hc
    simpa using (List.mem_filter.mp hc).2
  obtain ⟨c, hsame, hfind, hsplit⟩ := split_of_same hkept rfl h
  obtain ⟨htype, hstatus, hreason, hmessage, -⟩ := (sameCondition_iff _ _).mp hsame
  -- the last condition has this content, so its time is kept
  have htime : healthyTransition cs e later = c.lastTransitionTime := by
    rw [healthyTransition, hfind]
    exact if_pos (by rw [hstatus, hreason, hmessage]; rfl)
  have hlast : sameCondition c (healthyCondition cs e later) = true := by
    rw [sameCondition_iff]
    exact ⟨htype, hstatus, hreason, hmessage, htime.symm⟩
  nth_rewrite 1 [hsplit]
  exact List.rel_append (forall₂_sameCondition_refl _) (.cons hlast .nil)

theorem nextAutoSuspended_again (e : Escalation) (prior : Bool) :
    nextAutoSuspended e (nextAutoSuspended e prior) = nextAutoSuspended e prior := by
  cases e with
  | healthy => rfl
  | triggered t => simp [nextAutoSuspended]

theorem raisedEvents_eq_nil_iff (prior : Option String) (e : Escalation) :
    raisedEvents prior e = [] ↔ e.reason = none ∨ prior = e.reason := by
  cases e with
  | healthy => simp [raisedEvents, Escalation.reason]
  | triggered t => simp [raisedEvents, Escalation.reason]

/-- No event and no patch. -/
structure Quiet (outcome : ReactiveOutcome) : Prop where
  events : outcome.events = []
  patch : outcome.patch = none
  forced : outcome.forced = none

/-- A run that finds what the run before it found, at an instant that makes no difference. -/
theorem unchanged_again {j : ReactiveInput} (hp : i.patched = true)
    (hlen : j.cursorLen = i.cursorLen)
    (he : stageEscalation (some (statusAfter snapshot i)) j = stageEscalation snapshot i)
    (hnow : stageEscalation snapshot i = .healthy ∨ j.now = i.now) :
    Unchanged (statusAfter snapshot i) (reactiveWrite (some (statusAfter snapshot i)) j) := by
  have hrecorded := unchanged_statusAfter snapshot hp
  have hcursor := newCursor_again snapshot j hp hlen
  refine ⟨?_, ?_, ?_, ?_, ?_, ?_, ?_⟩
  · simp only [reactiveWrite, Option.getD_some, he]
    exact conditions_again hrecorded.conditions j.now
  · exact hrecorded.verifiedBlockedSince.trans (newBlockedSince_again snapshot j hp).symm
  · simp only [reactiveWrite, Option.getD_some, he]
    rw [hrecorded.autoSuspended]
    exact (nextAutoSuspended_again _ _).symm
  · simp only [reactiveWrite, Option.getD_some, he]
    cases hfirst : stageEscalation snapshot i with
    | healthy => rfl
    | triggered t =>
      have hsame : j.now = i.now := hnow.resolve_left (by simp [hfirst])
      rw [hrecorded.lastEscalatedAt, hsame]
      simp only [reactiveWrite, hfirst]
  · rw [hrecorded.lastEscalationReason]
    exact congrArg Escalation.reason he.symm
  · rw [hrecorded.applyCursorCount]
    exact congrArg Prod.fst hcursor.symm
  · rw [hrecorded.applyCursorAdvancedAt]
    exact congrArg Prod.snd hcursor.symm

section Twice

variable (hp : i.patched = true) (now : Time)
  (hr : (stageEscalation (some (statusAfter snapshot i)) { i with now := now }).reason =
    (stageEscalation snapshot i).reason)

include hp hr

/-- An escalation that was recorded at another instant is a change. -/
theorem now_eq_of_quiet {t : Trigger} (hfirst : stageEscalation snapshot i = .triggered t)
    (hquiet : Quiet (applyReactivePolicy (some (statusAfter snapshot i)) { i with now := now })) :
    now = i.now := by
  have hunchanged := unchanged_of_patch_eq_none hquiet.patch
  rw [Option.getD_some] at hunchanged
  cases hsecond : stageEscalation (some (statusAfter snapshot i)) { i with now := now } with
  | healthy =>
    rw [hfirst, hsecond] at hr
    cases hr
  | triggered t' =>
    -- both runs record their own time
    have htimes :=
      (unchanged_statusAfter snapshot hp).lastEscalatedAt.symm.trans hunchanged.lastEscalatedAt
    simp only [reactiveWrite, hfirst, hsecond] at htimes
    exact (Option.some.inj htimes).symm

/-- Where nothing fires, or at one instant, the two runs find one escalation. -/
theorem same_escalation (h : (stageEscalation snapshot i).reason = none ∨ now = i.now) :
    stageEscalation (some (statusAfter snapshot i)) { i with now := now } =
      stageEscalation snapshot i := by
  rcases h with h | rfl
  · rw [h, reason_eq_none_iff] at hr
    rw [hr, (reason_eq_none_iff _).mp h]
  · have hinput : ({ i with now := i.now } : ReactiveInput) = i := rfl
    rw [hinput] at hr ⊢
    exact stageEscalation_again hp hr

theorem quiet_of_same_escalation
    (h : (stageEscalation snapshot i).reason = none ∨ now = i.now) :
    Quiet (applyReactivePolicy (some (statusAfter snapshot i)) { i with now := now }) := by
  have hnow : stageEscalation snapshot i = .healthy ∨ now = i.now :=
    h.imp_left (reason_eq_none_iff _).mp
  have hunchanged := unchanged_again (j := { i with now := now }) hp rfl
    (same_escalation hp now hr h) hnow
  have hraised : raisedEvents (statusAfter snapshot i).lastEscalationReason
      (stageEscalation (some (statusAfter snapshot i)) { i with now := now }) = [] := by
    rw [raisedEvents_eq_nil_iff, (unchanged_statusAfter snapshot hp).lastEscalationReason, hr]
    exact .inr rfl
  have houtcome := @outcome_of_unchanged (some (statusAfter snapshot i)) { i with now := now }
    (by rw [Option.getD_some]; exact (unchanged_iff _ _).mpr hunchanged)
  rw [Option.getD_some, hraised] at houtcome
  rw [houtcome]
  exact ⟨rfl, rfl, rfl⟩

/-- Two runs in a row with only the clock between them and one reason: the second is quiet exactly
when that reason is none or the clock stood still. -/
theorem quiet_again_iff :
    Quiet (applyReactivePolicy (some (statusAfter snapshot i)) { i with now := now }) ↔
      (stageEscalation snapshot i).reason = none ∨ now = i.now := by
  constructor
  · intro hquiet
    cases hfirst : stageEscalation snapshot i with
    | healthy => exact .inl rfl
    | triggered t => exact .inr (now_eq_of_quiet hp now hr hfirst hquiet)
  · exact quiet_of_same_escalation hp now hr

end Twice

end Again

section Stored

/-- `template.status`, absent until something is written. -/
def templateStatus : Doc → Option Status
  | .null => none
  | stored => Status.read stored

theorem getD_templateStatus {stored : Doc} {s : Status} (hs : Status.read stored = some s) :
    (templateStatus stored).getD {} = s := by
  unfold templateStatus
  split
  · have hempty : Status.read .null = some {} := by
      rw [Status.read_eq_some_iff]
      intro f
      cases f <;> rfl
    exact Option.some.inj (hempty.symm.trans hs)
  · rw [hs]
    rfl

theorem templateStatus_patchStatus (stored : Doc) (fs : List (StatusField × Option Doc)) :
    templateStatus (patchStatus stored (statusBody fs)) =
      Status.read (patchStatus stored (statusBody fs)) := by
  rw [patchStatus_statusBody, record, mergePatch]
  rfl

variable {stored : Doc} {s : Status} {i : ReactiveInput}

/-- A run that writes leaves a status to read. -/
theorem templateStatus_reactiveWrites (status : Option Status) {w : ReactiveWrite}
    (hw : (applyReactivePolicy status i).patch = some w) (hp : i.patched = true) :
    templateStatus (mergeWrites stored (reactiveWrites status i)) =
      Status.read (mergeWrites stored (reactiveWrites status i)) := by
  simp only [reactiveWrites, hp, if_true, hw, Option.toList_some, List.map_cons, List.map_nil,
    List.cons_append, List.nil_append, mergeWrites_cons]
  split
  · cases (applyReactivePolicy status i).forced with
    | none => exact templateStatus_patchStatus _ _
    | some error => exact templateStatus_patchStatus _ _
  · exact templateStatus_patchStatus _ _

/-- The template that the next run sees. -/
theorem templateStatus_after (hs : Status.read stored = some s) (hp : i.patched = true) :
    templateStatus (mergeWrites stored (reactiveWrites (templateStatus stored) i)) =
      some (statusAfter (templateStatus stored) i) := by
  cases hw : (applyReactivePolicy (templateStatus stored) i).patch with
  | some w =>
    rw [templateStatus_reactiveWrites _ hw hp, read_reactiveWrites hs, statusAfter,
      getD_templateStatus hs]
  | none =>
    -- nothing to write, so there is a Healthy condition and the status is there
    have hunchanged := unchanged_of_patch_eq_none hw
    have hwrites : reactiveWrites (templateStatus stored) i = [] := by
      rw [reactiveWrites, outcome_of_unchanged ((unchanged_iff _ _).mpr hunchanged)]
      simp
    rw [hwrites, mergeWrites_nil, statusAfter,
      reacted_of_unchanged ((unchanged_iff _ _).mpr hunchanged)]
    cases hstatus : templateStatus stored with
    | some t => rfl
    | none =>
      rw [hstatus] at hunchanged
      cases hunchanged.conditions

end Stored

/-- One run of the stage within a run of reconciles: what others wrote since the last one, the
snapshot, what its own reconcile wrote after it, and the stage. Nothing else writes the recorded
reason. -/
structure ReactiveTurn where
  before : List Doc
  during : List Doc
  input : ReactiveInput
  readable : ∀ body ∈ before ++ during, KeepsReadable body
  frames : ∀ body ∈ before ++ during, Frames body .lastEscalationReason

namespace ReactiveTurn

variable (turn : ReactiveTurn) (stored : Doc)

def snapshot : Option Status := templateStatus (mergeWrites stored turn.before)

def escalation : Escalation := stageEscalation (turn.snapshot stored) turn.input

def outcome : ReactiveOutcome := applyReactivePolicy (turn.snapshot stored) turn.input

def recorded : Option String := ((turn.snapshot stored).getD {}).lastEscalationReason

def after : Doc :=
  mergeWrites (mergeWrites (mergeWrites stored turn.before) turn.during)
    (reactiveWrites (turn.snapshot stored) turn.input)

end ReactiveTurn

/-- A run of the stage with the worst reason of the one before. -/
structure Watched where
  stored : Doc
  previous : Option String

def watch (w : Watched) (turn : ReactiveTurn) : Watched :=
  ⟨turn.after w.stored, (turn.escalation w.stored).reason⟩

/-- An event exactly at a reason that the previous run did not have. -/
def EventAtChange (w : Watched) (turn : ReactiveTurn) : Prop :=
  (turn.outcome w.stored).events ≠ [] ↔
    ∃ r, (turn.escalation w.stored).reason = some r ∧ w.previous ≠ some r

/-- The patch is taken, or has no new reason to record. -/
def RecordsReason (w : Watched) (turn : ReactiveTurn) : Prop :=
  turn.input.patched = true ∨ turn.recorded w.stored = (turn.escalation w.stored).reason

/-- The stored reason is the worst of the previous run. -/
def RecordsPrevious (w : Watched) : Prop :=
  ∃ s, Status.read w.stored = some s ∧ s.lastEscalationReason = w.previous

section Events

variable {stored : Doc} {s : Status}

/-- Writes that frame the recorded reason keep it. -/
theorem read_mergeWrites_reason {writes : List Doc} (hs : Status.read stored = some s)
    (hr : ∀ body ∈ writes, KeepsReadable body)
    (hf : ∀ body ∈ writes, Frames body .lastEscalationReason) :
    ∃ t, Status.read (mergeWrites stored writes) = some t ∧
      t.lastEscalationReason = s.lastEscalationReason := by
  obtain ⟨t, ht⟩ := reads_mergeWrites hr ⟨s, hs⟩
  have hbefore := Status.read_eq_some_iff.mp hs .lastEscalationReason
  have hafter := Status.read_eq_some_iff.mp ht .lastEscalationReason
  rw [get?_mergeWrites hf] at hafter
  exact ⟨t, ht, Option.some.inj (hafter.symm.trans hbefore)⟩

variable (turn : ReactiveTurn)

theorem recorded_eq (hs : Status.read stored = some s) :
    turn.recorded stored = s.lastEscalationReason := by
  obtain ⟨t, ht, hreason⟩ := read_mergeWrites_reason hs
    (fun body hb => turn.readable body (List.mem_append_left _ hb))
    (fun body hb => turn.frames body (List.mem_append_left _ hb))
  rw [ReactiveTurn.recorded, ReactiveTurn.snapshot, getD_templateStatus ht]
  exact hreason

theorem lastEscalationReason_reacted {snapshot : Option Status} {i : ReactiveInput} {t : Status}
    (hp : i.patched = true)
    (ht : t.lastEscalationReason = (snapshot.getD {}).lastEscalationReason) :
    (reacted snapshot i t).lastEscalationReason = (stageEscalation snapshot i).reason := by
  obtain ⟨hsame, h⟩ | h | ⟨error, -, h⟩ := reacted_cases snapshot hp t
  · rw [h, ht]
    exact hsame.lastEscalationReason
  · rw [h]
    rfl
  · rw [h]
    rfl

theorem recordsPrevious_watch {w : Watched} (hw : RecordsPrevious w)
    (h : RecordsReason w turn) : RecordsPrevious (watch w turn) := by
  obtain ⟨s, hs, hprevious⟩ := hw
  have hrecorded := recorded_eq turn hs
  obtain ⟨t, ht, hreason⟩ := read_mergeWrites_reason hs turn.readable turn.frames
  rw [mergeWrites_append] at ht
  refine ⟨reacted (turn.snapshot w.stored) turn.input t, read_reactiveWrites ht _ _, ?_⟩
  by_cases hp : turn.input.patched = true
  · exact lastEscalationReason_reacted hp (hreason.trans hrecorded.symm)
  · rw [reacted_of_not_patched (Bool.eq_false_iff.mpr hp), hreason, ← hrecorded]
    exact h.resolve_left hp

/-- The forced reset raises its event only next to the first one. -/
theorem events_eq_nil_iff (status : Option Status) (i : ReactiveInput) :
    (applyReactivePolicy status i).events = [] ↔
      raisedEvents (status.getD {}).lastEscalationReason (stageEscalation status i) = [] := by
  have hforced (hnil : raisedEvents (status.getD {}).lastEscalationReason
      (stageEscalation status i) = []) : forceReset status i (stageEscalation status i) = none := by
    cases hf : forceReset status i (stageEscalation status i) with
    | none => rfl
    | some error =>
      obtain ⟨t, he, -, hnew⟩ := forceReset_spec hf
      rw [he, raisedEvents_eq_nil_iff] at hnil
      rcases hnil with hnil | hnil
      · cases hnil
      · exact absurd hnil hnew
  unfold applyReactivePolicy
  simp only
  split
  · rfl
  · split
    · rfl
    · rw [List.append_eq_nil_iff]
      constructor
      · intro h
        exact h.1
      · intro h
        refine ⟨h, ?_⟩
        rw [hforced h]
        simp

theorem eventAtChange_of_recorded {w : Watched} (hw : RecordsPrevious w) :
    EventAtChange w turn := by
  obtain ⟨s, hs, hprevious⟩ := hw
  have hrecorded : turn.recorded w.stored = w.previous := (recorded_eq turn hs).trans hprevious
  rw [EventAtChange, ReactiveTurn.outcome, Ne, events_eq_nil_iff, raisedEvents_eq_nil_iff]
  change ¬((turn.escalation w.stored).reason = none ∨
    turn.recorded w.stored = (turn.escalation w.stored).reason) ↔ _
  rw [hrecorded]
  cases (turn.escalation w.stored).reason with
  | none => simp
  | some r => simp

/-- A whole run: the step lemma carries the recorded reason along. -/
theorem events_at_changes {w : Watched} (hw : RecordsPrevious w) {turns : List ReactiveTurn}
    (h : Along watch w turns RecordsReason) : Along watch w turns EventAtChange := by
  refine along_of_along (fun w turn h hw => recordsPrevious_watch turn hw h) ?_ hw h
  intro w turn _ hw
  exact eventAtChange_of_recorded turn hw

end Events

/-- The document after one run on the status it holds. -/
def afterRun (stored : Doc) (i : ReactiveInput) : Doc :=
  mergeWrites stored (reactiveWrites (templateStatus stored) i)

/-- Of two runs with only the clock between them and one worst reason, the second is quiet exactly
when nothing fires or the clock stands still; and over every run whose reasons are recorded, the
events are at the changes of the worst reason. -/
theorem stage_settles_iff {stored : Doc} {s : Status} (hs : Status.read stored = some s) :
    (∀ (i : ReactiveInput) (now : Time), i.patched = true →
      (stageEscalation (templateStatus (afterRun stored i)) { i with now := now }).reason =
        (stageEscalation (templateStatus stored) i).reason →
      (Quiet (applyReactivePolicy (templateStatus (afterRun stored i)) { i with now := now }) ↔
        (stageEscalation (templateStatus stored) i).reason = none ∨ now = i.now)) ∧
    ∀ turns, Along watch ⟨stored, s.lastEscalationReason⟩ turns RecordsReason →
      Along watch ⟨stored, s.lastEscalationReason⟩ turns EventAtChange := by
  constructor
  · intro i now hp hr
    rw [afterRun, templateStatus_after hs hp] at hr ⊢
    exact quiet_again_iff hp now hr
  · intro turns h
    exact events_at_changes ⟨s, hs, rfl⟩ h

/-- A reconcile that writes nothing, with the stage after it. -/
def idleTurn (i : ReactiveInput) : ReactiveTurn :=
  ⟨[], [], i, by simp, by simp⟩

theorem templateStatus_toJson (s : Status) : templateStatus s.toJson = some s :=
  Status.read_toJson s

/-- A new template settles: a minute later nothing is sent. -/
theorem new_template_settles :
    Quiet (applyReactivePolicy (templateStatus (afterRun ({} : Status).toJson { now := 0 }))
      { now := seconds 60 }) ∧
    Along watch ⟨({} : Status).toJson, none⟩ [idleTurn { now := 0 }, idleTurn { now := seconds 60 }]
      EventAtChange := by
  have h := stage_settles_iff (Status.read_toJson {})
  refine ⟨(h.1 { now := 0 } (seconds 60) rfl ?_).mpr (.inl ?_), h.2 _ ?_⟩
  · rw [afterRun, templateStatus_after (Status.read_toJson {}) rfl, templateStatus_toJson]
    decide +kernel
  · rw [templateStatus_toJson]
    decide +kernel
  · rw [along_cons_iff, along_cons_iff]
    exact ⟨.inl rfl, .inl rfl, along_nil _ _ _⟩

/-- A template with its fifth failure behind it. -/
def exhausted : Status :=
  { phase := some .failed, failureCount := 5, lastError := some "apply failed" }

/-- The escalation that is recorded is patched again a second later. -/
theorem exhausted_template_patched_again :
    (stageEscalation (templateStatus exhausted.toJson) { now := 0 }).reason =
      some "FailureEscalation" ∧
    (stageEscalation (templateStatus (afterRun exhausted.toJson { now := 0 }))
      { now := seconds 1 }).reason = some "FailureEscalation" ∧
    ¬Quiet (applyReactivePolicy (templateStatus (afterRun exhausted.toJson { now := 0 }))
      { now := seconds 1 }) := by
  rw [afterRun, templateStatus_after (Status.read_toJson exhausted) rfl, templateStatus_toJson]
  refine ⟨by decide +kernel, by decide +kernel, ?_⟩
  intro hquiet
  have hpatch : (applyReactivePolicy (some (statusAfter (some exhausted) { now := 0 }))
      { now := seconds 1 }).patch ≠ none := by decide +kernel
  exact hpatch hquiet.patch

end PangeaOperator
