import PangeaOperator.PassRun

/-!
# What a projection leaves

The pass read back from the stored record is the projected one, the conditions never
claim more than the pass has reached, and projecting again at the same instant finds
nothing to write, except where the backstop has dropped a queued generation.
-/

namespace PangeaOperator

open Json

namespace PassPhase

/-- The same pass for another generation, with another queue slot where it has one. -/
def retarget (generation : Int) (queued : Option Queued) : PassPhase → PassPhase
  | settled _ => settled generation
  | pending _ since => pending generation since
  | planning _ startedAt heartbeat _ => planning generation startedAt heartbeat queued
  | applying _ startedAt heartbeat _ => applying generation startedAt heartbeat queued
  | failed _ reason => failed generation reason
  | stalled _ since state reason => stalled generation since state reason

@[simp] theorem fromStatus_toStatus (p : PassPhase) (incarnation : String) (fallback : Time) :
    fromStatus (p.toStatus incarnation) fallback = p := by
  cases p with
  | planning g startedAt heartbeat queued => cases queued <;> rfl
  | applying g startedAt heartbeat queued => cases queued <;> rfl
  | _ => rfl

/-- A patched record is the stored pass with the generation and queue of the new one. -/
theorem fromStatus_patchedPass (old : PassStatus) {new : PassStatus} {p : PassPhase}
    (h : Records new p) (now : Time) :
    fromStatus (patchedPass old new) now = (fromStatus old now).retarget p.generation p.queued := by
  obtain ⟨kind, generation, since, heartbeatAt, reason, queuedGeneration, queuedSince, stall,
    owner⟩ := old
  obtain ⟨-, hg, hq, hs⟩ := h
  simp only [patchedPass, hg, hq, hs]
  cases kind with
  | planning => cases p.queued <;> rfl
  | applying => cases p.queued <;> rfl
  | _ => rfl

theorem observe_eq_retarget {p : PassPhase} {live : Int} {now : Time}
    (h : (p.observe live now).kind = p.kind) :
    p.observe live now =
      p.retarget (p.observe live now).generation (p.observe live now).queued := by
  unfold observe at h ⊢
  by_cases hl : live ≤ p.generation
  · rw [if_pos hl] at h ⊢
    cases p <;> rfl
  · rw [if_neg hl] at h ⊢
    cases p with
    | settled g => cases h
    | failed g reason => cases h
    | _ => rfl

/-- Once a pass covers the live generation, seeing it again changes nothing. -/
theorem observe_eq_self {p : PassPhase} {live : Int} (hb : QueueBeyond p) (hc : Covers p live)
    (now : Time) : p.observe live now = p := by
  have keep {g : Int} {queued : Option Queued} (hq : ∀ q, queued = some q → g < q.generation) :
      keepQueue g queued = queued := by
    cases queued with
    | none => rfl
    | some q => exact Option.filter_some_pos (decide_eq_true (hq q rfl))
  have join {queued : Option Queued} (hq : queued.map Queued.generation = some live) :
      joinQueue live now queued = queued := by
    obtain ⟨q, rfl, rfl⟩ := Option.map_eq_some_iff.mp hq
    rfl
  unfold observe
  by_cases hl : live ≤ p.generation
  · rw [if_pos hl]
    cases p with
    | planning g startedAt heartbeat queued =>
      exact congrArg (planning g startedAt heartbeat) (keep hb)
    | applying g startedAt heartbeat queued =>
      exact congrArg (applying g startedAt heartbeat) (keep hb)
    | _ => rfl
  · rw [if_neg hl]
    have hq := hc.resolve_left hl
    cases p with
    | planning g startedAt heartbeat queued =>
      exact congrArg (planning g startedAt heartbeat) (join hq)
    | applying g startedAt heartbeat queued =>
      exact congrArg (applying g startedAt heartbeat) (join hq)
    | _ => simp [queued] at hq

theorem watchdog_of_kind_stalled {p : PassPhase} (h : p.kind = .stalled) (now : Time)
    (deadlines : Deadlines) : p.watchdog now deadlines = p := by
  cases p <;> first | rfl | cases h

theorem watchdog_watchdog (p : PassPhase) (now : Time) (deadlines : Deadlines) :
    (p.watchdog now deadlines).watchdog now deadlines = p.watchdog now deadlines := by
  rcases watchdog_eq_or_stalled now deadlines p with h | h
  · rw [h, h]
  · exact watchdog_of_kind_stalled h now deadlines

theorem observe_of_kind_stalled {p : PassPhase} (h : p.kind = .stalled) (live : Int) (now : Time) :
    (p.observe live now).kind = .stalled := by
  cases p with
  | stalled g since state reason =>
    unfold observe
    split <;> rfl
  | _ => cases h

end PassPhase

/-- One of the two named stalls applies to an active pass with this heartbeat. -/
def StallsByName (s : Status) (heartbeat now : Time) (deadlines : Deadlines)
    (incarnation : String) : Prop :=
  (s.pass.bind PassStatus.incarnation ≠ some incarnation ∧
      now - heartbeat > deadlines.orphanGrace) ∨
    ∃ progress, s.progress = some progress ∧ progress.finishedAt = none ∧
      now - progress.lastProgressAt > deadlines.noProgress

theorem namedStallActive_eq_self_iff (s : Status) {pass : PassPhase} (h : pass.kind ≠ .stalled)
    (heartbeat now : Time) (deadlines : Deadlines) (incarnation : String) :
    namedStallActive s pass heartbeat now deadlines incarnation = pass ↔
      ¬StallsByName s heartbeat now deadlines incarnation := by
  have hne {g since state reason} : PassPhase.stalled g since state reason ≠ pass := by
    rintro rfl
    exact h rfl
  unfold namedStallActive StallsByName
  dsimp only
  by_cases ho : s.pass.bind PassStatus.incarnation ≠ some incarnation ∧
      now - heartbeat > deadlines.orphanGrace
  · rw [if_pos ho]
    exact iff_of_false hne (fun hn => hn (.inl ho))
  · rw [if_neg ho]
    cases hp : s.progress with
    | none => simpa using ho
    | some progress =>
      by_cases hq : progress.finishedAt = none ∧
          now - progress.lastProgressAt > deadlines.noProgress
      · simp only [if_pos hq]
        exact iff_of_false hne (fun hn => hn (.inr ⟨progress, rfl, hq⟩))
      · simp only [if_neg hq]
        simp only [true_iff]
        rintro (hn | ⟨_, he, hn⟩)
        · exact ho hn
        · cases he
          exact hq hn

section Again

variable (s : Status) (deadlines : Deadlines) (q : Projection)

/-- The pass that a projection of this status computes. -/
abbrev Projection.pass : PassPhase := projectedPass s q.live q.now deadlines q.incarnation

/-- A projection that stays in the stored kind only observes. -/
theorem projectedPass_of_kind_eq (h : (q.pass s deadlines).kind = (s.storedPass q.now).kind) :
    q.pass s deadlines = (s.storedPass q.now).observe q.live q.now := by
  unfold Projection.pass projectedPass at h ⊢
  rcases namedStall_eq_or_stalled s (s.storedPass q.now) q.now deadlines q.incarnation with hn | hn
  · rw [hn] at h ⊢
    rcases watchdog_eq_or_stalled q.now deadlines ((s.storedPass q.now).observe q.live q.now)
      with hw | hw
    · exact hw
    · rw [hw] at h
      exact PassPhase.watchdog_of_kind_stalled (PassPhase.observe_of_kind_stalled h.symm _ _) _ _
  · have hobs := PassPhase.observe_of_kind_stalled hn q.live q.now
    rw [PassPhase.watchdog_of_kind_stalled hobs, hobs] at h
    have hstored : namedStall s (s.storedPass q.now) q.now deadlines q.incarnation =
        s.storedPass q.now := by
      cases hp : s.storedPass q.now with
      | stalled g since state reason => rfl
      | _ =>
        rw [hp] at h
        cases h
    rw [hstored] at hobs ⊢
    exact PassPhase.watchdog_of_kind_stalled hobs _ _

/-- The status after the projection was stored. -/
abbrev Projection.next : Status :=
  projected s (projectStatus s q.live q.now deadlines q.incarnation) q.incarnation

/-- The stored record reads back as the pass that was projected. -/
theorem storedPass_next : (q.next s deadlines).storedPass q.now = q.pass s deadlines := by
  change PassPhase.fromStatus (mergedPass s.pass ((q.pass s deadlines).toStatus q.incarnation))
    q.now
    = q.pass s deadlines
  cases hp : s.pass with
  | none => exact PassPhase.fromStatus_toStatus _ _ _
  | some old =>
    simp only [mergedPass]
    split
    · next hk =>
      have hstored : s.storedPass q.now = .fromStatus old q.now := by
        simp only [Status.storedPass, hp]
      have hkind : (q.pass s deadlines).kind = (s.storedPass q.now).kind := by
        have hnew := (records_toStatus (q.pass s deadlines) q.incarnation).kind
        have hold : (PassPhase.fromStatus old q.now).kind = old.kind := by
          unfold PassPhase.fromStatus
          cases old.kind <;> rfl
        rw [hstored, hold, hk, hnew]
      have hobs := projectedPass_of_kind_eq s deadlines q hkind
      rw [PassPhase.fromStatus_patchedPass old (records_toStatus _ _), ← hstored]
      rw [hobs] at hkind ⊢
      exact (PassPhase.observe_eq_retarget hkind).symm
    · exact PassPhase.fromStatus_toStatus _ _ _

/-- The progress record is the same, and a record written anew names this process. -/
theorem stallsByName_of_next {heartbeat : Time}
    (h : StallsByName (q.next s deadlines) heartbeat q.now deadlines q.incarnation) :
    StallsByName s heartbeat q.now deadlines q.incarnation := by
  refine h.imp_left (fun ⟨howner, hlate⟩ => ⟨fun he => howner ?_, hlate⟩)
  change (mergedPass s.pass ((q.pass s deadlines).toStatus q.incarnation)).incarnation = _
  have hnew : ((q.pass s deadlines).toStatus q.incarnation).incarnation = some q.incarnation := by
    cases q.pass s deadlines <;> rfl
  cases hp : s.pass with
  | none => exact hnew
  | some old =>
    simp only [mergedPass]
    split
    · rw [hp] at he
      exact he
    · exact hnew

/-- An active pass after a projection was not stalled by name, and only observed. -/
theorem observed_of_active (h : (q.pass s deadlines).kind.Active) :
    namedStall s (s.storedPass q.now) q.now deadlines q.incarnation = s.storedPass q.now ∧
      q.pass s deadlines = (s.storedPass q.now).observe q.live q.now := by
  unfold Projection.pass projectedPass at h ⊢
  rcases watchdog_eq_or_stalled q.now deadlines
    ((namedStall s (s.storedPass q.now) q.now deadlines q.incarnation).observe q.live q.now)
    with hw | hw
  · rw [hw] at h ⊢
    rcases namedStall_eq_or_stalled s (s.storedPass q.now) q.now deadlines q.incarnation
      with hn | hn
    · rw [hn]
      exact ⟨rfl, rfl⟩
    · rw [PassPhase.observe_of_kind_stalled hn] at h
      exact absurd h PassKind.not_active_stalled
  · rw [hw] at h
    exact absurd h PassKind.not_active_stalled

/-- What is read back after a projection is not stalled by name a second time. -/
theorem namedStall_next :
    namedStall (q.next s deadlines) (q.pass s deadlines) q.now deadlines q.incarnation =
      q.pass s deadlines := by
  by_cases ha : (q.pass s deadlines).kind.Active
  · obtain ⟨hnamed, hobs⟩ := observed_of_active s deadlines q ha
    have hstored := (projectedPass_of_active ha).1
    -- both kinds of active pass keep their heartbeat when they observe
    have again {heartbeat : Time}
        (hfirst : namedStallActive s (s.storedPass q.now) heartbeat q.now deadlines q.incarnation =
          s.storedPass q.now) :
        namedStallActive (q.next s deadlines) (q.pass s deadlines) heartbeat q.now deadlines
          q.incarnation = q.pass s deadlines := by
      rw [namedStallActive_eq_self_iff] at hfirst ⊢
      · exact fun hn => hfirst (stallsByName_of_next s deadlines q hn)
      · rintro he
        exact PassKind.not_active_stalled (he ▸ ha)
      · rintro he
        exact PassKind.not_active_stalled (he ▸ hstored)
    cases hp : s.storedPass q.now with
    | planning g startedAt heartbeat queued =>
      have hpass : ∃ queue, q.pass s deadlines = .planning g startedAt heartbeat queue := by
        rw [hobs, hp, PassPhase.observe_planning]
        split <;> exact ⟨_, rfl⟩
      obtain ⟨queue, hpass⟩ := hpass
      rw [hp] at hnamed again
      have hagain := again hnamed
      rw [hpass] at hagain ⊢
      exact hagain
    | applying g startedAt heartbeat queued =>
      have hpass : ∃ queue, q.pass s deadlines = .applying g startedAt heartbeat queue := by
        rw [hobs, hp, PassPhase.observe_applying]
        split <;> exact ⟨_, rfl⟩
      obtain ⟨queue, hpass⟩ := hpass
      rw [hp] at hnamed again
      have hagain := again hnamed
      rw [hpass] at hagain ⊢
      exact hagain
    | _ =>
      rw [hp] at hstored
      rcases hstored with h | h <;> cases h
  · cases hp : q.pass s deadlines with
    | planning g startedAt heartbeat queued => exact absurd (.inl (by rw [hp]; rfl)) ha
    | applying g startedAt heartbeat queued => exact absurd (.inr (by rw [hp]; rfl)) ha
    | _ => rfl

theorem projectedPass_next_of_covers (h : Covers (q.pass s deadlines) q.live) :
    q.pass (q.next s deadlines) deadlines = q.pass s deadlines := by
  have hobs : (q.pass s deadlines).observe q.live q.now = q.pass s deadlines :=
    PassPhase.observe_eq_self (eventPass_queueBeyond deadlines s (.project q)) h q.now
  change ((namedStall (q.next s deadlines) ((q.next s deadlines).storedPass q.now) q.now deadlines
    q.incarnation).observe q.live q.now).watchdog q.now deadlines = _
  rw [storedPass_next, namedStall_next, hobs]
  exact PassPhase.watchdog_watchdog _ _ _

end Again

/-- Everything of a condition but its transition time. -/
def Condition.key (c : Condition) : String × String × String × String × Option Int :=
  (c.type, c.status, c.reason, c.message, c.observedGeneration)

theorem conditionsDiffer_eq_false_iff (a b : List Condition) :
    conditionsDiffer a b = false ↔ (a.map Condition.key).Perm (b.map Condition.key) := by
  change (!(a.map Condition.key).isPerm (b.map Condition.key)) = false ↔ _
  rw [Bool.not_eq_false', List.isPerm_iff]

theorem map_key_mergeConditionTransitions (prev new : List Condition) :
    (mergeConditionTransitions prev new).map Condition.key = new.map Condition.key := by
  unfold mergeConditionTransitions
  rw [List.map_map]
  refine List.map_congr_left (fun n _ => ?_)
  simp only [Function.comp_apply]
  split
  · split <;> rfl
  · rfl

section Conditions

variable (pass : PassPhase) (observed live : Int) (now : Time)

/-- A `Ready` or `Settled` condition that is true. -/
def Condition.ClaimsGood (c : Condition) : Prop :=
  (c.type = "Ready" ∨ c.type = "Settled") ∧ c.status = "True"

def MayClaimGood : Prop := live ≤ observed ∧ pass.kind ≠ .stalled ∧ pass.kind ≠ .failed

instance (c : Condition) : Decidable c.ClaimsGood := inferInstanceAs (Decidable (_ ∧ _))

instance : Decidable (MayClaimGood pass observed live) := inferInstanceAs (Decidable (_ ∧ _))

/-- A `Reconciling` condition that is to be raised. -/
def Condition.Behind (c : Condition) : Prop :=
  c.type = "Reconciling" ∧ c.status ≠ "True" ∧ observed < live

instance (c : Condition) : Decidable (c.Behind observed live) := inferInstanceAs (Decidable (_ ∧ _))

def behindReason : String :=
  pass.blockedBehind.getD s!"observed generation {observed} is behind generation {live}"

def takenBackMessage : String :=
  if live ≤ observed then s!"pass for generation {pass.generation} is {pass.kind.name}"
  else behindReason pass observed live

/-- A good claim is taken back, a `Reconciling` condition raised while the status is behind, any
other one kept, and each is stamped with the live generation. -/
theorem projectCondition_eq (c : Condition) :
    projectCondition pass observed live c =
      if c.ClaimsGood ∧ ¬MayClaimGood pass observed live then
        { c with
          status := "False"
          reason := if live ≤ observed then "PassNotHealthy" else "GenerationBehind"
          message := takenBackMessage pass observed live
          observedGeneration := some live }
      else if c.Behind observed live then
        { c with
          status := "True"
          reason := "GenerationBehind"
          message := behindReason pass observed live
          observedGeneration := some live }
      else { c with observedGeneration := some live } := by
  by_cases hg : c.ClaimsGood ∧ ¬MayClaimGood pass observed live
  · have ht : c.type ≠ "Reconciling" := by
      intro he
      rcases hg.1.1 with h | h <;> rw [h] at he <;> exact absurd he (by decide)
    have hcode : (c.type = "Ready" ∨ c.type = "Settled") ∧ c.status = "True" ∧
        ¬(live ≤ observed ∧ pass.kind ≠ .stalled ∧ pass.kind ≠ .failed) := ⟨hg.1.1, hg.1.2, hg.2⟩
    rw [if_pos hg]
    unfold projectCondition
    simp only [if_pos hcode, ht, false_and, if_false]
    rfl
  · have hcode : ¬((c.type = "Ready" ∨ c.type = "Settled") ∧ c.status = "True" ∧
        ¬(live ≤ observed ∧ pass.kind ≠ .stalled ∧ pass.kind ≠ .failed)) :=
      fun h => hg ⟨⟨h.1, h.2.1⟩, h.2.2⟩
    rw [if_neg hg]
    unfold projectCondition
    simp only [if_neg hcode, Condition.Behind, not_le]
    rfl

theorem key_projectCondition_congr {c d : Condition} (h : c.key = d.key) :
    (projectCondition pass observed live c).key = (projectCondition pass observed live d).key := by
  simp only [Condition.key, Prod.mk.injEq] at h
  obtain ⟨ht, hs, hr, hm, -⟩ := h
  have hgood : c.ClaimsGood ↔ d.ClaimsGood := by
    rw [Condition.ClaimsGood, Condition.ClaimsGood, ht, hs]
  have hbehind : c.Behind observed live ↔ d.Behind observed live := by
    rw [Condition.Behind, Condition.Behind, ht, hs]
  rw [projectCondition_eq, projectCondition_eq]
  simp only [hgood, hbehind]
  split
  · simp only [Condition.key, ht]
  · split
    · simp only [Condition.key, ht]
    · simp only [Condition.key, ht, hs, hr, hm]

theorem type_projectCondition (c : Condition) :
    (projectCondition pass observed live c).type = c.type := by
  rw [projectCondition_eq]
  split
  · rfl
  · split <;> rfl

theorem projectCondition_projectCondition (c : Condition) :
    projectCondition pass observed live (projectCondition pass observed live c) =
      projectCondition pass observed live c := by
  rw [projectCondition_eq pass observed live c]
  split
  · next hg =>
    rw [projectCondition_eq,
      if_neg (fun h => absurd (show "False" = "True" from h.1.2) (by decide)),
      if_neg]
    rintro ⟨ht, -⟩
    rcases hg.1.1 with h | h <;> rw [h] at ht <;> exact absurd ht (by decide)
  · next hg =>
    split
    · next hr =>
      rw [projectCondition_eq, if_neg, if_neg (fun h => absurd rfl h.2.1)]
      rintro ⟨⟨ht, -⟩, -⟩
      rw [hr.1] at ht
      rcases ht with h | h <;> exact absurd h (by decide)
    · next hr =>
      rw [projectCondition_eq]
      exact (if_neg hg).trans (if_neg hr)

theorem type_stalledCondition : (stalledCondition pass live now).type = "Stalled" := by
  cases pass <;> rfl

theorem map_key_filter_congr {cs ds : List Condition}
    (h : cs.map Condition.key = ds.map Condition.key) :
    ((cs.map (projectCondition pass observed live)).filter (fun c => c.type ≠ "Stalled")).map
        Condition.key =
      ((ds.map (projectCondition pass observed live)).filter (fun c => c.type ≠ "Stalled")).map
        Condition.key := by
  induction cs generalizing ds with
  | nil =>
    cases ds with
    | nil => rfl
    | cons d ds => simp at h
  | cons c cs ih =>
    cases ds with
    | nil => simp at h
    | cons d ds =>
      obtain ⟨hhead, htail⟩ := List.cons.inj h
      have ht : c.type = d.type := congrArg Prod.fst hhead
      have hkey := key_projectCondition_congr pass observed live hhead
      have hrest := ih htail
      by_cases hs : d.type = "Stalled"
      · simp only [List.map_cons, List.filter_cons, type_projectCondition, ht, hs, ne_eq,
          not_true, decide_false, Bool.false_eq_true, if_false]
        exact hrest
      · simp only [List.map_cons, List.filter_cons, type_projectCondition, ht, hs, ne_eq,
          not_false_eq_true, decide_true, if_true, List.map_cons, hkey]
        exact congrArg _ hrest

/-- A projected list projects to itself. -/
theorem projectConditions_projectConditions (cs : List Condition) :
    projectConditions (projectConditions cs pass observed live now) pass observed live now =
      projectConditions cs pass observed live now := by
  have hkept : ∀ c ∈ (cs.map (projectCondition pass observed live)).filter
      (fun c => c.type ≠ "Stalled"), projectCondition pass observed live c = c := by
    intro c hc
    obtain ⟨d, -, rfl⟩ := List.mem_map.mp (List.mem_of_mem_filter hc)
    exact projectCondition_projectCondition pass observed live d
  unfold projectConditions
  rw [List.map_append, List.map_congr_left hkept, List.map_id', List.filter_append,
    List.filter_filter]
  simp [type_projectCondition, type_stalledCondition]

/-- A list with the content of a projected one keeps that content when it is projected. -/
theorem map_key_projectConditions {cs ds : List Condition}
    (h : ds.map Condition.key = (projectConditions cs pass observed live now).map Condition.key) :
    (projectConditions ds pass observed live now).map Condition.key = ds.map Condition.key := by
  have hcongr := map_key_filter_congr pass observed live h
  rw [h, ← projectConditions_projectConditions pass observed live now cs]
  unfold projectConditions at hcongr ⊢
  rw [List.map_append, List.map_append, hcongr]

end Conditions

def violatesGenerationInvariant (conditions : List Condition) (observed live : Int) : Bool :=
  conditions.any (fun c =>
    c.status = "True" && (c.type = "Ready" || c.type = "Settled") &&
      (observed < live || match c.observedGeneration with
        | none => true
        | some g => g < live))

/-- What a reader of the conditions may rely on. -/
structure HonestConditions (conditions : List Condition) (pass : PassKind) (observed live : Int) :
    Prop where
  good : ∀ c ∈ conditions, c.ClaimsGood → live ≤ observed ∧ pass ≠ .failed ∧ pass ≠ .stalled
  generation : violatesGenerationInvariant conditions observed live = false
  oneStalled : conditions.countP (fun c => c.type = "Stalled") = 1
  stalled : ∀ c ∈ conditions, c.type = "Stalled" → (c.status = "True" ↔ pass = .stalled)

section Honest

variable {pass : PassPhase} {observed live : Int}

theorem mayClaimGood_of_projected {c : Condition}
    (h : (projectCondition pass observed live c).ClaimsGood) : MayClaimGood pass observed live := by
  by_contra hmay
  rw [projectCondition_eq] at h
  by_cases hg : c.ClaimsGood
  · rw [if_pos ⟨hg, hmay⟩] at h
    exact absurd (show "False" = "True" from h.2) (by decide)
  · rw [if_neg (fun hn => hg hn.1)] at h
    split at h
    · next hr =>
      have ht : c.type = "Ready" ∨ c.type = "Settled" := h.1
      rw [hr.1] at ht
      rcases ht with h | h <;> exact absurd h (by decide)
    · exact hg h

theorem observedGeneration_projectCondition (c : Condition) :
    (projectCondition pass observed live c).observedGeneration = some live := by
  rw [projectCondition_eq]
  split
  · rfl
  · split <;> rfl

theorem observedGeneration_stalledCondition (now : Time) :
    (stalledCondition pass live now).observedGeneration = some live := by
  cases pass <;> rfl

theorem status_stalledCondition (now : Time) :
    (stalledCondition pass live now).status = "True" ↔ pass.kind = .stalled := by
  cases pass <;> simp [stalledCondition, PassPhase.kind]

theorem violatesGenerationInvariant_eq_false {conditions : List Condition}
    (hgood : ∀ c ∈ conditions, c.ClaimsGood → live ≤ observed)
    (hstamp : ∀ c ∈ conditions, c.observedGeneration = some live) :
    violatesGenerationInvariant conditions observed live = false := by
  unfold violatesGenerationInvariant
  rw [List.any_eq_false]
  intro c hc hv
  simp only [hstamp c hc, Bool.and_eq_true, Bool.or_eq_true, decide_eq_true_eq, lt_self_iff_false,
    or_false] at hv
  exact absurd (hgood c hc ⟨hv.1.2, hv.1.1⟩) (not_le.mpr hv.2)

/-- A projected condition comes from one of the list, or is the stall. -/
theorem mem_projectConditions {conditions : List Condition} {pass : PassPhase}
    {observed live : Int} {now : Time} {c : Condition}
    (hc : c ∈ projectConditions conditions pass observed live now) :
    (c.type ≠ "Stalled" ∧ ∃ d ∈ conditions, projectCondition pass observed live d = c) ∨
      c = stalledCondition pass live now := by
  rcases List.mem_append.mp hc with hc | hc
  · obtain ⟨hm, ht⟩ := List.mem_filter.mp hc
    exact .inl ⟨of_decide_eq_true ht, List.mem_map.mp hm⟩
  · exact .inr (List.mem_singleton.mp hc)

theorem honest_projectConditions (conditions : List Condition) (now : Time) :
    HonestConditions (projectConditions conditions pass observed live now) pass.kind observed
      live := by
  have hgood : ∀ c ∈ projectConditions conditions pass observed live now, c.ClaimsGood →
      MayClaimGood pass observed live := by
    intro c hc hg
    rcases mem_projectConditions hc with ⟨-, d, -, rfl⟩ | rfl
    · exact mayClaimGood_of_projected hg
    · have ht := hg.1
      rw [type_stalledCondition] at ht
      rcases ht with h | h <;> exact absurd h (by decide)
  refine ⟨fun c hc hg => ⟨(hgood c hc hg).1, (hgood c hc hg).2.2, (hgood c hc hg).2.1⟩, ?_, ?_, ?_⟩
  · refine violatesGenerationInvariant_eq_false (fun c hc hg => (hgood c hc hg).1) (fun c hc => ?_)
    rcases mem_projectConditions hc with ⟨-, d, -, rfl⟩ | rfl
    · exact observedGeneration_projectCondition d
    · exact observedGeneration_stalledCondition now
  · unfold projectConditions
    rw [List.countP_append, List.countP_filter]
    simp [type_stalledCondition]
  · intro c hc ht
    rcases mem_projectConditions hc with ⟨hn, -⟩ | rfl
    · exact absurd ht hn
    · exact status_stalledCondition now

/-- Neither the order of the conditions nor their transition times matter. -/
theorem HonestConditions.of_perm {cs ds : List Condition} {kind : PassKind}
    (h : HonestConditions ds kind observed live)
    (hp : (cs.map Condition.key).Perm (ds.map Condition.key)) :
    HonestConditions cs kind observed live := by
  have hsame {c : Condition} (hc : c ∈ cs) : ∃ d ∈ ds, d.type = c.type ∧ d.status = c.status ∧
      d.observedGeneration = c.observedGeneration := by
    obtain ⟨d, hd, hk⟩ := List.mem_map.mp (hp.subset (List.mem_map_of_mem hc))
    simp only [Condition.key, Prod.mk.injEq] at hk
    exact ⟨d, hd, hk.1, hk.2.1, hk.2.2.2.2⟩
  have hcount (l : List Condition) : l.countP (fun c => c.type = "Stalled") =
      (l.map Condition.key).countP (fun k => k.1 = "Stalled") := by
    rw [List.countP_map]
    rfl
  refine ⟨fun c hc hg => ?_, List.any_eq_false.mpr (fun c hc => ?_), ?_, fun c hc ht => ?_⟩
  · obtain ⟨d, hd, ht, hs, -⟩ := hsame hc
    exact h.good d hd ⟨by rw [ht]; exact hg.1, by rw [hs]; exact hg.2⟩
  · obtain ⟨d, hd, ht, hs, hgen⟩ := hsame hc
    have hv := List.any_eq_false.mp h.generation d hd
    rwa [ht, hs, hgen] at hv
  · rw [hcount, hp.countP_eq, ← hcount]
    exact h.oneStalled
  · obtain ⟨d, hd, hdt, hs, -⟩ := hsame hc
    rw [← hs]
    exact h.stalled d hd (hdt.trans ht)

end Honest

/-- What a projection computes and what it leaves in the stored document are both honest, whatever
conditions were stored before. -/
theorem projected_conditions_honest {stored : Doc} {s : Status} (hs : Status.read stored = some s)
    (live : Int) (now : Time) (deadlines : Deadlines) (incarnation : String) :
    let projection := projectStatus s live now deadlines incarnation
    HonestConditions projection.conditions projection.pass.kind projection.observedGeneration live ∧
      ∃ t p, Status.read (project stored live now deadlines incarnation) = some t ∧
        t.pass = some p ∧ HonestConditions t.conditions p.kind t.observedGeneration live := by
  intro projection
  have hprojected : HonestConditions projection.conditions projection.pass.kind
      projection.observedGeneration live := by
    refine (honest_projectConditions s.conditions now).of_perm ?_
    exact .of_eq (map_key_mergeConditionTransitions _ _)
  refine ⟨hprojected, _, _, read_project hs live now deadlines incarnation, rfl, ?_⟩
  rw [(records_mergedPass s.pass (records_toStatus _ incarnation)).kind]
  change HonestConditions (if conditionsDiffer s.conditions projection.conditions then
    projection.conditions else s.conditions) _ _ _
  split
  · exact hprojected
  · next hd =>
    exact hprojected.of_perm ((conditionsDiffer_eq_false_iff _ _).mp (Bool.not_eq_true _ ▸ hd))

/-- A `Ready` that is true twice over, stored for a generation that is one behind. -/
def doublyReady : Status :=
  { conditions := [⟨"Ready", "True", 0, "Ready", "Infrastructure is up to date", some 1⟩,
      ⟨"Ready", "True", 0, "Ready", "", none⟩, ⟨"Stalled", "True", 0, "Stalled", "", none⟩]
    observedGeneration := 1 }

theorem doubly_ready_taken_back :
    Status.read doublyReady.toJson = some doublyReady ∧
      HonestConditions (projectStatus doublyReady 2 0 {} "operator").conditions
        (projectStatus doublyReady 2 0 {} "operator").pass.kind
        (projectStatus doublyReady 2 0 {} "operator").observedGeneration 2 :=
  ⟨doublyReady.read_toJson,
    (projected_conditions_honest doublyReady.read_toJson 2 0 {} "operator").1⟩

section FixedPoint

variable {stored : Doc} {s : Status} {deadlines : Deadlines} {q : Projection}

/-- Projected again at the same instant, the stored document calls for no patch, and its pass reads
back as the one that was projected. -/
def ProjectionFixed (stored : Doc) (s : Status) (deadlines : Deadlines) (q : Projection) : Prop :=
  ∃ t p, Status.read (project stored q.live q.now deadlines q.incarnation) = some t ∧
    projectionPatch t (projectStatus t q.live q.now deadlines q.incarnation) q.incarnation = none ∧
    t.pass = some p ∧
    PassPhase.fromStatus p q.now = (projectStatus s q.live q.now deadlines q.incarnation).pass

theorem covers_congr {p p' : PassPhase} (hg : p.generation = p'.generation)
    (hq : p.queued.map Queued.generation = p'.queued.map Queued.generation) (live : Int) :
    Covers p live ↔ Covers p' live := by
  rw [Covers, Covers, hg, hq]

/-- A pass that misses the live generation is no active one, so it is caught up with next time. -/
theorem covers_next_of_not_covers (h : ¬Covers (q.pass s deadlines) q.live) :
    Covers (q.pass (q.next s deadlines) deadlines) q.live := by
  have hna : ¬(q.pass s deadlines).kind.Active := by
    intro ha
    obtain ⟨-, hg, hq⟩ := projectedPass_of_active ha
    refine h ?_
    rw [Covers, hg, hq]
    by_cases hl : q.live ≤ (s.storedPass q.now).generation
    · exact .inl hl
    · rw [if_neg hl]
      exact .inr rfl
  rw [projectedPass_covers_iff]
  unfold BackstopDrops
  rw [storedPass_next]
  cases hp : q.pass s deadlines with
  | planning g startedAt heartbeat queued => exact absurd (.inl (by rw [hp]; rfl)) hna
  | applying g startedAt heartbeat queued => exact absurd (.inr (by rw [hp]; rfl)) hna
  | _ => exact id

/-- No patch for the pass means the same generation and queue. -/
theorem records_of_passPatch_none {old new : PassStatus} (h : passPatch (some old) new = none) :
    old.generation = new.generation ∧ old.queuedGeneration = new.queuedGeneration := by
  simp only [passPatch] at h
  split at h
  · split at h
    · next hf =>
      simp only [passFields, List.append_eq_nil_iff, ite_eq_right_iff, List.cons_ne_nil, imp_false,
        not_not] at hf
      exact hf.1
    · cases h
  · cases h

/-- A projection that finds nothing to write was preceded by one that covered its generation. -/
theorem covers_of_quiet
    (h : projectionPatch (q.next s deadlines)
      (projectStatus (q.next s deadlines) q.live q.now deadlines q.incarnation)
        q.incarnation = none) :
    Covers (q.pass s deadlines) q.live := by
  by_contra hc
  have hnext := covers_next_of_not_covers hc
  unfold projectionPatch at h
  dsimp only at h
  split at h
  · next hall =>
    have hpass := List.all_eq_true.mp hall _ (List.mem_cons_self ..)
    obtain ⟨hg, hq⟩ := records_of_passPatch_none (Option.isNone_iff_eq_none.mp hpass)
    have hold := records_mergedPass s.pass (records_toStatus (q.pass s deadlines) q.incarnation)
    have hnew := records_toStatus (q.pass (q.next s deadlines) deadlines) q.incarnation
    refine hc ((covers_congr ?_ ?_ _).mpr hnext)
    · rw [← hold.generation, ← hnew.generation]
      exact hg
    · rw [← hold.queuedGeneration, ← hnew.queuedGeneration]
      exact hq
  · cases h

theorem observedGeneration_observedGeneration (p : PassPhase) (previous : Int) :
    p.observedGeneration (p.observedGeneration previous) = p.observedGeneration previous := by
  cases p with
  | settled g => simp [PassPhase.observedGeneration]
  | failed g reason =>
    simp only [PassPhase.observedGeneration]
    split <;> simp
  | _ => rfl

theorem passPatch_of_records {old new : PassStatus} {p : PassPhase} (ho : Records old p)
    (hn : Records new p) : passPatch (some old) new = none := by
  have hf : passFields old new = [] := by
    simp [passFields, ho.generation, hn.generation, ho.queuedGeneration, hn.queuedGeneration,
      ho.queuedSince, hn.queuedSince]
  simp [passPatch, hf, ho.kind, hn.kind]

/-- The conditions of the second projection have the content of the stored ones. -/
theorem conditionsDiffer_next (hpass : q.pass (q.next s deadlines) deadlines = q.pass s deadlines) :
    conditionsDiffer (q.next s deadlines).conditions
      (projectStatus (q.next s deadlines) q.live q.now deadlines q.incarnation).conditions =
        false := by
  let observed := (q.pass s deadlines).observedGeneration s.observedGeneration
  have hagain : (projectStatus (q.next s deadlines) q.live q.now deadlines
      q.incarnation).conditions =
      mergeConditionTransitions (q.next s deadlines).conditions
        (projectConditions (q.next s deadlines).conditions (q.pass s deadlines) observed q.live
          q.now) := by
    change mergeConditionTransitions _ (projectConditions _ (q.pass (q.next s deadlines) deadlines)
      ((q.pass (q.next s deadlines) deadlines).observedGeneration observed) _ _) = _
    rw [hpass, observedGeneration_observedGeneration]
  rw [conditionsDiffer_eq_false_iff, hagain, map_key_mergeConditionTransitions]
  have hfirst : ((projectStatus s q.live q.now deadlines q.incarnation).conditions).map
      Condition.key =
        (projectConditions s.conditions (q.pass s deadlines) observed q.live q.now).map
          Condition.key := map_key_mergeConditionTransitions _ _
  by_cases hd : conditionsDiffer s.conditions
      (projectStatus s q.live q.now deadlines q.incarnation).conditions
  · have hconds : (q.next s deadlines).conditions =
        (projectStatus s q.live q.now deadlines q.incarnation).conditions := if_pos hd
    rw [hconds]
    exact .of_eq (map_key_projectConditions _ _ _ _ hfirst).symm
  · have hconds : (q.next s deadlines).conditions = s.conditions := if_neg hd
    rw [hconds, ← hfirst]
    exact (conditionsDiffer_eq_false_iff _ _).mp (Bool.not_eq_true _ ▸ hd)

theorem quiet_of_covers (hc : Covers (q.pass s deadlines) q.live) :
    projectionPatch (q.next s deadlines)
      (projectStatus (q.next s deadlines) q.live q.now deadlines q.incarnation) q.incarnation =
        none := by
  have hpass := projectedPass_next_of_covers s deadlines q hc
  have hrecord := passPatch_of_records
    (records_mergedPass s.pass (records_toStatus (q.pass s deadlines) q.incarnation))
    (records_toStatus (q.pass s deadlines) q.incarnation)
  have hconds := conditionsDiffer_next hpass
  unfold projectionPatch
  refine if_pos ?_
  simp only [projectionFields, List.all_cons, List.all_nil, Bool.and_true, Bool.and_eq_true,
    Option.isNone_iff_eq_none, hconds, Bool.false_eq_true, if_false, true_and]
  refine ⟨?_, ?_, ?_⟩
  · change passPatch _ ((q.pass (q.next s deadlines) deadlines).toStatus q.incarnation) = none
    rw [hpass]
    exact hrecord
  · refine if_neg (not_not.mpr ?_)
    change (q.pass (q.next s deadlines) deadlines).observedGeneration
      ((q.pass s deadlines).observedGeneration s.observedGeneration) =
        (q.pass s deadlines).observedGeneration s.observedGeneration
    rw [hpass, observedGeneration_observedGeneration]
  · refine if_neg (not_not.mpr ?_)
    change (q.pass (q.next s deadlines) deadlines).lagSince = (q.pass s deadlines).lagSince
    rw [hpass]

/-- A projection is final exactly where the backstop does not drop a queued generation. -/
theorem projection_fixed_iff (hs : Status.read stored = some s) :
    ProjectionFixed stored s deadlines q ↔ ¬BackstopDrops s deadlines q := by
  rw [← projectedPass_covers_iff]
  have hread := read_project hs q.live q.now deadlines q.incarnation
  constructor
  · rintro ⟨t, p, ht, hquiet, -, -⟩
    cases hread.symm.trans ht
    exact covers_of_quiet hquiet
  · intro hc
    exact ⟨_, _, hread, quiet_of_covers hc, rfl, storedPass_next s deadlines q⟩

end FixedPoint

/-- The same long apply while nothing newer has arrived. -/
theorem long_apply_projection_fixed :
    Status.read longApply.toJson = some longApply ∧
      ProjectionFixed longApply.toJson longApply {} ⟨1, seconds 7201, "operator"⟩ :=
  ⟨longApply.read_toJson, (projection_fixed_iff longApply.read_toJson).mpr
    (fun h => absurd h.2.1 (by decide))⟩

/-- The backstop stores generation 1, and the next projection moves it to 2. -/
theorem long_apply_projection_not_fixed :
    ¬ProjectionFixed longApply.toJson longApply {} ⟨2, seconds 7201, "operator"⟩ := by
  rintro ⟨t, p, ht, hquiet, -, -⟩
  cases (read_project longApply.read_toJson _ _ _ _).symm.trans ht
  have hc := covers_of_quiet hquiet
  rw [projectedPass_covers_iff] at hc
  exact hc ⟨by rfl, by decide, by decide, by decide, by decide⟩

end PangeaOperator
