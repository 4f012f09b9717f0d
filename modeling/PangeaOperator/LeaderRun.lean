import PangeaOperator.Leader

/-!
# One pod reconciles

A lease that a pod wrote stands until it expires: nobody decides to take it before. As long
as no pod still reconciles when the lease it last wrote expires, no two pods reconcile.
-/

namespace PangeaOperator

open Cluster

theorem microTime_le (t : Time) : microTime t ≤ t := by
  unfold microTime Time at *
  omega

theorem microTime_aligned (t : Time) : microTime t % 1000 = 0 := by
  unfold microTime Time at *
  omega

theorem le_microTime {rt now : Time} (haligned : rt % 1000 = 0) (h : rt ≤ now) :
    rt ≤ microTime now := by
  unfold microTime Time at *
  omega

/-- Another's lease that is not yet over is left alone. -/
theorem decideLease_other {identity holder : String} (hne : holder ≠ identity)
    (hempty : holder ≠ "")
    {rt now : Time} {d : Int32} (h : now ≤ rt + leaseSpan d) :
    decideLease identity (some holder) (some rt) d now = .wait := by
  have hfresh : ¬now - rt > leaseSpan d := by linarith
  simp [decideLease, hne, hempty, hfresh]

section Election

variable {leaseDuration : UInt64}

/-- How long a lease written by any of the pods lasts. -/
def writtenSpan (leaseDuration : UInt64) : Time := leaseSpan (durationSecs leaseDuration)

/-- The lease is the one that the pod wrote with this renew time. -/
def Stands (leaseDuration : UInt64) (i : PodIdentity) (rt : Time) (lease : Option Lease) : Prop :=
  ∃ l spec, lease = some l ∧ l.spec = some spec ∧ spec.holderIdentity = some i.val ∧
    spec.renewTime = some rt ∧ spec.leaseDurationSeconds = some (durationSecs leaseDuration)

/-- What holds of one pod beside the clock, the lease and the version counter. -/
structure PodSound (leaseDuration : UInt64) (clock : Time) (lease : Option Lease) (version : Nat)
    (i : PodIdentity) (p : Pod) : Prop where
  past : ∀ rt, p.written = some rt → rt ≤ clock ∧ rt % 1000 = 0
  ticked : ∀ tick now, p.tick = some tick → tick.now = some now →
    now ≤ clock ∧ ∀ rt, p.written = some rt → rt ≤ now
  replacing : ∀ now existing, p.tick = some (.replacing now existing) →
    existing.resourceVersion ≤ version ∧
    (∀ l, lease = some l → l.resourceVersion = existing.resourceVersion → l = existing) ∧
    decideLease i.val (existing.spec.getD {}).holderIdentity (existing.spec.getD {}).renewTime
      ((existing.spec.getD {}).leaseDurationSeconds.getD (durationSecs leaseDuration)) now =
      .acquire
  held : p.tick = some (.answered .held) → p.written ≠ none
  stands : ∀ rt, p.written = some rt → clock ≤ rt + writtenSpan leaseDuration →
    Stands leaseDuration i rt lease
  covered : p.Reconciling → ∃ rt, p.written = some rt ∧ clock ≤ rt + writtenSpan leaseDuration

structure Elected (leaseDuration : UInt64) (c : Cluster) : Prop where
  version : ∀ l, c.lease = some l → l.resourceVersion ≤ c.version
  pods : ∀ i, PodSound leaseDuration c.clock c.lease c.version i (c.pods i)

/-- Where the election is in time: the clock does not pass the end of the lease that a reconciling
pod last wrote, and `acquire` does not return with a lease that is over. -/
def InTime (leaseDuration : UInt64) (c : Cluster) : ElectionEvent → Prop
  | .advance d => ∀ i, (c.pods i).Reconciling → ∀ rt, (c.pods i).written = some rt →
    c.clock + d ≤ rt + writtenSpan leaseDuration
  | .finish i => (c.pods i).mode = .acquiring → (c.pods i).tick = some (.answered .held) →
    ∀ rt, (c.pods i).written = some rt → c.clock ≤ rt + writtenSpan leaseDuration
  | _ => True

theorem podSound_fresh (clock : Time) (lease : Option Lease) (version : Nat) (i : PodIdentity)
    {p : Pod} (htick : p.tick = none) (hwritten : p.written = none) (hmode : ¬p.Reconciling) :
    PodSound leaseDuration clock lease version i p := by
  refine ⟨?_, ?_, ?_, ?_, ?_, fun h => absurd h hmode⟩
  · simp [hwritten]
  · simp [htick]
  · simp [htick]
  · simp [htick]
  · simp [hwritten]

theorem elected_start (clock : Time) (lease : Option Lease) :
    Elected leaseDuration (Cluster.start clock lease) := by
  refine ⟨?_, fun i => podSound_fresh clock lease _ i rfl rfl ?_⟩
  · rintro l hl
    rw [show lease = some l from hl]
    exact le_rfl
  · rintro (h | h | h) <;> cases h

/-- A step that changes one pod and nothing they share. -/
theorem elected_setPod {c : Cluster} (h : Elected leaseDuration c) {i : PodIdentity} {p : Pod}
    (hp : PodSound leaseDuration c.clock c.lease c.version i p) :
    Elected leaseDuration (c.setPod i p) := by
  refine ⟨h.version, fun j => ?_⟩
  by_cases hj : j = i
  · subst hj
    rw [setPod_same]
    exact hp
  · rw [setPod_other _ _ hj]
    exact h.pods j

/-- A pod whose tick moves on, to an answer that is not `held`. -/
theorem podSound_answered {c : Cluster} (h : Elected leaseDuration c) (i : PodIdentity)
    {answer : TickAnswer} (hanswer : answer ≠ .held) :
    PodSound leaseDuration c.clock c.lease c.version i
      { c.pods i with tick := some (.answered answer) } := by
  have hi := h.pods i
  refine ⟨hi.past, ?_, ?_, ?_, hi.stands, hi.covered⟩
  · rintro tick now htick hnow
    cases htick
    cases hnow
  · rintro now existing htick
    cases htick
  · intro htick
    cases htick
    exact absurd rfl hanswer

/-- A pod whose last write still stands keeps it against the write of another. -/
theorem podSound_other {c : Cluster} (h : Elected leaseDuration c) {j : PodIdentity}
    (spec : LeaseSpec)
    (hover : ∀ rt, (c.pods j).written = some rt → rt + writtenSpan leaseDuration < c.clock) :
    PodSound leaseDuration c.clock (some ⟨c.version + 1, some spec⟩) (c.version + 1) j
      (c.pods j) := by
  have hsound := h.pods j
  refine ⟨hsound.past, hsound.ticked, ?_, hsound.held, ?_, hsound.covered⟩
  · intro now existing htick
    obtain ⟨hle, -, hdecided⟩ := hsound.replacing now existing htick
    refine ⟨Nat.le_succ_of_le hle, fun l hl hversion => ?_, hdecided⟩
    cases hl
    exact absurd hversion (by simp only; omega)
  · intro rt hrt hin
    exact absurd hin (not_le.mpr (hover rt hrt))

/-- A write that the server takes, when every other pod's last write is over. -/
theorem elected_written {c : Cluster} (h : Elected leaseDuration c) {i : PodIdentity}
    {spec : LeaseSpec} {now : Time} (answer : TickAnswer)
    (hspec : spec.holderIdentity = some i.val ∧ spec.renewTime = some (microTime now) ∧
      spec.leaseDurationSeconds = some (durationSecs leaseDuration))
    (hnow : now ≤ c.clock ∧ ∀ rt, (c.pods i).written = some rt → rt ≤ now)
    (hover : ∀ j, j ≠ i → ∀ rt, (c.pods j).written = some rt →
      rt + writtenSpan leaseDuration < c.clock) :
    Elected leaseDuration (c.written i spec now answer) := by
  refine ⟨fun l hl => ?_, fun j => ?_⟩
  · cases hl
    exact le_rfl
  by_cases hj : j = i
  · subst hj
    rw [written, setPod_same]
    refine ⟨?_, ?_, ?_, fun _ => by simp, ?_, fun hrec => ?_⟩
    · rintro rt hrt
      cases hrt
      exact ⟨(microTime_le now).trans hnow.1, microTime_aligned now⟩
    · rintro tick now' htick hnow'
      cases htick
      cases hnow'
    · rintro now' existing htick
      cases htick
    · rintro rt hrt -
      cases hrt
      exact ⟨_, spec, rfl, rfl, hspec⟩
    · -- a renewal is not older than the write that covered the pod before
      obtain ⟨rt, hrt, hin⟩ := (h.pods j).covered hrec
      refine ⟨_, rfl, ?_⟩
      have hlater := le_microTime ((h.pods j).past rt hrt).2 (hnow.2 rt hrt)
      change c.clock ≤ _
      linarith
  · rw [written, setPod_other _ _ hj]
    exact podSound_other h spec (hover j hj)

theorem elected_answerTick {c : Cluster} (h : Elected leaseDuration c) (i : PodIdentity)
    {answer : TickAnswer} (hanswer : answer ≠ .held) :
    Elected leaseDuration (c.answerTick i answer) :=
  elected_setPod h (podSound_answered h i hanswer)

theorem elected_createLease {c : Cluster} (h : Elected leaseDuration c) {i : PodIdentity}
    {now : Time} (htick : (c.pods i).tick = some (.creating now)) (answer : TickAnswer)
    {conflict : TickAnswer} (hconflict : conflict ≠ .held) :
    Elected leaseDuration (c.createLease leaseDuration i now answer conflict) := by
  unfold createLease
  cases hl : c.lease with
  | none =>
    refine elected_written h answer ⟨rfl, rfl, rfl⟩ ((h.pods i).ticked _ now htick rfl) ?_
    intro j hj rt hrt
    by_contra hin
    obtain ⟨l, spec, hlease, -⟩ := (h.pods j).stands rt hrt (not_lt.mp hin)
    rw [hl] at hlease
    cases hlease
  | some l => exact elected_answerTick h i hconflict

theorem elected_replaceLease {c : Cluster} (h : Elected leaseDuration c) {i : PodIdentity}
    {now : Time} {existing : Lease} (htick : (c.pods i).tick = some (.replacing now existing))
    (answer : TickAnswer) {conflict : TickAnswer} (hconflict : conflict ≠ .held) :
    Elected leaseDuration (c.replaceLease leaseDuration i now existing answer conflict) := by
  unfold replaceLease
  split
  · next hversion =>
    have hnow := (h.pods i).ticked _ now htick rfl
    obtain ⟨-, hsame, hdecided⟩ := (h.pods i).replacing now existing htick
    refine elected_written h answer ⟨rfl, rfl, rfl⟩ hnow ?_
    intro j hj rt hrt
    by_contra hin
    -- the lease that was read is still there, and it is another pod's, not yet over
    obtain ⟨l, spec, hlease, hspec, hholder, hrenew, hduration⟩ :=
      (h.pods j).stands rt hrt (not_lt.mp hin)
    rw [hlease, Option.map_some, Option.some.injEq] at hversion
    have hread := hsame l hlease hversion
    subst hread
    rw [hspec, Option.getD_some, hholder, hrenew, hduration, Option.getD_some,
      decideLease_other (fun he => hj (Subtype.ext he)) j.property
        (hnow.1.trans (not_lt.mp hin))] at hdecided
    cases hdecided
  · exact elected_answerTick h i hconflict

theorem elected_writeTick {c : Cluster} (h : Elected leaseDuration c) (i : PodIdentity)
    (reply : WriteReply) : Elected leaseDuration (c.writeTick leaseDuration i reply) := by
  unfold writeTick
  cases htick : (c.pods i).tick with
  | none => exact h
  | some tick =>
    cases tick with
    | started now => exact h
    | answered answer => exact h
    | creating now =>
      cases reply with
      | answered => exact elected_createLease h htick .held (by decide)
      | lost => exact elected_createLease h htick .failed (by decide)
      | failed => exact elected_answerTick h i (by decide)
      | forbidden => exact elected_answerTick h i (by decide)
    | replacing now existing =>
      cases reply with
      | answered => exact elected_replaceLease h htick .held (by decide)
      | lost => exact elected_replaceLease h htick .failed (by decide)
      | failed => exact elected_answerTick h i (by decide)
      | forbidden => exact elected_answerTick h i (by decide)

theorem elected_start_tick {c : Cluster} (h : Elected leaseDuration c) (i : PodIdentity) :
    Elected leaseDuration (c.step leaseDuration (.start i)) := by
  unfold step
  dsimp only
  split
  · have hi := h.pods i
    refine elected_setPod h ⟨hi.past, ?_, ?_, ?_, hi.stands, hi.covered⟩
    · rintro tick now htick hnow
      cases htick
      cases hnow
      exact ⟨le_rfl, fun rt hrt => (hi.past rt hrt).1⟩
    · rintro now existing htick
      cases htick
    · intro htick
      cases htick
  · exact h

theorem podSound_creating {c : Cluster} {i : PodIdentity} {now : Time}
    (hi : PodSound leaseDuration c.clock c.lease c.version i (c.pods i))
    (hnow : now ≤ c.clock ∧ ∀ rt, (c.pods i).written = some rt → rt ≤ now) :
    PodSound leaseDuration c.clock c.lease c.version i
      { c.pods i with tick := some (.creating now) } := by
  refine ⟨hi.past, ?_, ?_, ?_, hi.stands, hi.covered⟩
  · rintro tick now' htick hnow'
    cases htick
    cases hnow'
    exact hnow
  · rintro now' existing htick
    cases htick
  · intro htick
    cases htick

/-- What a read can make of a tick. -/
theorem readTick_cases (leaseDuration : UInt64) (c : Cluster) (i : PodIdentity) (now : Time)
    (reply : ReadReply) :
    (∃ answer, answer ≠ .held ∧ c.readTick leaseDuration i now reply = .answered answer) ∨
    c.readTick leaseDuration i now reply = .creating now ∨
    ∃ existing, c.lease = some existing ∧
      decideLease i.val (existing.spec.getD {}).holderIdentity (existing.spec.getD {}).renewTime
        ((existing.spec.getD {}).leaseDurationSeconds.getD (durationSecs leaseDuration)) now =
          .acquire ∧
      c.readTick leaseDuration i now reply = .replacing now existing := by
  cases reply with
  | failed => exact .inl ⟨.failed, by decide, rfl⟩
  | forbidden => exact .inl ⟨.forbidden, by decide, rfl⟩
  | answered =>
    unfold readTick
    cases c.lease with
    | none => exact .inr (.inl rfl)
    | some existing =>
      dsimp only
      split
      · exact .inl ⟨.notHeld, by decide, rfl⟩
      · next hdecided => exact .inr (.inr ⟨existing, rfl, hdecided, rfl⟩)

theorem elected_read {c : Cluster} (h : Elected leaseDuration c) (i : PodIdentity)
    (reply : ReadReply) : Elected leaseDuration (c.step leaseDuration (.read i reply)) := by
  unfold step
  dsimp only
  cases htick : (c.pods i).tick with
  | none => exact h
  | some tick =>
    cases tick with
    | creating now => exact h
    | replacing now existing => exact h
    | answered answer => exact h
    | started now =>
      have hi := h.pods i
      have hnow := hi.ticked _ now htick rfl
      refine elected_setPod h ?_
      rcases readTick_cases leaseDuration c i now reply with
        ⟨answer, hanswer, hread⟩ | hread | ⟨existing, hlease, hdecided, hread⟩
      · rw [hread]
        exact podSound_answered h i hanswer
      · rw [hread]
        exact podSound_creating hi hnow
      · rw [hread]
        refine ⟨hi.past, ?_, ?_, nofun, hi.stands, hi.covered⟩
        · rintro tick now' ht hnow'
          cases ht
          cases hnow'
          exact hnow
        · rintro now' existing' ht
          cases ht
          refine ⟨h.version existing hlease, fun l hl _ => ?_, hdecided⟩
          rw [hlease] at hl
          exact (Option.some.inj hl).symm

theorem elected_finish {c : Cluster} (h : Elected leaseDuration c) (i : PodIdentity)
    (hin : InTime leaseDuration c (.finish i)) :
    Elected leaseDuration (c.step leaseDuration (.finish i)) := by
  unfold step
  dsimp only
  cases htick : (c.pods i).tick with
  | none => exact h
  | some tick =>
    cases tick with
    | started now => exact h
    | creating now => exact h
    | replacing now existing => exact h
    | answered answer =>
      have hi := h.pods i
      refine elected_setPod h ⟨hi.past, ?_, ?_, ?_, hi.stands, fun hrec => ?_⟩
      · rintro tick now ht
        cases ht
      · rintro now existing ht
        cases ht
      · intro ht
        cases ht
      · -- a pod that reconciles afterwards did before, or holds the lease it just wrote
        by_cases hbefore : (c.pods i).Reconciling
        · exact hi.covered hbefore
        · have hacquired : (c.pods i).mode = .acquiring ∧ answer = .held := by
            unfold Pod.Reconciling Pod.finish at *
            cases hmode : (c.pods i).mode <;> cases answer <;> simp_all
          obtain ⟨hmode, rfl⟩ := hacquired
          obtain ⟨rt, hrt⟩ := Option.ne_none_iff_exists'.mp (hi.held htick)
          exact ⟨rt, hrt, hin hmode htick rt hrt⟩

theorem elected_advance {c : Cluster} (h : Elected leaseDuration c) (d : Nat)
    (hin : InTime leaseDuration c (.advance d)) :
    Elected leaseDuration (c.step leaseDuration (.advance d)) := by
  refine ⟨h.version, fun i => ?_⟩
  have hi := h.pods i
  have hle : c.clock ≤ c.clock + d := by
    unfold Time at *
    omega
  refine ⟨?_, ?_, hi.replacing, hi.held, ?_, fun hrec => ?_⟩
  · intro rt hrt
    exact ⟨(hi.past rt hrt).1.trans hle, (hi.past rt hrt).2⟩
  · intro tick now htick hnow
    obtain ⟨hbefore, hwritten⟩ := hi.ticked tick now htick hnow
    exact ⟨hbefore.trans hle, hwritten⟩
  · intro rt hrt hclock
    exact hi.stands rt hrt (hle.trans hclock)
  · obtain ⟨rt, hrt, -⟩ := hi.covered hrec
    exact ⟨rt, hrt, hin i hrec rt hrt⟩

theorem elected_step (c : Cluster) (e : ElectionEvent) (hin : InTime leaseDuration c e)
    (h : Elected leaseDuration c) : Elected leaseDuration (c.step leaseDuration e) := by
  cases e with
  | advance d => exact elected_advance h d hin
  | start i => exact elected_start_tick h i
  | read i reply => exact elected_read h i reply
  | write i reply => exact elected_writeTick h i reply
  | finish i => exact elected_finish h i hin
  | terminate i =>
    unfold step
    dsimp only
    split
    · exact elected_setPod h (podSound_fresh _ _ _ i rfl rfl (by simp [Pod.Reconciling]))
    · next hmode =>
      have hi := h.pods i
      exact elected_setPod h ⟨hi.past, hi.ticked, hi.replacing, hi.held, hi.stands,
        fun _ => hi.covered (.inl hmode)⟩
    · exact h
  | abort i =>
    have hstopped : Elected leaseDuration (c.setPod i { mode := .stopped }) :=
      elected_setPod h (podSound_fresh _ _ _ i rfl rfl (by simp [Pod.Reconciling]))
    unfold step
    dsimp only
    split <;> assumption
  | restart i =>
    unfold step
    dsimp only
    split
    · exact elected_setPod h (podSound_fresh _ _ _ i rfl rfl (by simp [Pod.Reconciling]))
    · exact h

/-- Two pods that reconcile both have a lease that stands, and there is one lease. -/
theorem Elected.unique {c : Cluster} (h : Elected leaseDuration c) {i j : PodIdentity}
    (hi : (c.pods i).Reconciling) (hj : (c.pods j).Reconciling) : i = j := by
  obtain ⟨rt, hrt, hin⟩ := (h.pods i).covered hi
  obtain ⟨rt', hrt', hin'⟩ := (h.pods j).covered hj
  obtain ⟨l, spec, hlease, hspec, hholder, -⟩ := (h.pods i).stands rt hrt hin
  obtain ⟨l', spec', hlease', hspec', hholder', -⟩ := (h.pods j).stands rt' hrt' hin'
  rw [hlease] at hlease'
  cases hlease'
  rw [hspec] at hspec'
  cases hspec'
  rw [hholder] at hholder'
  exact Subtype.ext (Option.some.inj hholder')

/-- In every state of a run that stays in time at most one pod reconciles. -/
theorem one_pod_reconciles {clock : Time} {lease : Option Lease} {es : List ElectionEvent}
    (h : Along (Cluster.step leaseDuration) (Cluster.start clock lease) es
      (InTime leaseDuration)) :
    ∀ pre post, es = pre ++ post → ∀ i j,
      ((run (Cluster.step leaseDuration) (Cluster.start clock lease) pre).pods i).Reconciling →
      ((run (Cluster.step leaseDuration) (Cluster.start clock lease) pre).pods j).Reconciling →
      i = j := by
  intro pre post he i j hi hj
  rw [he, along_append_iff] at h
  exact (run_invariant_of_along elected_step (elected_start clock lease) h.1).unique hi hj

end Election

def podA : PodIdentity := ⟨"pangea-operator-a", by decide⟩
def podB : PodIdentity := ⟨"pangea-operator-b", by decide⟩

/-- An election tick whose requests all come back. -/
def tickOnce (i : PodIdentity) : List ElectionEvent :=
  [.start i, .read i .answered, .write i .answered, .finish i]

/-- One pod creates the lease, and the other waits for it. -/
theorem second_pod_waits :
    ((run (Cluster.step 15) (Cluster.start 0 none) (tickOnce podA ++ tickOnce podB)).pods
      podA).Reconciling ∧
    ¬((run (Cluster.step 15) (Cluster.start 0 none) (tickOnce podA ++ tickOnce podB)).pods
      podB).Reconciling := by
  have hfirst : ((run (Cluster.step 15) (Cluster.start 0 none)
      (tickOnce podA ++ tickOnce podB)).pods podA).Reconciling := .inl (by decide +kernel)
  refine ⟨hfirst, fun hsecond => ?_⟩
  have halong : Along (Cluster.step 15) (Cluster.start 0 none) (tickOnce podA ++ tickOnce podB)
      (InTime 15) := by
    simp only [tickOnce, List.cons_append, List.nil_append, along_cons_iff]
    refine ⟨trivial, trivial, trivial, ?_, trivial, trivial, trivial, ?_, along_nil _ _ _⟩
    · rintro - - rt hrt
      cases hrt
      decide +kernel
    · intro _ htick
      exact absurd htick (by decide +kernel)
  exact absurd (one_pod_reconciles halong _ [] (List.append_nil _).symm podA podB hfirst hsecond)
    (by decide)

/-- The holder's renewals fail for as long as the lease lasts. -/
def failedRenewal : List ElectionEvent :=
  tickOnce podA ++ [.advance 10000000000, .start podA, .read podA .failed, .finish podA,
    .advance 6000000000] ++ tickOnce podB

/-- It keeps reconciling while another pod takes the lease over and starts. -/
theorem failed_renewal_keeps_reconciling :
    ¬∀ pre post, failedRenewal = pre ++ post → ∀ i j,
      ((run (Cluster.step 15) (Cluster.start 0 none) pre).pods i).Reconciling →
      ((run (Cluster.step 15) (Cluster.start 0 none) pre).pods j).Reconciling → i = j := by
  intro h
  have hsame := h failedRenewal [] (List.append_nil _).symm podA podB (.inl (by decide +kernel))
    (.inl (by decide +kernel))
  exact absurd hsame (by decide)

end PangeaOperator
