import Mathlib.Data.List.DropRight
import PangeaOperator.Handler
import PangeaOperator.Lib.Run

/-!
# Failures and retries

`handle_failed`, `check_failure` and the count both read: a failing pass raises it, as a
rate-limited apply does, and every phase change on the way back from Failed writes it again.
-/

namespace PangeaOperator

open Json

structure RetryPolicy where
  maxRetries : Nat := 3
  backoffSeconds : Nat := 30
  deriving DecidableEq, Repr

def exhaustedRetryInterval : Time := seconds 3600

def retriesExhausted (s : Status) (retryPolicy : Option RetryPolicy) : Bool :=
  (retryPolicy.getD {}).maxRetries ≤ s.failureCount

inductive FailedRetryDecision where
  | exponentialBackoff (delay : Time)
  | slowCadenceAfterExhaustion (delay : Time)
  deriving DecidableEq, Repr

def FailedRetryDecision.requeueAfter : FailedRetryDecision → Time
  | exponentialBackoff delay => delay
  | slowCadenceAfterExhaustion delay => delay

def failedRetryDecision (retriesExhausted : Bool) (failureCount backoffSeconds : Nat) :
    FailedRetryDecision :=
  if retriesExhausted then .slowCadenceAfterExhaustion exhaustedRetryInterval
  else .exponentialBackoff (exponentialBackoff failureCount backoffSeconds 600)

/-- What `handle_failed` takes from outside the status: the reason of an admission refusal that is
held, and whether the workspace could be cleaned. -/
structure FailedInput where
  held : Option String
  retryPolicy : Option RetryPolicy
  cleaned : Bool
  reuseRender : Bool
  entered : Observed

def handleFailed (s : Status) (i : FailedInput) : Reply :=
  match i.held with
  | some _ => ⟨[], some (.requeue defaultRequeueInterval)⟩
  | none =>
    let decision := failedRetryDecision (retriesExhausted s i.retryPolicy) s.failureCount
      (i.retryPolicy.getD {}).backoffSeconds
    if !i.cleaned then ⟨[], none⟩
    else
      let forget := if i.reuseRender && !i.entered.gitRepository then
          [statusBody [(.compiledRevision, some .null)]]
        else []
      ⟨forget ++ [updatePhase s .pending i.entered], some (.requeue decision.requeueAfter)⟩

inductive ReactiveAction where
  | alert
  | suspend
  | page
  deriving DecidableEq, Repr

structure FailureEscalation where
  maxConsecutiveFailures : Nat
  onExhaustion : ReactiveAction
  deriving DecidableEq, Repr

structure Trigger where
  action : ReactiveAction
  reason : String
  message : String
  deriving DecidableEq, Repr

def checkFailure (s : Status) (policy : FailureEscalation) : Option Trigger :=
  if s.failureCount < policy.maxConsecutiveFailures then none
  else
    let lastError := s.lastError.getD "(none)"
    some ⟨policy.onExhaustion, "FailureEscalation",
      s!"{s.failureCount} consecutive failed reconciles " ++
        s!"(threshold: {policy.maxConsecutiveFailures}); last error: {lastError}"⟩

/-- One reconcile on the stored document: it reads its snapshot and sends these writes. -/
def reconcileWith (writes : Status → List Doc) (stored : Doc) : Doc :=
  match Status.read stored with
  | some s => mergeWrites stored (writes s)
  | none => stored

/-- A reconcile of a pass on its way to a failure: it enters a phase, neither Ready nor Failed, or
its apply is rate limited or cut off and it waits in Applying with that error. -/
inductive PassStep where
  | enter (phase : Phase) (unsettled : phase ≠ .ready ∧ phase ≠ .failed) (o : Observed)
  | backOff (error : String) (o : Observed)

namespace PassStep

def isBackOff : PassStep → Bool
  | enter _ _ _ => false
  | backOff _ _ => true

def write (s : Status) : PassStep → Doc
  | enter phase _ o => updatePhase s phase o
  | backOff error o => updatePhaseWithError s .applying error o

end PassStep

/-- A pass that fails: the steps on the way, and its error. -/
structure FailingPass where
  steps : List PassStep
  error : String
  failed : Observed

/-- How often the pass backed off in Applying since it last entered a phase. -/
def FailingPass.backOffs (p : FailingPass) : Nat := (p.steps.rtakeWhile PassStep.isBackOff).length

/-- A call of `handle_failed` that retries. -/
structure Retry extends FailedInput where
  unheld : held = none
  clean : cleaned = true

structure Attempt where
  pass : FailingPass
  retry : Retry

def takeStep (stored : Doc) (e : PassStep) : Doc := reconcileWith (fun s => [e.write s]) stored

def failPass (stored : Doc) (p : FailingPass) : Doc :=
  reconcileWith (fun s => [updatePhaseWithError s .failed p.error p.failed])
    (run takeStep stored p.steps)

def retry (stored : Doc) (r : Retry) : Doc :=
  reconcileWith (fun s => (handleFailed s r.toFailedInput).writes) stored

def attempt (stored : Doc) (a : Attempt) : Doc := retry (failPass stored a.pass) a.retry

/-- The document reads as a status with this failure count. -/
def Counts (stored : Doc) (n : Nat) : Prop :=
  ∃ t, Status.read stored = some t ∧ t.failureCount = n

section Count

theorem take_failureCount {stored : Doc} {fs : List (StatusField × Option Doc)}
    (hn : (fs.map Prod.fst).Nodup) {n : Nat} (h : (.failureCount, some (Codec.nat.enc n)) ∈ fs) :
    StatusField.failureCount.slot.take
      ((patchStatus stored (statusBody fs)).get? "failureCount") = some n := by
  refine Eq.trans (congrArg _ (get?_patchStatus stored fs hn .failureCount)) ?_
  rw [sent_of_mem hn h]
  exact withDefault_take_mergeSlot Codec.nat_flat 0 _ n

theorem counts_of_take {stored : Doc} (hr : Reads stored) {n : Nat}
    (h : StatusField.failureCount.slot.take (stored.get? "failureCount") = some n) :
    Counts stored n := by
  obtain ⟨t, ht⟩ := hr
  have hfield := Status.read_eq_some_iff.mp ht .failureCount
  exact ⟨t, ht, Option.some.inj (hfield.symm.trans h)⟩

/-- Entering any phase but Failed writes a count of zero. -/
theorem counts_updatePhase {stored : Doc} (hr : Reads stored) (s : Status) {phase : Phase}
    (hp : phase ≠ .failed) (o : Observed) :
    Counts (patchStatus stored (updatePhase s phase o)) 0 := by
  refine counts_of_take (keepsReadable_updatePhase s o phase stored hr) ?_
  refine take_failureCount (by simp [phaseFields]) (List.mem_append_right _ ?_)
  simp [hp]

theorem counts_updatePhaseWithError {stored : Doc} (hr : Reads stored) (s : Status)
    (phase : Phase) (error : String) (o : Observed) :
    Counts (patchStatus stored (updatePhaseWithError s phase error o))
      (saturatingSucc s.failureCount) := by
  refine counts_of_take (keepsReadable_updatePhaseWithError s o phase error stored hr) ?_
  refine take_failureCount (by simp [phaseFields]) (List.mem_append_right _ ?_)
  simp

theorem counts_enter {stored : Doc} {n : Nat} (h : Counts stored n) (phase : Phase)
    (hp : phase ≠ .ready ∧ phase ≠ .failed) (o : Observed) :
    Counts (takeStep stored (.enter phase hp o)) 0 := by
  obtain ⟨s, hs, -⟩ := h
  simp only [takeStep, reconcileWith, hs]
  exact counts_updatePhase ⟨s, hs⟩ s hp.2 o

theorem counts_backOff {stored : Doc} {n : Nat} (h : Counts stored n) (error : String)
    (o : Observed) : Counts (takeStep stored (.backOff error o)) (saturatingSucc n) := by
  obtain ⟨s, hs, rfl⟩ := h
  simp only [takeStep, reconcileWith, hs]
  exact counts_updatePhaseWithError ⟨s, hs⟩ s .applying error o

/-- From a count of zero, the steps of a pass leave the back-offs since the last phase entered. -/
theorem counts_steps {stored : Doc} (h : Counts stored 0) (steps : List PassStep) :
    Counts (run takeStep stored steps)
      (min (steps.rtakeWhile PassStep.isBackOff).length (2 ^ 32 - 1)) := by
  induction steps using List.reverseRecOn with
  | nil => exact h
  | append_singleton steps e ih =>
    rw [run_append, run_cons, run_nil]
    cases e with
    | enter phase hp o =>
      rw [List.rtakeWhile_concat_neg _ _ _ (by simp [PassStep.isBackOff])]
      exact counts_enter ih phase hp o
    | backOff error o =>
      rw [List.rtakeWhile_concat_pos _ _ _ rfl, List.length_append, List.length_singleton]
      have hcount := counts_backOff ih error o
      unfold saturatingSucc at hcount
      convert hcount using 1
      omega

/-- From a count of zero, a failing pass leaves one more than its back-offs. -/
theorem counts_failPass {stored : Doc} (h : Counts stored 0) (p : FailingPass) :
    Counts (failPass stored p) (min (p.backOffs + 1) (2 ^ 32 - 1)) := by
  obtain ⟨s, hs, hc⟩ := counts_steps h p.steps
  have hfailed := counts_updatePhaseWithError ⟨s, hs⟩ s .failed p.error p.failed
  have hcount : saturatingSucc s.failureCount = min (p.backOffs + 1) (2 ^ 32 - 1) := by
    rw [hc, FailingPass.backOffs, saturatingSucc]
    omega
  rw [hcount] at hfailed
  simpa only [failPass, reconcileWith, hs, mergeWrites_cons, mergeWrites_nil] using hfailed

theorem keepsReadable_forgetCompiled :
    KeepsReadable (statusBody [(.compiledRevision, some .null)]) := by
  refine keepsReadable_statusBody (by simp) ?_
  simp only [List.forall_mem_cons]
  refine ⟨?_, by simp⟩
  rintro d ⟨⟩ w
  exact ⟨none, rfl⟩

/-- A retry enters Pending, so it leaves zero. -/
theorem counts_retry {stored : Doc} (hr : Reads stored) (r : Retry) :
    Counts (retry stored r) 0 := by
  obtain ⟨s, hs⟩ := hr
  simp only [retry, reconcileWith, hs, handleFailed, r.unheld, r.clean, Bool.not_true,
    Bool.false_eq_true, if_false, mergeWrites_append, mergeWrites_cons, mergeWrites_nil]
  refine counts_updatePhase (reads_mergeWrites ?_ ⟨s, hs⟩) s (by decide) _
  intro body hb
  split at hb
  · rw [List.mem_singleton.mp hb]
    exact keepsReadable_forgetCompiled
  · simp at hb

theorem counts_attempt {stored : Doc} (h : Counts stored 0) (a : Attempt) :
    Counts (attempt stored a) 0 := by
  obtain ⟨t, ht, -⟩ := counts_failPass h a.pass
  exact counts_retry ⟨t, ht⟩ a.retry

/-- After a failure the count is that of its own pass, whatever came before. -/
theorem counts_failure_of_run {stored : Doc} (h : Counts stored 0) (pre : List Attempt)
    (p : FailingPass) :
    Counts (failPass (run attempt stored pre) p) (min (p.backOffs + 1) (2 ^ 32 - 1)) := by
  have hzero : Counts (run attempt stored pre) 0 :=
    @run_invariant _ _ attempt (Counts · 0) (fun _ a hc => counts_attempt hc a) _ h pre
  exact counts_failPass hzero p

end Count

/-- What `handle_failed` and the escalation make of `k` failures in a row. -/
structure SeesFailures (k : Nat) (t : Status) (r : Retry) : Prop where
  count : t.failureCount = k
  delay : (handleFailed t r.toFailedInput).action = some (.requeue
    (if (r.retryPolicy.getD {}).maxRetries ≤ k then exhaustedRetryInterval
      else exponentialBackoff k (r.retryPolicy.getD {}).backoffSeconds 600))
  exhausted : ∀ policy : RetryPolicy, retriesExhausted t (some policy) = true ↔
    policy.maxRetries ≤ k
  escalated : ∀ policy : FailureEscalation, (checkFailure t policy).isSome = true ↔
    policy.maxConsecutiveFailures ≤ k

theorem seesFailures_of_count {t : Status} {k : Nat} (h : t.failureCount = k) (r : Retry) :
    SeesFailures k t r := by
  refine ⟨h, ?_, ?_, ?_⟩
  · simp only [handleFailed, r.unheld, r.clean, Bool.not_true, Bool.false_eq_true, if_false,
      retriesExhausted, h, failedRetryDecision, decide_eq_true_eq]
    split
    · rfl
    · rfl
  · intro policy
    simp [retriesExhausted, h]
  · intro policy
    unfold checkFailure
    by_cases hk : t.failureCount < policy.maxConsecutiveFailures
    · simp [hk]
      omega
    · simp [hk]
      omega

/-- After the `k`-th failure of the run, `k` failures are seen. -/
def FailuresAccumulate (stored : Doc) (attempts : List Attempt) : Prop :=
  ∀ pre a post, attempts = pre ++ a :: post →
    ∃ t, Status.read (failPass (run attempt stored pre) a.pass) = some t ∧
      SeesFailures (pre.length + 1) t a.retry

/-- Failures accumulate exactly in the runs whose `k`-th failing pass backed off `k - 1` times in
Applying after the last phase it entered, as far as the counter goes: the retries carry nothing
over. -/
theorem failures_accumulate_iff {stored : Doc} (h : Counts stored 0) (attempts : List Attempt) :
    FailuresAccumulate stored attempts ↔
      ∀ pre a post, attempts = pre ++ a :: post →
        min a.pass.backOffs (2 ^ 32 - 2) = pre.length := by
  constructor
  · intro hacc pre a post he
    obtain ⟨t, ht, hsees⟩ := hacc pre a post he
    obtain ⟨t', ht', hcount⟩ := counts_failure_of_run h pre a.pass
    have hsame : t = t' := Option.some.inj (ht.symm.trans ht')
    have hseen := hsees.count
    rw [hsame, hcount] at hseen
    omega
  · intro hpaced pre a post he
    have hbackOffs := hpaced pre a post he
    obtain ⟨t, ht, hcount⟩ := counts_failure_of_run h pre a.pass
    refine ⟨t, ht, seesFailures_of_count ?_ a.retry⟩
    omega

def firstRetry : Retry where
  held := none
  retryPolicy := none
  cleaned := true
  reuseRender := false
  entered := firstObserved
  unheld := rfl
  clean := rfl

/-- A compile that fails, and the retry after it. -/
def compileFailure : Attempt where
  pass := {
    steps := [.enter .compiling (by decide) firstObserved]
    error := "compile failed"
    failed := firstObserved }
  retry := firstRetry

/-- An apply that is rate limited once and then denied, and the retry after it. -/
def rateLimitedFailure : Attempt where
  pass := {
    steps := [.enter .applying (by decide) firstObserved, .backOff "429" firstObserved]
    error := "403"
    failed := firstObserved }
  retry := firstRetry

theorem counts_new_template : Counts ({} : Status).toJson 0 := ⟨{}, Status.read_toJson {}, rfl⟩

/-- A compile failure and then a rate-limited one are counted as two. -/
theorem rate_limited_second_failure_counted :
    FailuresAccumulate ({} : Status).toJson [compileFailure, rateLimitedFailure] := by
  refine (failures_accumulate_iff counts_new_template _).mpr fun pre a post he => ?_
  cases pre with
  | nil =>
    cases he
    decide
  | cons _ pre =>
    cases pre with
    | nil =>
      cases he
      decide
    | cons _ pre => simp at he

/-- After a second compile failure the count is one again. -/
theorem second_failure_not_counted :
    ¬FailuresAccumulate ({} : Status).toJson [compileFailure, compileFailure] := by
  intro hacc
  obtain ⟨t, ht, hsees⟩ := hacc [compileFailure] compileFailure [] rfl
  obtain ⟨t', ht', hone⟩ := counts_failure_of_run counts_new_template [compileFailure]
    compileFailure.pass
  have hsame : t = t' := Option.some.inj (ht.symm.trans ht')
  have htwo : t'.failureCount = 2 := hsame ▸ hsees.count
  have hbackOffs : compileFailure.pass.backOffs = 0 := rfl
  rw [hbackOffs] at hone
  omega

end PangeaOperator
