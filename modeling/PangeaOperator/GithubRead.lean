import PangeaOperator.RateLimit

/-!
# Refusals of GitHub

`github_read.rs` makes a failure of an answer that is none: a wait that the server advises is kept
as long as it is within the bound of the reader, and a longer one ends the retries.
-/

namespace PangeaOperator

/-- `handan::Verdict`, as far as it is told apart. -/
inductive HandanVerdict where
  | throttled
  | serverError
  | unauthorized
  | other
  deriving DecidableEq, Repr

/-- What `handan` makes of a `Retry-After` value, of an advice at a Unix time, and of a status that
comes with signs of a rate limit or without. -/
structure Handan where
  parseRetryAfter : List Char → Option RetryAdvice
  delayFrom : RetryAdvice → UInt64 → Duration
  judgeSignalled : UInt16 → Bool → HandanVerdict

def asSecs (d : Duration) : Nat := d / 1000000000

inductive GetFailure where
  | transport (text : String)
  | server (status : UInt16) (wait : Option Duration)
  | rateLimited (status : UInt16) (wait : Option Duration) (resetUnix : Option UInt64)
  | rateLimitBeyondBound (status : UInt16) (wait bound : Duration) (resetUnix : Option UInt64)
  | unauthorized
  | forbidden
  | unexpected (status : UInt16)
  | decode (text : String)
  | foreignPage (url : String)
  deriving DecidableEq, Repr

/-- `todoku::RetryVerdict`. -/
inductive RetryVerdict where
  | backoff
  | after (wait : Duration)
  | stop
  deriving DecidableEq, Repr

def GetFailure.verdict : GetFailure → RetryVerdict
  | .transport _ => .backoff
  | .server _ wait => wait.elim .backoff .after
  | .rateLimited _ wait _ => wait.elim .backoff .after
  | _ => .stop

/-- The first value of each header. -/
abbrev HeaderMap := String → Option (List UInt8)

/-- `HeaderValue::to_str`: visible ASCII characters only. -/
def headerText (value : List UInt8) : Option (List Char) :=
  if value.all (fun b => (32 ≤ b && b < 127) || b = 9) then
    some (value.map (fun b => Char.ofNat b.toNat))
  else none

def headerStr (headers : HeaderMap) (name : String) : Option (List Char) :=
  ((headers name).bind headerText).map (trimMatches isWhitespace)

structure GitHubReader where
  maxAdvisedWait : Duration

namespace GitHubReader

section Refusal

variable (handan : Handan) (status : UInt16) (headers : HeaderMap) (body : List Char)
  (nowUnix : UInt64)

def exhaustedQuota : Bool := headerStr headers "x-ratelimit-remaining" = some ['0']

def signalled : Bool :=
  (headerStr headers "retry-after").isSome || exhaustedQuota headers ||
    decide ("secondary rate limit".toList <:+: RateLimit.lower body)

def resetHeader : Option UInt64 :=
  ((headerStr headers "x-ratelimit-reset").bind parseU64).map UInt64.ofNat

def advice : Option RetryAdvice :=
  ((headerStr headers "retry-after").bind handan.parseRetryAfter).or
    (if exhaustedQuota headers then (resetHeader headers).map .atUnix else none)

/-- When the limit is reset. The sum of the clock and a delay is checked. -/
def resetUnix : Except Fault (Option UInt64) :=
  match advice handan headers with
  | some (.atUnix unixSecs) => .ok (some unixSecs)
  | some a =>
    (addU64 nowUnix.toNat (asSecs (handan.delayFrom a nowUnix))).map
      (fun secs => some (UInt64.ofNat secs))
  | none => .ok (resetHeader headers)

/-- The failure for a verdict, a wait and a reset time that are known. -/
def judged (reader : GitHubReader) (wait : Option Duration) (resetUnix : Option UInt64) :
    HandanVerdict → GetFailure
  | .throttled =>
    match wait with
    | some w =>
      if reader.maxAdvisedWait < w then
        .rateLimitBeyondBound status w reader.maxAdvisedWait resetUnix
      else .rateLimited status wait resetUnix
    | none => .rateLimited status wait resetUnix
  | .serverError =>
    match wait with
    | some w =>
      if reader.maxAdvisedWait < w then
        .rateLimitBeyondBound status w reader.maxAdvisedWait resetUnix
      else .server status wait
    | none => .server status wait
  | .unauthorized => if status = 403 then .forbidden else .unauthorized
  | .other => .unexpected status

def refusal (reader : GitHubReader) : Except Fault GetFailure := do
  let wait := (advice handan headers).map (fun a => handan.delayFrom a nowUnix)
  let resetUnix ← resetUnix handan headers nowUnix
  .ok (judged status reader wait resetUnix (handan.judgeSignalled status (signalled headers body)))

variable {handan status headers body nowUnix}

/-- The reset time is computed just in case the end of the delay is a `u64`. -/
theorem exists_resetUnix_iff : (∃ r, resetUnix handan headers nowUnix = .ok r) ↔
    ∀ a, advice handan headers = some a → (∀ unixSecs, a ≠ .atUnix unixSecs) →
      nowUnix.toNat + asSecs (handan.delayFrom a nowUnix) < UInt64.size := by
  have hsum (a : RetryAdvice) :
      (∃ r, (addU64 nowUnix.toNat (asSecs (handan.delayFrom a nowUnix))).map
        (fun secs => some (UInt64.ofNat secs)) = .ok r) ↔
        nowUnix.toNat + asSecs (handan.delayFrom a nowUnix) < UInt64.size := by
    rw [addU64]
    split
    · next h => simp [Except.map, h]
    · next h => simp [Except.map, h]
  rw [resetUnix]
  cases ha : advice handan headers with
  | none => simp
  | some a =>
    cases a with
    | atUnix unixSecs => simp
    | after d => simpa using hsum (.after d)
    | other => simpa using hsum .other

/-- A wait that is kept is within the bound. -/
theorem wait_le_of_judged {reader : GitHubReader} {wait : Option Duration}
    {resetUnix : Option UInt64} {verdict : HandanVerdict} {w : Duration}
    (h : (judged status reader wait resetUnix verdict).verdict = .after w) :
    w ≤ reader.maxAdvisedWait := by
  cases verdict with
  | throttled =>
    cases wait with
    | none => cases h
    | some v =>
      by_cases hv : reader.maxAdvisedWait < v
      · simp [judged, hv, GetFailure.verdict] at h
      · have hw : v = w := by simpa [judged, hv, GetFailure.verdict] using h
        exact hw ▸ Nat.le_of_not_lt hv
  | serverError =>
    cases wait with
    | none => cases h
    | some v =>
      by_cases hv : reader.maxAdvisedWait < v
      · simp [judged, hv, GetFailure.verdict] at h
      · have hw : v = w := by simpa [judged, hv, GetFailure.verdict] using h
        exact hw ▸ Nat.le_of_not_lt hv
  | unauthorized =>
    rw [judged] at h
    split at h <;> cases h
  | other => cases h

theorem wait_le_of_refusal {reader : GitHubReader} {failure : GetFailure} {w : Duration}
    (h : reader.refusal handan status headers body nowUnix = .ok failure)
    (hw : failure.verdict = .after w) : w ≤ reader.maxAdvisedWait := by
  rw [refusal] at h
  obtain ⟨resetUnix, -, h⟩ := bind_eq_ok h
  cases h
  exact wait_le_of_judged hw

theorem exists_refusal_iff {reader : GitHubReader} :
    (∃ failure, reader.refusal handan status headers body nowUnix = .ok failure) ↔
      ∀ a, advice handan headers = some a → (∀ unixSecs, a ≠ .atUnix unixSecs) →
        nowUnix.toNat + asSecs (handan.delayFrom a nowUnix) < UInt64.size := by
  rw [← exists_resetUnix_iff, refusal]
  simp only [bind_eq_ok_iff]
  constructor
  · rintro ⟨failure, r, hr, -⟩
    exact ⟨r, hr⟩
  · rintro ⟨r, hr⟩
    exact ⟨_, r, hr, rfl⟩

end Refusal

end GitHubReader

/-- What a message or an answer advises is computed wherever the sums fit. A time is the end of a
wait, or an instant that the message names, and an advised wait is kept within the bound only. -/
theorem rateLimits_computed (calendar : Time → Bool) (handan : Handan) (message : String)
    (now : Time) (hmessage : RateLimit.limited (RateLimit.lower message.toList) = true →
      RateLimit.Fits calendar handan.parseRetryAfter message.toList now)
    (reader : GitHubReader) (status : UInt16) (headers : HeaderMap) (body : List Char)
    (nowUnix : UInt64) (hheaders : ∀ a, GitHubReader.advice handan headers = some a →
      (∀ unixSecs, a ≠ .atUnix unixSecs) →
        nowUnix.toNat + asSecs (handan.delayFrom a nowUnix) < UInt64.size) :
    (∃ deadline, RateLimit.rateLimitedUntil calendar handan.parseRetryAfter message now =
        .ok deadline ∧ ∀ t, deadline = some t →
          (∃ d, RateLimit.Waits handan.parseRetryAfter message.toList d ∧ t = now + d ∧ now ≤ t) ∨
            RateLimit.Names handan.parseRetryAfter message.toList t) ∧
    ∃ failure, reader.refusal handan status headers body nowUnix = .ok failure ∧
      ∀ w, failure.verdict = .after w → w ≤ reader.maxAdvisedWait := by
  obtain ⟨deadline, hdeadline⟩ :=
    (RateLimit.exists_rateLimitedUntil_iff message now).mpr hmessage
  obtain ⟨failure, hfailure⟩ : ∃ failure,
      reader.refusal handan status headers body nowUnix = .ok failure :=
    GitHubReader.exists_refusal_iff.mpr hheaders
  refine ⟨⟨deadline, hdeadline, fun t ht => ?_⟩, failure, hfailure, fun w hw => ?_⟩
  · rw [ht] at hdeadline
    rcases RateLimit.waits_or_names hdeadline with ⟨d, hd, rfl⟩ | hnames
    · exact .inl ⟨d, hd, rfl, Int.le_add_of_nonneg_right (Int.natCast_nonneg d)⟩
    · exact .inr hnames
  · exact GitHubReader.wait_le_of_refusal hfailure hw

section Sample

/-- Seconds alone, which is what the samples have. -/
def secondsOnly : Handan where
  parseRetryAfter value := (parseU64 value).map (fun n => .after (fromSecs n))
  delayFrom
    | .after d, _ => d
    | .atUnix unixSecs, nowUnix => fromSecs (unixSecs.toNat - nowUnix.toNat)
    | .other, _ => 0
  judgeSignalled status signals :=
    if signals then .throttled else if 500 ≤ status then .serverError else .other

def resetMessage : String := "429 rate limit; x-ratelimit-reset: 0"

/-- The reset epoch of the message has passed. -/
theorem not_now_le_resetMessage : ¬ ∀ t, RateLimit.rateLimitedUntil chronoCalendar
    secondsOnly.parseRetryAfter resetMessage (seconds 1800000000) = .ok (some t) →
      seconds 1800000000 ≤ t := by
  intro h
  exact absurd (h (seconds 0) (by decide +kernel)) (by decide)

def waitMessage : String := "403 API rate limit exceeded; retry-after: 60"

/-- `60` as a header. -/
def waitHeaders : HeaderMap := fun name => if name = "retry-after" then some [54, 48] else none

theorem rateLimits_computed_wait :
    (∃ deadline, RateLimit.rateLimitedUntil chronoCalendar secondsOnly.parseRetryAfter waitMessage
        (seconds 1800000000) = .ok deadline ∧ ∀ t, deadline = some t →
          (∃ d, RateLimit.Waits secondsOnly.parseRetryAfter waitMessage.toList d ∧
            t = seconds 1800000000 + d ∧ seconds 1800000000 ≤ t) ∨
            RateLimit.Names secondsOnly.parseRetryAfter waitMessage.toList t) ∧
    ∃ failure, GitHubReader.refusal secondsOnly 429 waitHeaders [] 1800000000
        ⟨fromSecs 120⟩ = .ok failure ∧ ∀ w, failure.verdict = .after w → w ≤ fromSecs 120 := by
  have hadvice : RateLimit.advice secondsOnly.parseRetryAfter waitMessage.toList =
      some (.after (fromSecs 60)) := by decide +kernel
  have hheader : GitHubReader.advice secondsOnly waitHeaders =
      some (.after (fromSecs 60)) := by decide +kernel
  refine rateLimits_computed chronoCalendar secondsOnly waitMessage (seconds 1800000000)
    (fun _ => (RateLimit.fits_of_advice hadvice).mpr fun d hd _ => ?_) ⟨fromSecs 120⟩ 429
    waitHeaders [] 1800000000 fun a ha _ => ?_
  · cases hd
    decide
  · cases hheader.symm.trans ha
    decide

end Sample

end PangeaOperator
