import PangeaOperator.Durations
import PangeaOperator.Lib.Cut
import PangeaOperator.Lib.Yields

/-!
# Rate limits

`controller/template/rate_limit.rs` reads from the error text of a provider until when it asks to be
left alone: a wait, which is added to the current time, or an instant. What `handan` reads of a
`Retry-After` value is a parameter, and so are the instants that `chrono` has.
-/

namespace PangeaOperator

/-- `handan::RetryAdvice`, which is not exhaustive. -/
inductive RetryAdvice where
  | after (wait : Duration)
  | atUnix (unixSecs : UInt64)
  | other
  deriving DecidableEq, Repr

/-- `&s[at..]`: the text from a byte on, which has to be the first one of a character. -/
def sliceBytes : List Char → Nat → Except Fault (List Char)
  | cs, 0 => .ok cs
  | [], _ + 1 => .error .charBoundary
  | c :: cs, n + 1 =>
    if c.utf8Size ≤ n + 1 then sliceBytes cs (n + 1 - c.utf8Size) else .error .charBoundary

/-- `str::parse::<i64>`. -/
def parseI64 (cs : List Char) : Option Int :=
  let number (digits : List Char) (bound : Nat) : Option Nat :=
    let n : Nat := digits.foldl (fun n c => 10 * n + (c.toNat - '0'.toNat)) 0
    if digits ≠ [] ∧ digits.all Char.isDigit ∧ n ≤ bound then some n else none
  match cs with
  | '-' :: digits => (number digits (2 ^ 63)).map (fun n => -(n : Int))
  | '+' :: digits => (number digits (2 ^ 63 - 1)).map (fun n => (n : Int))
  | digits => (number digits (2 ^ 63 - 1)).map (fun n => (n : Int))

/-- `chrono::Duration::from_std`, which has `i64` milliseconds. -/
def fromStdDuration (wait : Duration) : Option Time :=
  if wait ≤ fromMillis 9223372036854775807 then some wait else none

/-- The instants of `chrono`. -/
def chronoCalendar (t : Time) : Bool :=
  seconds (-8334601228800) ≤ t && t < seconds 8210266876800

namespace RateLimit

section Texts

def lower (message : List Char) : List Char := message.map Char.toLower

/-- `str::match_indices`: what stands before each occurrence, and what behind it. -/
def matchIndices (pat : List Char) : Nat → List Char → List Char → List (List Char × List Char)
  | 0, _, _ => []
  | fuel + 1, front, rest =>
    match Cut.cut pat rest with
    | none => []
    | some (before, after) =>
      (front ++ before, after) :: matchIndices pat fuel (front ++ before ++ pat) after

def limited (text : List Char) : Bool :=
  let status := ["403", "429"].any fun code =>
    (matchIndices code.toList text.length [] text).any fun around =>
      !around.1.getLast?.any Char.isDigit && !around.2.head?.any Char.isDigit
  status && (decide ("rate limit".toList <:+: text) || decide ("retry-after".toList <:+: text))

/-- The value behind a marker. The marker is found in the lowered text, and the original is sliced
at its place. -/
def valueAfter (lowered original : List Char) (marker : String) (stops : List Char) :
    Except Fault (Option (List Char)) :=
  match Cut.cut marker.toList lowered with
  | none => .ok none
  | some (before, _) => do
    let rest ← sliceBytes original (String.utf8Len before + String.utf8Len marker.toList)
    let rest := rest.dropWhile (· ∈ [':', '=', ' '])
    .ok (some (trimMatches isWhitespace (rest.takeWhile (· ∉ stops))))

def stops : List Char := [',', ';', ']', ')', '\n']

def dateStops : List Char := [';', ']', ')', '\n']

end Texts

section GoDuration

/-- The seconds of a part, unless its unit is unknown. -/
def partSecs (n : Nat) : Char → Option (Except Fault Nat)
  | 'h' => some (mulU64 n 3600)
  | 'm' => some (mulU64 n 60)
  | 's' => some (.ok n)
  | _ => none

/-- The loop of `go_duration`, on the characters that are left. -/
def goLoop (total : Nat) (digits : List Char) (seen : Bool) :
    List Char → Except Fault (Option Duration)
  | [] => .ok (if seen && digits.isEmpty then some (fromSecs total) else none)
  | c :: cs =>
    if c.isDigit then goLoop total (digits ++ [c]) seen cs
    else
      match parseU64 digits with
      | none => .ok none
      | some n =>
        match partSecs n c with
        | none => .ok none
        | some secs => do
          let secs ← secs
          let total ← addU64 total secs
          goLoop total [] true cs

def goDuration (raw : List Char) : Except Fault (Option Duration) := goLoop 0 [] false raw

end GoDuration

section Until

variable (calendar : Time → Bool) (parseRetryAfter : List Char → Option RetryAdvice)

/-- `DateTime::from_timestamp`. -/
def fromTimestamp (secs : Int) : Option Time :=
  if calendar (seconds secs) then some (seconds secs) else none

/-- The current time and a wait. The sum stops where `chrono` has no such instant. -/
def atWait (now : Time) (wait : Duration) : Except Fault (Option Time) :=
  match fromStdDuration wait with
  | none => .ok none
  | some d => if calendar (now + d) then .ok (some (now + d)) else .error .overflow

/-- A `Retry-After` value up to the next stop, or as a date, which holds a comma. -/
def retryAdvice (message : List Char) : Except Fault (Option RetryAdvice) := do
  let value ← valueAfter (lower message) message "retry-after" stops
  match value.bind parseRetryAfter with
  | some advice => .ok (some advice)
  | none => do
    let value ← valueAfter (lower message) message "retry-after" dateStops
    .ok (value.bind parseRetryAfter)

/-- A `rate reset in` duration, or a reset epoch. -/
def resetAdvice (message : List Char) (now : Time) : Except Fault (Option Time) := do
  let value ← valueAfter (lower message) message "rate reset in" stops
  match ← (value.elim (.ok none) goDuration) with
  | some d => atWait calendar now d
  | none => do
    let value ← valueAfter (lower message) message "x-ratelimit-reset" stops
    .ok ((value.bind parseI64).bind (fromTimestamp calendar))

def rateLimitedUntil (message : String) (now : Time) : Except Fault (Option Time) :=
  if !limited (lower message.toList) then .ok none
  else do
    match ← retryAdvice parseRetryAfter message.toList with
    | some (.after d) => atWait calendar now d
    | some (.atUnix unixSecs) =>
      .ok (if unixSecs.toNat < 2 ^ 63 then fromTimestamp calendar unixSecs.toNat else none)
    | some .other => .ok none
    | none => resetAdvice calendar message.toList now

/-- `wait_for`: nothing is waited for where the time has passed. -/
def waitFor (deadline : Option Time) (now : Time) : Option Time :=
  deadline.bind (fun t => if now < t then some (t - now) else none)

end Until

section Slices

theorem sliceBytes_cons {c : Char} {cs : List Char} {n : Nat} (h : c.utf8Size ≤ n) :
    sliceBytes (c :: cs) n = sliceBytes cs (n - c.utf8Size) := by
  cases n with
  | zero => exact absurd h (by have := c.utf8Size_pos; omega)
  | succ n => rw [sliceBytes, if_pos h]

theorem sliceBytes_append (xs ys : List Char) :
    sliceBytes (xs ++ ys) (String.utf8Len xs) = .ok ys := by
  induction xs with
  | nil => cases ys <;> rfl
  | cons c xs ih =>
    rw [List.cons_append, String.utf8Len_cons, sliceBytes_cons (by omega), Nat.add_sub_cancel, ih]

theorem utf8Size_toLower (c : Char) : c.toLower.utf8Size = c.utf8Size := by
  rw [Char.toLower]
  split
  · next h =>
    have hlower : c.val + 32 ≤ 127 := by
      have h65 := UInt32.le_iff_toNat_le.mp h.1
      have h90 := UInt32.le_iff_toNat_le.mp h.2
      rw [UInt32.le_iff_toNat_le, UInt32.toNat_add]
      simp at h65 h90 ⊢
      omega
    rw [Char.utf8Size_eq_one_iff.mpr hlower,
      Char.utf8Size_eq_one_iff.mpr (UInt32.le_trans h.2 (by decide))]
  · rfl

theorem utf8Len_lower (cs : List Char) : String.utf8Len (lower cs) = String.utf8Len cs := by
  rw [lower]
  induction cs with
  | nil => rfl
  | cons c cs ih =>
    rw [List.map_cons, String.utf8Len_cons, String.utf8Len_cons, ih, utf8Size_toLower]

/-- Lowering keeps the bytes in their places, so that the slice begins with a character. -/
theorem exists_valueAfter (message : List Char) (marker : String) (cs : List Char) :
    ∃ value, valueAfter (lower message) message marker cs = .ok value := by
  rw [valueAfter]
  cases hcut : Cut.cut marker.toList (lower message) with
  | none => exact ⟨none, rfl⟩
  | some parts =>
    obtain ⟨before, after⟩ := parts
    have hlower := (Cut.cut_eq_some_iff.mp hcut).1
    rw [← List.append_assoc, lower] at hlower
    obtain ⟨front, rest, rfl, hfront, -⟩ := List.map_eq_append_iff.mp hlower
    have hplace : String.utf8Len before + String.utf8Len marker.toList = String.utf8Len front := by
      rw [← utf8Len_lower front, lower, hfront, String.utf8Len_append]
    simp only [hplace, sliceBytes_append]
    exact ⟨_, rfl⟩

end Slices

section Parts

def unitSecs : Char → Option Nat
  | 'h' => some 3600
  | 'm' => some 60
  | 's' => some 1
  | _ => none

/-- The seconds that the loop adds up, without a bound. -/
def goParts (digits : List Char) : List Char → List Nat
  | [] => []
  | c :: cs =>
    if c.isDigit then goParts (digits ++ [c]) cs
    else
      match parseU64 digits, unitSecs c with
      | some n, some k => n * k :: goParts [] cs
      | _, _ => []

theorem partSecs_eq {n : Nat} (hn : n < UInt64.size) (c : Char) :
    partSecs n c = (unitSecs c).map (mulU64 n) := by
  unfold partSecs unitSecs
  split
  · rfl
  · rfl
  · rw [Option.map_some, mulU64, Nat.mul_one, if_pos hn]
  · rfl

/-- The loop comes to its end just in case the sum of the parts is a `u64`. -/
theorem exists_goLoop_iff {total : Nat} (digits : List Char) (seen : Bool) (cs : List Char)
    (htotal : total < UInt64.size) : (∃ r, goLoop total digits seen cs = .ok r) ↔
      total + (goParts digits cs).sum < UInt64.size := by
  induction cs generalizing total digits seen with
  | nil => simp [goLoop, goParts, htotal]
  | cons c cs ih =>
    rw [goLoop, goParts]
    by_cases hc : c.isDigit = true
    · rw [if_pos hc, if_pos hc, ih (digits ++ [c]) seen htotal]
    rw [if_neg hc, if_neg hc]
    cases hn : parseU64 digits with
    | none => simp [htotal]
    | some n =>
      simp only [partSecs_eq (parseU64_lt hn)]
      cases hk : unitSecs c with
      | none => simp [htotal]
      | some k =>
        simp only [Option.map_some, List.sum_cons, bind_eq_ok_iff, mulU64_eq_ok_iff,
          addU64_eq_ok_iff]
        constructor
        · rintro ⟨r, secs, ⟨rfl, -⟩, sum, ⟨rfl, hsum⟩, hr⟩
          have := (ih [] true hsum).mp ⟨r, hr⟩
          omega
        · intro hlt
          have hsum : total + n * k < UInt64.size := by omega
          obtain ⟨r, hr⟩ := (ih [] true hsum).mpr (by omega)
          exact ⟨r, n * k, ⟨rfl, by omega⟩, total + n * k, ⟨rfl, hsum⟩, hr⟩

end Parts

section Advice

variable (calendar : Time → Bool) (parseRetryAfter : List Char → Option RetryAdvice)

/-- The value behind a marker, which is always found without a fault. -/
def read (message : List Char) (marker : String) (cs : List Char) : Option (List Char) :=
  (valueAfter (lower message) message marker cs).toOption.join

theorem valueAfter_eq (message : List Char) (marker : String) (cs : List Char) :
    valueAfter (lower message) message marker cs = .ok (read message marker cs) := by
  obtain ⟨value, hvalue⟩ := exists_valueAfter message marker cs
  rw [read, hvalue]
  rfl

/-- The advice in the `Retry-After` value of a message. -/
def advice (message : List Char) : Option RetryAdvice :=
  ((read message "retry-after" stops).bind parseRetryAfter).or
    ((read message "retry-after" dateStops).bind parseRetryAfter)

theorem retryAdvice_eq (message : List Char) :
    retryAdvice parseRetryAfter message = .ok (advice parseRetryAfter message) := by
  rw [retryAdvice, valueAfter_eq, valueAfter_eq, advice]
  simp only [bind, Except.bind]
  cases (read message "retry-after" stops).bind parseRetryAfter <;> rfl

/-- A message advises to wait. -/
inductive Waits (message : List Char) : Duration → Prop
  | retryAfter {d : Duration} : advice parseRetryAfter message = some (.after d) → Waits message d
  | rateReset {value : List Char} {d : Duration} : advice parseRetryAfter message = none →
      read message "rate reset in" stops = some value → goDuration value = .ok (some d) →
      Waits message d

/-- A message names an instant, which may have passed. -/
inductive Names (message : List Char) : Time → Prop
  | retryAfter {unixSecs : UInt64} :
      advice parseRetryAfter message = some (.atUnix unixSecs) →
      Names message (seconds unixSecs.toNat)
  | epoch {value : List Char} {secs : Int} : advice parseRetryAfter message = none →
      read message "x-ratelimit-reset" stops = some value → parseI64 value = some secs →
      Names message (seconds secs)

/-- What a message advises can be computed: the parts of a duration sum up to a `u64`, and the end
of a wait is an instant of `chrono`. -/
structure Fits (message : List Char) (now : Time) : Prop where
  sum : advice parseRetryAfter message = none →
    ∀ value, read message "rate reset in" stops = some value →
      (goParts [] value).sum < UInt64.size
  wait : ∀ d, Waits parseRetryAfter message d → d ≤ fromMillis 9223372036854775807 →
    calendar (now + d) = true

variable {calendar parseRetryAfter} {message : List Char} {now : Time}

theorem exists_goDuration_iff (value : List Char) :
    (∃ r, goDuration value = .ok r) ↔ (goParts [] value).sum < UInt64.size := by
  rw [goDuration, exists_goLoop_iff [] false value (by decide), Nat.zero_add]

theorem exists_atWait_iff {d : Duration} : (∃ r, atWait calendar now d = .ok r) ↔
    (d ≤ fromMillis 9223372036854775807 → calendar (now + d) = true) := by
  rw [atWait, fromStdDuration]
  by_cases hd : d ≤ fromMillis 9223372036854775807
  · by_cases hcalendar : calendar (now + d) = true
    · simp [hd, hcalendar]
    · simp [hd, hcalendar]
  · simp [hd]

theorem eq_of_atWait {d : Duration} {t : Time} (h : atWait calendar now d = .ok (some t)) :
    t = now + d := by
  rw [atWait] at h
  split at h
  · cases h
  · next d' hd =>
    have hsame : d' = d := by
      rw [fromStdDuration, Option.ite_none_right_eq_some, Option.some_inj] at hd
      exact hd.2.symm
    split at h
    · cases h
      rw [hsame]
    · cases h

theorem resetAdvice_eq : resetAdvice calendar message now =
    ((read message "rate reset in" stops).elim (.ok none) goDuration) >>= fun reset =>
      match reset with
      | some d => atWait calendar now d
      | none => .ok (((read message "x-ratelimit-reset" stops).bind parseI64).bind
          (fromTimestamp calendar)) := by
  rw [resetAdvice, valueAfter_eq, valueAfter_eq]
  rfl

theorem eq_of_fromTimestamp {secs : Int} {t : Time} (h : fromTimestamp calendar secs = some t) :
    t = seconds secs := by
  rw [fromTimestamp, Option.ite_none_right_eq_some, Option.some_inj] at h
  exact h.2.symm

/-- No wait is read from the rest where `Retry-After` is understood. -/
theorem fits_of_advice {a : RetryAdvice} (ha : advice parseRetryAfter message = some a) :
    Fits calendar parseRetryAfter message now ↔
      ∀ d, a = .after d → d ≤ fromMillis 9223372036854775807 → calendar (now + d) = true := by
  constructor
  · intro h d hd
    exact h.wait d (.retryAfter (ha.trans (congrArg some hd)))
  · intro h
    refine ⟨fun hnone => ?_, fun d hwaits => ?_⟩
    · cases ha.symm.trans hnone
    · cases hwaits with
      | retryAfter hafter => exact h d (Option.some.inj (ha.symm.trans hafter))
      | rateReset hnone => cases ha.symm.trans hnone

theorem fits_of_no_advice (ha : advice parseRetryAfter message = none) :
    Fits calendar parseRetryAfter message now ↔
      ∀ value, read message "rate reset in" stops = some value →
        ∃ r, goDuration value = .ok r ∧ ∀ d, r = some d →
          d ≤ fromMillis 9223372036854775807 → calendar (now + d) = true := by
  constructor
  · intro h value hvalue
    obtain ⟨r, hr⟩ := (exists_goDuration_iff value).mpr (h.sum ha value hvalue)
    refine ⟨r, hr, fun d hd => h.wait d (.rateReset ha hvalue ?_)⟩
    rw [hr, hd]
  · intro h
    refine ⟨fun _ value hvalue => ?_, fun d hwaits => ?_⟩
    · obtain ⟨r, hr, -⟩ := h value hvalue
      exact (exists_goDuration_iff value).mp ⟨r, hr⟩
    · cases hwaits with
      | retryAfter hafter => cases ha.symm.trans hafter
      | rateReset _ hvalue hd =>
        obtain ⟨r, hr, hcalendar⟩ := h _ hvalue
        exact hcalendar d (Except.ok.inj (hr.symm.trans hd))

theorem exists_resetAdvice_iff (ha : advice parseRetryAfter message = none) :
    (∃ r, resetAdvice calendar message now = .ok r) ↔
      Fits calendar parseRetryAfter message now := by
  rw [resetAdvice_eq, fits_of_no_advice ha]
  cases read message "rate reset in" stops with
  | none => simp [bind, Except.bind]
  | some value =>
    simp only [Option.elim_some, Option.some.injEq, forall_eq', bind_eq_ok_iff]
    rw [exists_comm]
    refine exists_congr fun r => ?_
    rw [exists_and_left]
    refine and_congr_right fun _ => ?_
    cases r with
    | none => simp
    | some d => simpa using exists_atWait_iff

/-- A time is returned, or none, just in case what a limit advises can be computed. -/
theorem exists_rateLimitedUntil_iff (message : String) (now : Time) :
    (∃ r, rateLimitedUntil calendar parseRetryAfter message now = .ok r) ↔
      (limited (lower message.toList) = true →
        Fits calendar parseRetryAfter message.toList now) := by
  rw [rateLimitedUntil, retryAdvice_eq]
  cases hlimited : limited (lower message.toList) with
  | false => simp
  | true =>
    simp only [Bool.not_true, Bool.false_eq_true, if_false, forall_const]
    cases ha : advice parseRetryAfter message.toList with
    | none => exact exists_resetAdvice_iff ha
    | some a =>
      rw [fits_of_advice ha]
      cases a with
      | after d =>
        simp only [RetryAdvice.after.injEq, forall_eq']
        exact exists_atWait_iff
      | atUnix unixSecs => simp [bind, Except.bind]
      | other => simp [bind, Except.bind]

theorem waits_or_names_of_resetAdvice (ha : advice parseRetryAfter message = none) {t : Time}
    (h : resetAdvice calendar message now = .ok (some t)) :
    (∃ d, Waits parseRetryAfter message d ∧ t = now + d) ∨ Names parseRetryAfter message t := by
  rw [resetAdvice_eq] at h
  obtain ⟨reset, hreset, ht⟩ := bind_eq_ok h
  cases reset with
  | some d =>
    cases hvalue : read message "rate reset in" stops with
    | none =>
      rw [hvalue] at hreset
      cases hreset
    | some value =>
      rw [hvalue] at hreset
      exact .inl ⟨d, .rateReset ha hvalue hreset, eq_of_atWait ht⟩
  | none =>
    obtain ⟨secs, hsecs, hstamp⟩ := Option.bind_eq_some_iff.mp (Except.ok.inj ht)
    obtain ⟨value, hvalue, hparse⟩ := Option.bind_eq_some_iff.mp hsecs
    rw [eq_of_fromTimestamp hstamp]
    exact .inr (.epoch ha hvalue hparse)

/-- A time that is returned is the end of a wait, or an instant that the message names. -/
theorem waits_or_names {message : String} {t : Time}
    (h : rateLimitedUntil calendar parseRetryAfter message now = .ok (some t)) :
    (∃ d, Waits parseRetryAfter message.toList d ∧ t = now + d) ∨
      Names parseRetryAfter message.toList t := by
  rw [rateLimitedUntil, retryAdvice_eq] at h
  split at h
  · cases h
  cases ha : advice parseRetryAfter message.toList with
  | none =>
    rw [ha] at h
    exact waits_or_names_of_resetAdvice ha h
  | some a =>
    rw [ha] at h
    cases a with
    | after d => exact .inl ⟨d, .retryAfter ha, eq_of_atWait h⟩
    | atUnix unixSecs =>
      have hstamp := Except.ok.inj h
      rw [Option.ite_none_right_eq_some] at hstamp
      rw [eq_of_fromTimestamp hstamp.2]
      exact .inr (.retryAfter ha)
    | other => cases h

/-- What is returned in the past is not waited for. -/
theorem waitFor_eq_none_iff {deadline : Option Time} :
    waitFor deadline now = none ↔ ∀ t, deadline = some t → t ≤ now := by
  cases deadline with
  | none => simp [waitFor]
  | some t => simp [waitFor]

end Advice

end RateLimit

end PangeaOperator
