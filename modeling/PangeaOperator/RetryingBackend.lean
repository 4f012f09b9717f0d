import PangeaOperator.Lib.Run
import PangeaOperator.StateBackend

/-!
# Retries of the state backend

`backend/retry.rs` over the tables of OpenTofu. An attempt of the inner backend may fail
before or after the statement has taken effect; a run keeps, beside the tables, those of the
same calls without failures.
-/

namespace PangeaOperator

def isConnectionLevel : SqlxError → Bool
  | .io | .poolTimedOut | .poolClosed => true
  | .database (some code) => ['0', '8'].isPrefixOf code.toList || code = "57P01"
  | .database none => false
  | .other => false

def isRetryableConnectionError : BackendError → Bool
  | .database e => isConnectionLevel e
  | .withContext _ source => isRetryableConnectionError source
  | _ => false

/-- Durations are nanoseconds. -/
structure BackendRetryPolicy where
  attempts : UInt32
  baseBackoff : Nat
  maxBackoff : Nat
  deriving DecidableEq, Repr

namespace BackendRetryPolicy

def cnpgSwitchoverDefault : BackendRetryPolicy := ⟨5, 200000000, 3000000000⟩

def durationMax : Nat := (2 ^ 64 - 1) * 1000000000 + 999999999

def backoffFor (p : BackendRetryPolicy) (retryIndex : Nat) : Nat :=
  let factor := if retryIndex < 64 then 2 ^ retryIndex else 2 ^ 64 - 1
  let scaled := min (p.baseBackoff * (if factor < 2 ^ 32 then factor else 2 ^ 32 - 1)) durationMax
  min scaled p.maxBackoff

end BackendRetryPolicy

/-- What a call comes to, with the results of the attempts it made and the sleeps between them. -/
structure Retried (α τ : Type) where
  result : Except BackendError α
  state : τ
  tried : List (Except BackendError α)
  slept : List Nat

section Loop

variable {α τ : Type}

/-- The loop of `run_with_retry`, with the number of attempts that may still follow this one. -/
def retryFrom (p : BackendRetryPolicy) (op : Nat → τ → Except BackendError α × τ) :
    (left attempt : Nat) → τ → Retried α τ
  | 0, attempt, st => ⟨(op attempt st).1, (op attempt st).2, [(op attempt st).1], []⟩
  | left + 1, attempt, st =>
    match op attempt st with
    | (.ok v, st') => ⟨.ok v, st', [.ok v], []⟩
    | (.error e, st') =>
      if isRetryableConnectionError e then
        let r := retryFrom p op left (attempt + 1) st'
        ⟨r.result, r.state, .error e :: r.tried, p.backoffFor attempt :: r.slept⟩
      else ⟨.error e, st', [.error e], []⟩

def runWithRetry (p : BackendRetryPolicy) (op : Nat → τ → Except BackendError α × τ) (st : τ) :
    Retried α τ :=
  retryFrom p op (p.attempts.toNat - 1) 0 st

/-- What an attempt meets. -/
inductive AttemptOutcome where
  | runs
  | failsBefore (e : SqlxError)
  | failsAfter (e : SqlxError)
  deriving DecidableEq, Repr

def AttemptOutcome.takesEffect : AttemptOutcome → Bool
  | .failsBefore _ => false
  | _ => true

/-- One attempt of a statement. -/
def attemptOf (exec : τ → Except BackendError (α × τ)) (o : AttemptOutcome) (st : τ) :
    Except BackendError α × τ :=
  match o, exec st with
  | .failsBefore e, _ => (.error (.database e), st)
  | .runs, .ok (a, st') => (.ok a, st')
  | .runs, .error e => (.error e, st)
  | .failsAfter e, .ok (_, st') => (.error (.database e), st')
  | .failsAfter e, .error _ => (.error (.database e), st)

/-- The outcomes that a statement which the server accepts gets to meet. -/
def madeFrom (outcomes : Nat → AttemptOutcome) : (left attempt : Nat) → List AttemptOutcome
  | 0, attempt => [outcomes attempt]
  | left + 1, attempt =>
    match outcomes attempt with
    | .runs => [.runs]
    | .failsBefore e =>
      .failsBefore e :: if isConnectionLevel e then madeFrom outcomes left (attempt + 1) else []
    | .failsAfter e =>
      .failsAfter e :: if isConnectionLevel e then madeFrom outcomes left (attempt + 1) else []

theorem tried_length (p : BackendRetryPolicy) (op : Nat → τ → Except BackendError α × τ)
    (left attempt : Nat) (st : τ) : (retryFrom p op left attempt st).tried.length ≤ left + 1 := by
  induction left generalizing attempt st with
  | zero => exact Nat.le_refl 1
  | succ left ih =>
    unfold retryFrom
    split
    · simp
    · split
      · exact Nat.succ_le_succ (ih _ _)
      · simp

/-- Only the last attempt can have failed for another reason than the connection. -/
theorem tried_retryable (p : BackendRetryPolicy) (op : Nat → τ → Except BackendError α × τ)
    (left attempt : Nat) (st : τ) {pre post : List (Except BackendError α)} {e : BackendError}
    (h : (retryFrom p op left attempt st).tried = pre ++ .error e :: post) (hpost : post ≠ []) :
    isRetryableConnectionError e = true := by
  have hsingle {x : Except BackendError α} {pre : List (Except BackendError α)}
      (hx : [x] = pre ++ .error e :: post) : False := by
    have hlength := congrArg List.length hx
    have hpos := List.length_pos_of_ne_nil hpost
    simp only [List.length_cons, List.length_nil, List.length_append] at hlength
    omega
  induction left generalizing attempt st pre with
  | zero => exact (hsingle h).elim
  | succ left ih =>
    unfold retryFrom at h
    split at h
    · exact (hsingle h).elim
    · next e' st' _ =>
      split at h
      · next hretry =>
        cases pre with
        | nil =>
          cases h
          exact hretry
        | cons x pre => exact ih _ _ (List.cons.inj h).2
      · exact (hsingle h).elim

theorem slept_le (p : BackendRetryPolicy) (op : Nat → τ → Except BackendError α × τ)
    (left attempt : Nat) (st : τ) : ∀ d ∈ (retryFrom p op left attempt st).slept,
      d ≤ p.maxBackoff := by
  induction left generalizing attempt st with
  | zero => simp [retryFrom]
  | succ left ih =>
    unfold retryFrom
    split
    · simp
    · split
      · intro d hd
        rcases List.mem_cons.mp hd with rfl | hd
        · exact Nat.min_le_right _ _
        · exact ih _ _ d hd
      · simp

variable {exec : τ → Except BackendError (α × τ)} {outcomes : Nat → AttemptOutcome}

/-- The loop over the attempts of one statement. -/
def retryStatement (p : BackendRetryPolicy) (exec : τ → Except BackendError (α × τ))
    (outcomes : Nat → AttemptOutcome) (st : τ) : Retried α τ :=
  runWithRetry p (fun i => attemptOf exec (outcomes i)) st

def made (p : BackendRetryPolicy) (outcomes : Nat → AttemptOutcome) : List AttemptOutcome :=
  madeFrom outcomes (p.attempts.toNat - 1) 0

/-- Attempts one after the other, each from the state the one before it left; the last one's result
is the result. -/
def attemptsOf (exec : τ → Except BackendError (α × τ)) (os : List AttemptOutcome)
    (r : Except BackendError α × τ) : Except BackendError α × τ :=
  os.foldl (fun r o => attemptOf exec o r.2) r

/-- A statement that the server rejects changes nothing and is never answered. -/
theorem retry_rejected (p : BackendRetryPolicy) {st : τ} {e : BackendError}
    (h : exec st = .error e) :
    (∀ a, (retryStatement p exec outcomes st).result ≠ .ok a) ∧
      (retryStatement p exec outcomes st).state = st := by
  have hattempt (o : AttemptOutcome) : ∃ e', attemptOf exec o st = (.error e', st) := by
    cases o with
    | runs => exact ⟨e, by simp [attemptOf, h]⟩
    | failsBefore e' => exact ⟨.database e', by simp [attemptOf]⟩
    | failsAfter e' => exact ⟨.database e', by simp [attemptOf, h]⟩
  unfold retryStatement runWithRetry
  generalize p.attempts.toNat - 1 = left
  generalize 0 = attempt
  induction left generalizing attempt with
  | zero =>
    obtain ⟨e', he'⟩ := hattempt (outcomes attempt)
    simp [retryFrom, he']
  | succ left ih =>
    obtain ⟨e', he'⟩ := hattempt (outcomes attempt)
    simp only [retryFrom, he']
    split
    · exact ih (attempt + 1)
    · exact ⟨nofun, rfl⟩

/-- Where the server accepts the statement from every state it leads to, the loop makes exactly the
attempts that the outcomes call for. -/
theorem retry_eq_attempts (p : BackendRetryPolicy) {C : τ → Prop}
    (hstep : ∀ s, C s → ∃ a s', exec s = .ok (a, s') ∧ C s') {st : τ} (hst : C st)
    (r : Except BackendError α) :
    ((retryStatement p exec outcomes st).result, (retryStatement p exec outcomes st).state) =
      attemptsOf exec (made p outcomes) (r, st) := by
  unfold retryStatement runWithRetry made
  generalize p.attempts.toNat - 1 = left
  generalize 0 = attempt
  induction left generalizing attempt st r with
  | zero => rfl
  | succ left ih =>
    obtain ⟨a, s', hexec, hs'⟩ := hstep st hst
    cases ho : outcomes attempt with
    | runs => simp [retryFrom, madeFrom, ho, attemptOf, attemptsOf, hexec]
    | failsBefore e =>
      by_cases he : isConnectionLevel e = true
      · have hretry : isRetryableConnectionError (.database e) = true := he
        simp only [retryFrom, madeFrom, ho, attemptOf, if_pos hretry, if_pos he]
        exact ih hst _ (attempt + 1)
      · have hretry : ¬isRetryableConnectionError (.database e) = true := he
        simp only [retryFrom, madeFrom, ho, attemptOf, if_neg hretry, if_neg he]
        rfl
    | failsAfter e =>
      by_cases he : isConnectionLevel e = true
      · have hretry : isRetryableConnectionError (.database e) = true := he
        simp only [retryFrom, madeFrom, ho, attemptOf, hexec, if_pos hretry, if_pos he]
        refine (ih hs' (.error (.database e)) (attempt + 1)).trans ?_
        simp [attemptsOf, attemptOf, hexec]
      · have hretry : ¬isRetryableConnectionError (.database e) = true := he
        simp only [retryFrom, madeFrom, ho, attemptOf, hexec, if_neg hretry, if_neg he]
        simp [attemptsOf, attemptOf, hexec]

/-- States that the statement does not lead out of, with answers all of a kind, are not left by its
attempts. -/
theorem attempts_class {C : τ → Prop} {A : α → Prop}
    (hstep : ∀ s, C s → ∃ a s', exec s = .ok (a, s') ∧ C s' ∧ A a) (os : List AttemptOutcome)
    {r : Except BackendError α × τ} (hr : C r.2) (hA : ∀ a, r.1 = .ok a → A a) :
    C (attemptsOf exec os r).2 ∧ ∀ a, (attemptsOf exec os r).1 = .ok a → A a := by
  induction os generalizing r with
  | nil => exact ⟨hr, hA⟩
  | cons o os ih =>
    obtain ⟨a, s', hexec, hs', ha⟩ := hstep r.2 hr
    apply ih
    · cases o <;> simp [attemptOf, hexec, hr, hs']
    · cases o <;> simp [attemptOf, hexec, ha]

variable {st s₀ : τ} {a₀ : α}

/-- From before the first effect: with an attempt that takes effect the class is reached, and every
answer is of its kind. -/
theorem attempts_reach {C : τ → Prop} {A : α → Prop}
    (hstep : ∀ s, C s → ∃ a s', exec s = .ok (a, s') ∧ C s' ∧ A a)
    (hexec : exec st = .ok (a₀, s₀)) (hC : C s₀) (ha₀ : A a₀) (os : List AttemptOutcome)
    {r : Except BackendError α} (hA : ∀ a, r = .ok a → A a) :
    ((∃ o ∈ os, o.takesEffect = true) → C (attemptsOf exec os (r, st)).2) ∧
    ∀ a, (attemptsOf exec os (r, st)).1 = .ok a → A a := by
  induction os generalizing r with
  | nil => exact ⟨fun ⟨_, ho, _⟩ => absurd ho List.not_mem_nil, hA⟩
  | cons o os ih =>
    cases o with
    | failsBefore e =>
      obtain ⟨hreach, hanswer⟩ := ih (r := .error (.database e)) nofun
      refine ⟨fun ⟨o, ho, heffect⟩ => hreach ⟨o, ?_, heffect⟩, hanswer⟩
      rcases List.mem_cons.mp ho with rfl | ho
      · cases heffect
      · exact ho
    | runs =>
      have hclass := attempts_class hstep os (r := (.ok a₀, s₀)) hC
        (fun a ha => Except.ok.inj ha ▸ ha₀)
      simp only [attemptsOf, List.foldl_cons, attemptOf, hexec]
      exact ⟨fun _ => hclass.1, hclass.2⟩
    | failsAfter e =>
      have hclass := attempts_class hstep os (r := (.error (.database e), s₀)) hC nofun
      simp only [attemptsOf, List.foldl_cons, attemptOf, hexec]
      exact ⟨fun _ => hclass.1, hclass.2⟩

/-- Only an attempt that runs through is answered. -/
theorem runs_of_answered {os : List AttemptOutcome} {o : AttemptOutcome}
    {r : Except BackendError α × τ} {a : α} (h : (attemptsOf exec (os ++ [o]) r).1 = .ok a) :
    o = .runs := by
  rw [attemptsOf, List.foldl_append] at h
  cases o with
  | runs => rfl
  | failsBefore e => cases h
  | failsAfter e =>
    simp only [List.foldl_cons, List.foldl_nil, attemptOf] at h
    split at h <;> simp_all

/-- Where no attempt but the last takes effect, the last starts from the state before the first. -/
theorem attempts_once (exec : τ → Except BackendError (α × τ)) {os : List AttemptOutcome}
    {o : AttemptOutcome} (hos : ∀ x ∈ os, x.takesEffect = false) (r : Except BackendError α)
    (st : τ) : attemptsOf exec (os ++ [o]) (r, st) = attemptOf exec o st := by
  induction os generalizing r with
  | nil => rfl
  | cons x os ih =>
    have hx := hos x List.mem_cons_self
    cases x with
    | failsBefore e => exact ih (fun y hy => hos y (List.mem_cons_of_mem _ hy)) _
    | runs => cases hx
    | failsAfter e => cases hx

end Loop

section Tables

variable {σ : Type}

/-- A call through the decorator, with what its attempts meet. -/
structure RetriedCall where
  call : StateCall
  outcomes : Nat → AttemptOutcome

/-- The tables, and the tables of the same calls without failures. -/
structure RetryState where
  real : TofuTables
  plain : TofuTables

def SameRows (s t : TofuTables) : Prop := contentsOf s = contentsOf t

variable (p : BackendRetryPolicy) (digest : String → String) (parse : ByteArray → Option σ)

def retrying (tables : TofuTables) (c : RetriedCall) : Retried (StateAnswer σ) TofuTables :=
  retryStatement p (fun t => TofuPgStateBackend.exec digest parse t c.call) c.outcomes tables

def plainTables (tables : TofuTables) (call : StateCall) : TofuTables :=
  match TofuPgStateBackend.exec digest parse tables call with
  | .ok r => r.2
  | .error _ => tables

def RetryState.step (st : RetryState) (c : RetriedCall) : RetryState :=
  ⟨(retrying p digest parse st.real c).state, plainTables digest parse st.plain c.call⟩

/-- The call reaches its table and has something to change there. -/
def Writes (tables : TofuTables) (call : StateCall) : Prop :=
  ∃ table, tofuStateTableIdent digest call.schemaName call.templateName = .ok table ∧
    match call.op with
    | .saveState stateName data => ∃ text, TofuPgStateBackend.fromUtf8 data = .ok text ∧
        bindText stateName = .ok () ∧ bindText text = .ok ()
    | .deleteState stateName => stateName ∈ (contentsOf tables table).map Prod.fst
    | _ => False

/-- A write takes effect at some attempt; a deletion that took effect is not made again with
success. -/
def Kept (st : RetryState) (c : RetriedCall) : Prop :=
  Writes digest st.plain c.call →
    (∃ o ∈ made p c.outcomes, o.takesEffect = true) ∧
    ∀ stateName, c.call.op = .deleteState stateName → (made p c.outcomes).getLast? = some .runs →
      ∀ o ∈ (made p c.outcomes).dropLast, o.takesEffect = false

/-- No attempt that took effect is followed by another. -/
def Once (c : RetriedCall) : Prop :=
  ∀ o ∈ (made p c.outcomes).dropLast, o.takesEffect = false

/-- A call whose answer and effect are those without failures, up to row ids, and whose attempts
are within the policy. -/
structure Invisible (st : RetryState) (c : RetriedCall) : Prop where
  answer : ∀ a, (retrying p digest parse st.real c).result = .ok a →
    ∃ r, TofuPgStateBackend.exec digest parse st.plain c.call = .ok r ∧ a.seen = r.1.seen
  table : SameRows (st.step p digest parse c).real (st.step p digest parse c).plain
  attempts : (retrying p digest parse st.real c).tried.length ≤ max 1 p.attempts.toNat
  stops : ∀ pre e post, (retrying p digest parse st.real c).tried = pre ++ .error e :: post →
    post ≠ [] → isRetryableConnectionError e = true

variable {p digest parse}

theorem exec_map_same {s t : TofuTables} (h : SameRows s t) (call : StateCall) :
    (TofuPgStateBackend.exec digest parse s call).map (fun r => (r.1.seen, contentsOf r.2)) =
      (TofuPgStateBackend.exec (σ := σ) digest parse t call).map
        (fun r => (r.1.seen, contentsOf r.2)) := by
  rw [tofu_exec_eq, tofu_exec_eq, show contentsOf s = contentsOf t from h]

theorem exec_same {s t t' : TofuTables} (h : SameRows s t) {call : StateCall} {b : StateAnswer σ}
    (ht : TofuPgStateBackend.exec digest parse t call = .ok (b, t')) :
    ∃ a s', TofuPgStateBackend.exec digest parse s call = .ok (a, s') ∧ a.seen = b.seen ∧
      SameRows s' t' := by
  have hs := @exec_map_same σ digest parse s t h call
  rw [ht] at hs
  cases hexec : TofuPgStateBackend.exec digest parse s call with
  | error e =>
    rw [hexec] at hs
    cases hs
  | ok r =>
    rw [hexec] at hs
    simp only [Except.map, Except.ok.injEq, Prod.mk.injEq] at hs
    exact ⟨r.1, r.2, rfl, hs.1, hs.2⟩

theorem exec_same_error {s t : TofuTables} (h : SameRows s t) {call : StateCall} {e : BackendError}
    (ht : TofuPgStateBackend.exec digest parse t call = .error e) :
    TofuPgStateBackend.exec digest parse s call = .error e := by
  have hs := @exec_map_same σ digest parse s t h call
  rw [ht] at hs
  cases hexec : TofuPgStateBackend.exec digest parse s call with
  | error e' =>
    rw [hexec] at hs
    exact congrArg _ (Except.error.inj hs)
  | ok r =>
    rw [hexec] at hs
    cases hs

/-- A call that is made again finds what it left. -/
theorem exec_again {t t' : TofuTables} {call : StateCall} {b : StateAnswer σ}
    (ht : TofuPgStateBackend.exec digest parse t call = .ok (b, t')) :
    ∃ b' t'', TofuPgStateBackend.exec digest parse t' call = .ok (b', t'') ∧ SameRows t'' t' ∧
      ((∀ stateName, call.op ≠ .deleteState stateName) → b'.seen = b.seen) := by
  have hfirst := @tofu_exec_eq σ digest parse t call
  have hagain := @tofu_exec_eq σ digest parse t' call
  rw [ht] at hfirst
  cases hident : tofuStateTableIdent digest call.schemaName call.templateName with
  | error e =>
    rw [hident] at hfirst
    cases hfirst
  | ok table =>
    rw [hident] at hfirst hagain
    simp only [bind, Except.bind] at hfirst hagain
    split at hfirst
    · cases hfirst
    · next r hr =>
      simp only [Except.map, Except.ok.injEq, Prod.mk.injEq] at hfirst
      obtain ⟨hseen, hcontents⟩ := hfirst
      have hheld : contentsOf t' table = r.2 := by
        rw [hcontents]
        simp [putTable]
      have hpair : execContent parse (contentsOf t table) call.op = .ok (r.1, r.2) := hr
      obtain ⟨a', ha', hsame⟩ := execContent_again hpair
      rw [hheld, ha'] at hagain
      simp only at hagain
      rw [← hheld, putTable_self] at hagain
      cases hexec : TofuPgStateBackend.exec digest parse t' call with
      | error e =>
        rw [hexec] at hagain
        cases hagain
      | ok r' =>
        rw [hexec] at hagain
        simp only [Except.map, Except.ok.injEq, Prod.mk.injEq] at hagain
        refine ⟨r'.1, r'.2, rfl, hagain.2, fun hop => ?_⟩
        rw [hagain.1, hsame hop, hseen]

theorem delete_absent {κ ν : Type} [DecidableEq κ] {t : SqlTable κ ν} {k : κ}
    (h : k ∉ t.content.map Prod.fst) : t.delete k = t := by
  rw [SqlTable.content_fst] at h
  obtain ⟨rows, nextId, hids, hfresh, hkeys⟩ := t
  have hrows : rows.filter (·.key ≠ k) = rows := by
    rw [List.filter_eq_self]
    intro r hr
    rw [decide_eq_true_eq]
    exact fun hk => h (hk ▸ List.mem_map_of_mem hr)
  simp only [SqlTable.delete, hrows]

/-- A call that writes nothing leaves the tables as they are. -/
theorem exec_quiet {t t' : TofuTables} {call : StateCall} (hquiet : ¬Writes digest t call)
    {b : StateAnswer σ} (ht : TofuPgStateBackend.exec digest parse t call = .ok (b, t')) :
    t' = t := by
  unfold TofuPgStateBackend.exec at ht
  cases hident : tofuStateTableIdent digest call.schemaName call.templateName with
  | error e =>
    rw [hident] at ht
    cases ht
  | ok table =>
    rw [hident] at ht
    simp only [bind, Except.bind] at ht
    cases hop : call.op with
    | getState stateName =>
      simp only [hop] at ht
      split at ht
      · cases ht
      · simp_all
    | getParsedState stateName =>
      simp only [hop] at ht
      split at ht
      · cases ht
      · split at ht
        · cases ht
        · simp_all
    | saveState stateName data =>
      simp only [hop] at ht
      split at ht
      · cases ht
      · next text htext =>
        split at ht
        · cases ht
        · next hname =>
          split at ht
          · cases ht
          · next hbind =>
            exact absurd ⟨table, hident, by rw [hop]; exact ⟨text, htext, hname, hbind⟩⟩ hquiet
    | deleteState stateName =>
      simp only [hop] at ht
      split at ht
      · cases ht
      · simp only [Except.ok.injEq, Prod.mk.injEq] at ht
        have habsent : stateName ∉ (t table).content.map Prod.fst := by
          intro hmem
          exact hquiet ⟨table, hident, by rw [hop]; exact hmem⟩
        rw [← ht.2, delete_absent habsent, putTable_self]
    | listStates => simp_all

variable {st : RetryState} {c : RetriedCall} {b : StateAnswer σ} {plain' : TofuTables}

/-- The attempts of a call that the server accepts without failures are those its outcomes call
for. -/
theorem retrying_eq_attempts (hsame : SameRows st.real st.plain)
    (hplain : TofuPgStateBackend.exec digest parse st.plain c.call = .ok (b, plain')) :
    ((retrying p digest parse st.real c).result, (retrying p digest parse st.real c).state) =
      attemptsOf (fun t => TofuPgStateBackend.exec digest parse t c.call) (made p c.outcomes)
        (.error .other, st.real) := by
  obtain ⟨b', plain'', hagain, hsame', -⟩ := exec_again hplain
  refine retry_eq_attempts p
    (C := fun s => SameRows s st.plain ∨ SameRows s plain') ?_ (.inl hsame) _
  rintro s (hs | hs)
  · obtain ⟨a, s', hexec, -, hs'⟩ := exec_same hs hplain
    exact ⟨a, s', hexec, .inr hs'⟩
  · obtain ⟨a, s', hexec, -, hs'⟩ := exec_same hs hagain
    exact ⟨a, s', hexec, .inr (hs'.trans hsame')⟩

theorem exists_last_made (p : BackendRetryPolicy) (outcomes : Nat → AttemptOutcome) :
    ∃ os o, made p outcomes = os ++ [o] := by
  have hne : made p outcomes ≠ [] := by
    unfold made
    cases p.attempts.toNat - 1 with
    | zero => exact nofun
    | succ left =>
      unfold madeFrom
      split <;> exact nofun
  exact (List.eq_nil_or_concat' _).resolve_left hne

/-- What is made of a call where `retrying_eq_attempts` applies. -/
def callAttempts (p : BackendRetryPolicy) (digest : String → String) (parse : ByteArray → Option σ)
    (st : RetryState) (c : RetriedCall) : Except BackendError (StateAnswer σ) × TofuTables :=
  attemptsOf (fun t => TofuPgStateBackend.exec digest parse t c.call) (made p c.outcomes)
    (.error .other, st.real)

section Attempts

variable (hsame : SameRows st.real st.plain)
  (hplain : TofuPgStateBackend.exec digest parse st.plain c.call = .ok (b, plain'))

include hsame hplain

/-- A save that takes effect: each attempt answers alike. -/
theorem save_invisible (heffect : ∃ o ∈ made p c.outcomes, o.takesEffect = true)
    (hop : ∀ stateName, c.call.op ≠ .deleteState stateName) :
    SameRows (callAttempts p digest parse st c).2 plain' ∧
      ∀ a, (callAttempts p digest parse st c).1 = .ok a → a.seen = b.seen := by
  obtain ⟨a₀, s₀, hreal, hseen₀, hs₀⟩ := exec_same hsame hplain
  obtain ⟨b', plain'', hagain, hsame', hanswer⟩ := exec_again hplain
  have hstep : ∀ s, SameRows s plain' → ∃ a s',
      TofuPgStateBackend.exec digest parse s c.call = .ok (a, s') ∧ SameRows s' plain' ∧
        a.seen = b.seen := by
    intro s hs
    obtain ⟨a, s', hexec, hseen, hs'⟩ := exec_same hs hagain
    exact ⟨a, s', hexec, hs'.trans hsame', hseen.trans (hanswer hop)⟩
  obtain ⟨hreach, hall⟩ := attempts_reach (A := fun a : StateAnswer σ => a.seen = b.seen) hstep
    hreal hs₀ hseen₀ (made p c.outcomes) (r := .error .other) nofun
  exact ⟨hreach heffect, hall⟩

/-- A deletion that takes effect: the answer is that of the attempt that removed the row. -/
theorem deletion_invisible (heffect : ∃ o ∈ made p c.outcomes, o.takesEffect = true)
    (hdelete : (made p c.outcomes).getLast? = some .runs →
      ∀ o ∈ (made p c.outcomes).dropLast, o.takesEffect = false) :
    SameRows (callAttempts p digest parse st c).2 plain' ∧
      ∀ a, (callAttempts p digest parse st c).1 = .ok a → a.seen = b.seen := by
  obtain ⟨a₀, s₀, hreal, hseen₀, hs₀⟩ := exec_same hsame hplain
  obtain ⟨b', plain'', hagain, hsame', -⟩ := exec_again hplain
  have hstep : ∀ s, SameRows s plain' → ∃ a s',
      TofuPgStateBackend.exec digest parse s c.call = .ok (a, s') ∧ SameRows s' plain' ∧ True := by
    intro s hs
    obtain ⟨a, s', hexec, -, hs'⟩ := exec_same hs hagain
    exact ⟨a, s', hexec, hs'.trans hsame', trivial⟩
  refine ⟨(attempts_reach (A := fun _ => True) hstep hreal hs₀ trivial (made p c.outcomes)
    (fun _ _ => trivial)).1 heffect, fun a ha => ?_⟩
  obtain ⟨os, o, hmade⟩ := exists_last_made p c.outcomes
  rw [callAttempts, hmade] at ha
  rw [hmade] at hdelete
  have hruns := runs_of_answered ha
  subst hruns
  have honce := hdelete (by simp)
  rw [List.dropLast_concat] at honce
  rw [attempts_once _ honce] at ha
  simp only [attemptOf, hreal] at ha
  rw [← Except.ok.inj ha]
  exact hseen₀

/-- Nothing to write: the tables stay as they are. -/
theorem quiet_invisible (hquiet : ¬Writes digest st.plain c.call) :
    SameRows (callAttempts p digest parse st c).2 plain' ∧
      ∀ a, (callAttempts p digest parse st c).1 = .ok a → a.seen = b.seen := by
  have hstays := exec_quiet hquiet hplain
  subst hstays
  have hstep : ∀ s, SameRows s st.plain → ∃ a s',
      TofuPgStateBackend.exec digest parse s c.call = .ok (a, s') ∧ SameRows s' st.plain ∧
        a.seen = b.seen := by
    intro s hs
    obtain ⟨a, s', hexec, hseen, hs'⟩ := exec_same hs hplain
    exact ⟨a, s', hexec, hs', hseen⟩
  exact attempts_class (A := fun a : StateAnswer σ => a.seen = b.seen) hstep (made p c.outcomes)
    (r := (.error .other, st.real)) hsame nofun

/-- The call ends where the one without failures does, and what it answers is the same. -/
theorem call_invisible (hkept : Kept p digest st c) :
    SameRows (retrying p digest parse st.real c).state plain' ∧
      ∀ a, (retrying p digest parse st.real c).result = .ok a → a.seen = b.seen := by
  have hattempts := @retrying_eq_attempts σ p digest parse st c b plain' hsame hplain
  rw [Prod.mk.injEq] at hattempts
  rw [hattempts.1, hattempts.2]
  by_cases hwrites : Writes digest st.plain c.call
  · obtain ⟨heffect, hdelete⟩ := hkept hwrites
    by_cases hop : ∀ stateName, c.call.op ≠ .deleteState stateName
    · exact save_invisible hsame hplain heffect hop
    · simp only [not_forall, not_not] at hop
      obtain ⟨stateName, hop⟩ := hop
      exact deletion_invisible hsame hplain heffect (hdelete stateName hop)
  · exact quiet_invisible hsame hplain hwrites

end Attempts

theorem invisible_of_kept (hsame : SameRows st.real st.plain) (hkept : Kept p digest st c) :
    Invisible p digest parse st c := by
  have hpolicy := tried_length p (fun i => attemptOf
    (fun t => TofuPgStateBackend.exec digest parse t c.call) (c.outcomes i))
    (p.attempts.toNat - 1) 0 st.real
  have hcall : (∀ a, (retrying p digest parse st.real c).result = .ok a →
      ∃ r, TofuPgStateBackend.exec digest parse st.plain c.call = .ok r ∧ a.seen = r.1.seen) ∧
      SameRows (st.step p digest parse c).real (st.step p digest parse c).plain := by
    cases hplain : TofuPgStateBackend.exec digest parse st.plain c.call with
    | error e =>
      obtain ⟨hnever, hstate⟩ := @retry_rejected _ _
        (fun t => TofuPgStateBackend.exec digest parse t c.call) c.outcomes p _ _
        (exec_same_error hsame hplain)
      refine ⟨fun a ha => absurd ha (hnever a), ?_⟩
      simp only [RetryState.step, plainTables, hplain]
      rw [show (retrying p digest parse st.real c).state = st.real from hstate]
      exact hsame
    | ok r =>
      have hpair : TofuPgStateBackend.exec digest parse st.plain c.call = .ok (r.1, r.2) := hplain
      obtain ⟨hstate, hanswer⟩ := call_invisible hsame hpair hkept
      refine ⟨fun a ha => ⟨r, rfl, hanswer a ha⟩, ?_⟩
      simp only [RetryState.step, plainTables, hplain]
      exact hstate
  refine ⟨hcall.1, hcall.2, ?_, ?_⟩
  · refine hpolicy.trans ?_
    omega
  · intro pre e post htried hpost
    exact tried_retryable p _ _ _ _ htried hpost

/-- What the attempts of a call come to when none that took effect is followed by another. -/
theorem call_exact (hsame : st.real = st.plain) (hkept : Kept p digest st c) (honce : Once p c) :
    (st.step p digest parse c).real = (st.step p digest parse c).plain ∧
    ∀ a, (retrying p digest parse st.real c).result = .ok a →
      ∃ t', TofuPgStateBackend.exec digest parse st.plain c.call = .ok (a, t') := by
  have hsame' : SameRows st.real st.plain := by rw [hsame]; rfl
  cases hplain : TofuPgStateBackend.exec digest parse st.plain c.call with
  | error e =>
    obtain ⟨hnever, hstate⟩ := @retry_rejected _ _
      (fun t => TofuPgStateBackend.exec digest parse t c.call) c.outcomes p _ _
      (exec_same_error hsame' hplain)
    refine ⟨?_, fun a ha => absurd ha (hnever a)⟩
    simp only [RetryState.step, plainTables, hplain]
    exact (show (retrying p digest parse st.real c).state = st.real from hstate).trans hsame
  | ok r =>
    have hpair : TofuPgStateBackend.exec digest parse st.plain c.call = .ok (r.1, r.2) := hplain
    have hattempts := @retrying_eq_attempts σ p digest parse st c r.1 r.2 hsame' hpair
    obtain ⟨os, o, hmade⟩ := exists_last_made p c.outcomes
    rw [Once, hmade, List.dropLast_concat] at honce
    rw [hmade, attempts_once _ honce, hsame, Prod.mk.injEq] at hattempts
    simp only [RetryState.step, plainTables, hplain]
    rw [hsame, hattempts.1, hattempts.2]
    cases o with
    | runs =>
      simp only [attemptOf, hplain]
      exact ⟨trivial, fun a ha => ⟨r.2, by rw [← Except.ok.inj ha]⟩⟩
    | failsAfter e =>
      simp only [attemptOf, hplain]
      exact ⟨trivial, nofun⟩
    | failsBefore e =>
      -- no attempt took effect, so there was nothing to write
      have hquiet : ¬Writes digest st.plain c.call := by
        intro hwrites
        obtain ⟨x, hx, heffect⟩ := (hkept hwrites).1
        rw [hmade, List.mem_append, List.mem_singleton] at hx
        rcases hx with hx | rfl
        · rw [honce x hx] at heffect
          cases heffect
        · cases heffect
      exact ⟨(exec_quiet hquiet hpair).symm, nofun⟩

/-- Every call of a run whose writes take effect, and whose deletions are not made again after they
did, is answered as without failures and leaves the same tables, up to row ids; where no attempt
that took effect is followed by another, the ids are the same too. -/
theorem retries_invisible (tables : TofuTables) {cs : List RetriedCall}
    (h : Along (RetryState.step p digest parse) ⟨tables, tables⟩ cs (Kept p digest)) :
    Along (RetryState.step p digest parse) ⟨tables, tables⟩ cs (Invisible p digest parse) ∧
    ((∀ c ∈ cs, Once p c) →
      Along (RetryState.step p digest parse) ⟨tables, tables⟩ cs (fun st c =>
        (st.step p digest parse c).real = (st.step p digest parse c).plain ∧
        ∀ a, (retrying p digest parse st.real c).result = .ok a →
          ∃ t', TofuPgStateBackend.exec digest parse st.plain c.call = .ok (a, t'))) := by
  constructor
  · intro pre c post he
    rw [he, along_append_iff, along_cons_iff] at h
    have hsame := @run_invariant_of_along RetryState RetriedCall (RetryState.step p digest parse)
      (fun st => SameRows st.real st.plain) _
      (fun st c hkept hinv => (invisible_of_kept hinv hkept).table) ⟨tables, tables⟩ rfl _ h.1
    exact invisible_of_kept hsame h.2.1
  · intro honce
    have hboth : Along (RetryState.step p digest parse) ⟨tables, tables⟩ cs
        (fun st c => Kept p digest st c ∧ Once p c) := by
      intro pre c post he
      exact ⟨h pre c post he, honce c (by rw [he]; simp)⟩
    intro pre c post he
    rw [he, along_append_iff, along_cons_iff] at hboth
    have hsame := @run_invariant_of_along RetryState RetriedCall (RetryState.step p digest parse)
      (fun st => st.real = st.plain) _
      (fun st c hkept hinv => (call_exact hinv hkept.1 hkept.2).1) ⟨tables, tables⟩ rfl _ hboth.1
    exact call_exact hsame hboth.2.1.1 hboth.2.1.2

end Tables

section Switchover

def switchoverTables : TofuTables := fun _ => SqlTable.empty.upsert "default" (some "\x7b\x7d")

def switchoverCall (op : StateOp) (outcomes : Nat → AttemptOutcome) : RetriedCall :=
  ⟨⟨"pangea_camelot", "camelot-eks", op, 0⟩, outcomes⟩

/-- One attempt that fails so, then all run. -/
def thenRuns (o : AttemptOutcome) : Nat → AttemptOutcome := fun i => if i = 0 then o else .runs

/-- A save whose first attempt was lost after it took effect, a deletion whose first attempt did
not reach the table, and a read. -/
theorem switchover_invisible :
    Along (RetryState.step .cnpgSwitchoverDefault id (fun _ => some ()))
      ⟨switchoverTables, switchoverTables⟩
      [switchoverCall (.saveState "default" "\x7b\x7d".toUTF8) (thenRuns (.failsAfter .io)),
        switchoverCall (.deleteState "default") (thenRuns (.failsBefore .poolTimedOut)),
        switchoverCall (.getState "default") (thenRuns .runs)]
      (Invisible .cnpgSwitchoverDefault id (fun _ => some ())) := by
  apply (retries_invisible switchoverTables _).1
  rw [along_cons_iff, along_cons_iff, along_cons_iff]
  refine ⟨fun _ => ⟨?_, fun _ hop => ?_⟩, fun _ => ⟨?_, fun _ _ => ?_⟩, fun hw => ?_,
    along_nil _ _ _⟩
  · decide +kernel
  · cases hop
  · decide +kernel
  · decide +kernel
  · obtain ⟨table, -, hw⟩ := hw
    exact hw.elim

/-- A deletion whose answer is lost is made again and answers that there was nothing to delete. -/
theorem deletion_made_again :
    ¬Invisible .cnpgSwitchoverDefault id (fun _ => some ()) ⟨switchoverTables, switchoverTables⟩
      (switchoverCall (.deleteState "default") (thenRuns (.failsAfter .io))) := by
  intro h
  obtain ⟨r, hr, hseen⟩ := h.answer (.deleted false) (by decide +kernel)
  have hplain : (TofuPgStateBackend.exec id (fun _ => some ()) switchoverTables
      (switchoverCall (.deleteState "default") (thenRuns (.failsAfter .io))).call).map
        (fun r => r.1.seen) = .ok (.deleted true) := by decide +kernel
  rw [show TofuPgStateBackend.exec id (fun _ => some ()) switchoverTables _ = _ from hr] at hplain
  have hremoved : r.1.seen = .deleted true := Except.ok.inj hplain
  exact absurd (hseen.trans hremoved) nofun

end Switchover

end PangeaOperator
