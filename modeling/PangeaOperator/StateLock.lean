import PangeaOperator.Lib.Run
import PangeaOperator.Lib.SessionLock
import PangeaOperator.Lib.SipHash

/-!
# The state lock

`backend/lock.rs`. A guard stands for an advisory lock of PostgreSQL, which belongs to the
session that took it, while every statement of the lock manager runs on whichever session
of the pool is idle. A run is any interleaving of single statements of any workers.
-/

namespace PangeaOperator

open SipHash

structure LockPair where
  schemaName : String
  templateName : String
  deriving DecidableEq, Repr

def computeLockId (schemaName templateName : String) : Int64 :=
  (sipHash (textBytes schemaName ++ textBytes templateName)).toInt64

def LockPair.lockId (p : LockPair) : Int64 := computeLockId p.schemaName p.templateName

/-- Who has to give a lock back: a live guard, the task that the drop of a guard spawned, or a
probe of `is_locked` between its two statements. -/
inductive LockHolder where
  | guard
  | dropped
  | probe
  deriving DecidableEq, Repr

/-- A lock that was taken, with the session that the taking statement happened to run on. -/
structure Taking (σ : Type) where
  pair : LockPair
  session : σ
  holder : LockHolder
  deriving DecidableEq, Repr

/-- The lock table of the server, and what the workers have taken and not given back. -/
structure LockState (σ : Type) where
  locks : Locks σ Int64
  takings : List (Taking σ)

/-- One statement, on the session it runs on, or the drop of a guard. A wait for the lock is a
`tryAcquire` for each of its attempts, and a release that fails drops its guard. -/
inductive LockEvent (σ : Type) where
  | tryAcquire (on : σ) (pair : LockPair)
  | release (pair : LockPair) (session on : σ)
  | drop (pair : LockPair) (session : σ)
  | unlockDropped (pair : LockPair) (session on : σ)
  | unlockDroppedFails (pair : LockPair) (session : σ)
  | isLocked (on : σ) (pair : LockPair)
  | isLockedUnlock (pair : LockPair) (session on : σ)
  | isLockedUnlockFails (pair : LockPair) (session : σ)
  | forceRelease (on : σ) (pair : LockPair)
  deriving DecidableEq, Repr

namespace LockState

variable {σ : Type} [DecidableEq σ]

def start : LockState σ := ⟨Locks.free, []⟩

/-- `pg_try_advisory_lock` on a session. -/
def take (st : LockState σ) (on : σ) (pair : LockPair) (holder : LockHolder) : LockState σ :=
  let answer := st.locks.tryLock on pair.lockId
  if answer.1 then ⟨answer.2, ⟨pair, on, holder⟩ :: st.takings⟩ else st

/-- `pg_advisory_unlock` on a session; the holder believes itself rid of the lock whatever the
server answers. -/
def giveBack (st : LockState σ) (x : Taking σ) (on : σ) : LockState σ :=
  if x ∈ st.takings then ⟨(st.locks.unlock on x.pair.lockId).2, st.takings.erase x⟩ else st

/-- The unlock statement fails and nobody tries again. -/
def lose (st : LockState σ) (x : Taking σ) : LockState σ :=
  { st with takings := st.takings.erase x }

def dropGuard (st : LockState σ) (pair : LockPair) (session : σ) : LockState σ :=
  if ⟨pair, session, .guard⟩ ∈ st.takings then
    { st with takings := ⟨pair, session, .dropped⟩ :: st.takings.erase ⟨pair, session, .guard⟩ }
  else st

def step (st : LockState σ) : LockEvent σ → LockState σ
  | .tryAcquire on pair => st.take on pair .guard
  | .release pair session on => st.giveBack ⟨pair, session, .guard⟩ on
  | .drop pair session => st.dropGuard pair session
  | .unlockDropped pair session on => st.giveBack ⟨pair, session, .dropped⟩ on
  | .unlockDroppedFails pair session => st.lose ⟨pair, session, .dropped⟩
  | .isLocked on pair => st.take on pair .probe
  | .isLockedUnlock pair session on => st.giveBack ⟨pair, session, .probe⟩ on
  | .isLockedUnlockFails pair session => st.lose ⟨pair, session, .probe⟩
  | .forceRelease on pair => { st with locks := (st.locks.unlock on pair.lockId).2 }

/-- Whether a `try_acquire` of the pair on that session would return a guard. -/
def acquires (st : LockState σ) (on : σ) (pair : LockPair) : Bool :=
  (st.locks.tryLock on pair.lockId).1

def isGuardOf (pair : LockPair) (x : Taking σ) : Bool := x.holder = .guard && x.pair = pair

def liveGuards (st : LockState σ) (pair : LockPair) : Nat := st.takings.countP (isGuardOf pair)

end LockState

open LockState

section Exclusion

variable {σ : Type} [DecidableEq σ]

/-- Where the pool's choice of a session does no harm to the lock of the pair: an attempt does not
run on the session of a live guard, every unlock runs on the session that took the lock and goes
through, a forced release finds nothing on its session, and no other pair shares the lock. -/
def OnOwnSession (p : LockPair) (st : LockState σ) : LockEvent σ → Prop
  | .tryAcquire on q => q.lockId = p.lockId → q = p ∧ ⟨p, on, .guard⟩ ∉ st.takings
  | .release q session on => q.lockId = p.lockId → on = session
  | .drop _ _ => True
  | .unlockDropped q session on => q.lockId = p.lockId → on = session
  | .unlockDroppedFails q _ => q.lockId ≠ p.lockId
  | .isLocked _ _ => True
  | .isLockedUnlock q session on => q.lockId = p.lockId → on = session
  | .isLockedUnlockFails q _ => q.lockId ≠ p.lockId
  | .forceRelease on q => q.lockId = p.lockId → st.locks.count on p.lockId = 0

/-- Takings of the pair's lock on a session. -/
def takenOn (p : LockPair) (s : σ) (x : Taking σ) : Bool :=
  x.pair.lockId = p.lockId && x.session = s

/-- The server's counts for the lock are those of the workers, and they hold one guard at most. -/
structure Accounted (p : LockPair) (st : LockState σ) : Prop where
  count : ∀ s, st.locks.count s p.lockId = st.takings.countP (takenOn p s)
  own : ∀ x ∈ st.takings, x.holder = .guard → x.pair.lockId = p.lockId → x.pair = p
  single : st.liveGuards p ≤ 1

theorem accounted_start (p : LockPair) : Accounted p (start : LockState σ) :=
  ⟨fun _ => rfl, fun _ hx => absurd hx List.not_mem_nil, Nat.zero_le 1⟩

variable {p : LockPair} {st : LockState σ}

theorem countP_eq_erase {x : Taking σ} {xs : List (Taking σ)} (hx : x ∈ xs)
    (f : Taking σ → Bool) : xs.countP f = (xs.erase x).countP f + if f x then 1 else 0 := by
  rw [(List.perm_cons_erase hx).countP_eq f, List.countP_cons]

theorem accounted_take (h : Accounted p st) (on : σ) (q : LockPair) (holder : LockHolder)
    (hguard : holder = .guard → q.lockId = p.lockId → q = p ∧ ⟨p, on, .guard⟩ ∉ st.takings) :
    Accounted p (st.take on q holder) := by
  unfold take
  dsimp only
  split
  · next hgranted =>
    refine ⟨fun s => ?_, ?_, ?_⟩
    · rw [List.countP_cons]
      by_cases hid : q.lockId = p.lockId
      · rw [hid] at hgranted ⊢
        rw [Locks.count_tryLock _ _ _ _ hgranted, h.count]
        simp [takenOn, hid, eq_comm]
      · rw [Locks.count_tryLock_other _ _ _ _ (Ne.symm hid), h.count]
        simp [takenOn, hid]
    · intro x hx hholder hid
      rcases List.mem_cons.mp hx with rfl | hx
      · exact (hguard hholder hid).1
      · exact h.own x hx hholder hid
    · rw [liveGuards, List.countP_cons]
      by_cases hnew : isGuardOf p (⟨q, on, holder⟩ : Taking σ) = true
      · -- a guard is granted: its session is alone with the lock, and had no guard
        rw [isGuardOf, Bool.and_eq_true, decide_eq_true_eq, decide_eq_true_eq] at hnew
        obtain ⟨hholder, rfl⟩ := hnew
        have hnone : st.takings.countP (isGuardOf q) = 0 := by
          rw [List.countP_eq_zero]
          intro x hx hguardx
          rw [isGuardOf, Bool.and_eq_true, decide_eq_true_eq, decide_eq_true_eq] at hguardx
          obtain ⟨hxh, hxp⟩ := hguardx
          by_cases hs : x.session = on
          · apply (hguard hholder rfl).2
            rw [← hs, ← hxp, ← hxh]
            exact hx
          · have hzero := (Locks.tryLock_granted_iff _ _ _).mp hgranted x.session hs
            rw [h.count, List.countP_eq_zero] at hzero
            exact hzero x hx (by simp [takenOn, hxp])
        rw [hnone]
        split <;> omega
      · rw [if_neg hnew]
        exact h.single
  · exact h

theorem takings_giveBack {x : Taking σ} (hx : x ∈ st.takings) (on : σ) :
    (st.giveBack x on).takings = st.takings.erase x := by
  rw [giveBack, if_pos hx]

theorem accounted_giveBack (h : Accounted p st) (x : Taking σ) (on : σ)
    (hon : x.pair.lockId = p.lockId → on = x.session) : Accounted p (st.giveBack x on) := by
  unfold giveBack
  split
  · next hx =>
    refine ⟨fun s => ?_, fun y hy => h.own y (List.mem_of_mem_erase hy), ?_⟩
    · have hcount := h.count s
      rw [countP_eq_erase hx (takenOn p s)] at hcount
      by_cases hid : x.pair.lockId = p.lockId
      · rw [hid, Locks.count_unlock, hcount, hon hid]
        simp [takenOn, hid, eq_comm]
      · rw [Locks.count_unlock_other _ _ _ _ (Ne.symm hid), hcount]
        simp [takenOn, hid]
    · exact Nat.le_trans ((List.erase_sublist).countP_le) h.single
  · exact h

theorem accounted_lose (h : Accounted p st) (x : Taking σ) (hid : x.pair.lockId ≠ p.lockId) :
    Accounted p (st.lose x) := by
  refine ⟨fun s => ?_, fun y hy => h.own y (List.mem_of_mem_erase hy), ?_⟩
  · rw [lose, h.count]
    by_cases hx : x ∈ st.takings
    · rw [countP_eq_erase hx]
      simp [takenOn, hid]
    · rw [List.erase_of_not_mem hx]
  · exact Nat.le_trans ((List.erase_sublist).countP_le) h.single

theorem accounted_dropGuard (h : Accounted p st) (q : LockPair) (session : σ) :
    Accounted p (st.dropGuard q session) := by
  unfold dropGuard
  split
  · next hx =>
    refine ⟨fun s => ?_, ?_, ?_⟩
    · -- the dropped guard is counted on the session of the live one
      have hsame : takenOn p s ⟨q, session, .dropped⟩ = takenOn p s ⟨q, session, .guard⟩ := rfl
      rw [List.countP_cons, hsame, h.count, countP_eq_erase hx]
    · intro y hy hholder
      rcases List.mem_cons.mp hy with rfl | hy
      · cases hholder
      · exact h.own y (List.mem_of_mem_erase hy) hholder
    · rw [liveGuards, List.countP_cons, if_neg (by simp [isGuardOf])]
      exact Nat.le_trans ((List.erase_sublist).countP_le) h.single
  · exact h

theorem accounted_step (st : LockState σ) (e : LockEvent σ) (he : OnOwnSession p st e)
    (h : Accounted p st) : Accounted p (st.step e) := by
  cases e with
  | tryAcquire on q => exact accounted_take h on q .guard (fun _ => he)
  | release q session on => exact accounted_giveBack h _ on he
  | drop q session => exact accounted_dropGuard h q session
  | unlockDropped q session on => exact accounted_giveBack h _ on he
  | unlockDroppedFails q session => exact accounted_lose h _ he
  | isLocked on q => exact accounted_take h on q .probe nofun
  | isLockedUnlock q session on => exact accounted_giveBack h _ on he
  | isLockedUnlockFails q session => exact accounted_lose h _ he
  | forceRelease on q =>
    refine ⟨fun s => ?_, h.own, h.single⟩
    rw [step]
    by_cases hid : q.lockId = p.lockId
    · rw [hid, Locks.count_unlock, ← h.count]
      by_cases hs : s = on
      · rw [hs, he hid, Nat.zero_sub]
      · simp [hs]
    · rw [Locks.count_unlock_other _ _ _ _ (Ne.symm hid), h.count]

/-- An unlock that is still outstanding for the pair's lock, on the session that took it. -/
def Settles (p : LockPair) : LockEvent σ → Prop
  | .unlockDropped q session on => q.lockId = p.lockId ∧ on = session
  | .isLockedUnlock q session on => q.lockId = p.lockId ∧ on = session
  | _ => False

/-- Without a live guard everything taken is outstanding; one unlock settles one taking. -/
theorem settle_one (h : Accounted p st) (hnone : st.liveGuards p = 0) {x : Taking σ}
    (hx : x ∈ st.takings) (hid : x.pair.lockId = p.lockId) :
    ∃ e, Settles p e ∧ st.step e = st.giveBack x x.session := by
  obtain ⟨q, session, holder⟩ := x
  cases holder with
  | guard =>
    have hpair := h.own _ hx rfl hid
    rw [liveGuards, List.countP_eq_zero] at hnone
    exact absurd (by simpa [isGuardOf] using hpair) (hnone _ hx)
  | dropped => exact ⟨.unlockDropped q session session, ⟨hid, rfl⟩, rfl⟩
  | probe => exact ⟨.isLockedUnlock q session session, ⟨hid, rfl⟩, rfl⟩

theorem settle_all (h : Accounted p st) (hnone : st.liveGuards p = 0) :
    ∃ fs : List (LockEvent σ), (∀ e ∈ fs, Settles p e) ∧
      ∀ on, (run LockState.step st fs).acquires on p = true := by
  -- one unlock for each taking of the lock
  induction hn : st.takings.countP (fun x => x.pair.lockId = p.lockId) generalizing st with
  | zero =>
    refine ⟨[], by simp, fun on => ?_⟩
    rw [List.countP_eq_zero] at hn
    refine (Locks.tryLock_granted_iff _ _ _).mpr (fun s _ => ?_)
    rw [run_nil, h.count, List.countP_eq_zero]
    intro x hx ht
    simp only [takenOn, Bool.and_eq_true] at ht
    exact hn x hx ht.1
  | succ n ih =>
    have hpos : 0 < st.takings.countP (fun x => x.pair.lockId = p.lockId) := by omega
    obtain ⟨x, hx, hid⟩ := List.countP_pos_iff.mp hpos
    rw [decide_eq_true_eq] at hid
    obtain ⟨e, he, hstep⟩ := settle_one h hnone hx hid
    have hguards : (st.giveBack x x.session).liveGuards p = 0 := by
      rw [liveGuards, takings_giveBack hx]
      have hle : (st.takings.erase x).countP (isGuardOf p) ≤ st.liveGuards p :=
        List.erase_sublist.countP_le
      omega
    have hcount : (st.giveBack x x.session).takings.countP (fun x => x.pair.lockId = p.lockId) =
        n := by
      rw [takings_giveBack hx]
      rw [countP_eq_erase hx, if_pos (decide_eq_true hid)] at hn
      omega
    obtain ⟨fs, hfs, hacquires⟩ :=
      ih (accounted_giveBack h x x.session (fun _ => rfl)) hguards hcount
    refine ⟨e :: fs, ?_, fun on => ?_⟩
    · intro f hf
      rcases List.mem_cons.mp hf with rfl | hf
      · exact he
      · exact hfs f hf
    · rw [run_cons, hstep]
      exact hacquires on

/-- The lock of the pair excludes and is really released: at most one guard lives, and when none
does, an attempt on any session succeeds once the outstanding unlocks have run. -/
structure Excludes (p : LockPair) (st : LockState σ) : Prop where
  single : st.liveGuards p ≤ 1
  released : st.liveGuards p = 0 → ∃ fs : List (LockEvent σ), (∀ e ∈ fs, Settles p e) ∧
    ∀ on, (run LockState.step st fs).acquires on p = true

/-- In every state of a run whose statements all find the right session, the lock excludes. -/
theorem lock_excludes {es : List (LockEvent σ)}
    (h : Along LockState.step LockState.start es (OnOwnSession p)) :
    ∀ pre post, es = pre ++ post → Excludes p (run LockState.step LockState.start pre) := by
  intro pre post he
  rw [he, along_append_iff] at h
  have hacc := run_invariant_of_along accounted_step (accounted_start p) h.1
  exact ⟨hacc.single, settle_all hacc⟩

end Exclusion

def webServer : LockPair := ⟨"pangea_prod", "web_server"⟩

/-- Two workers take turns, each on its own session. -/
theorem turns_exclude :
    Excludes webServer (run LockState.step (LockState.start : LockState Nat)
      [.tryAcquire 0 webServer, .tryAcquire 1 webServer, .release webServer 0 0]) := by
  refine @lock_excludes Nat _ webServer [.tryAcquire 0 webServer, .tryAcquire 1 webServer,
    .release webServer 0 0] ?_ _ [] rfl
  rw [along_cons_iff, along_cons_iff, along_cons_iff]
  refine ⟨fun _ => ⟨rfl, List.not_mem_nil⟩, fun _ => ⟨rfl, ?_⟩, fun _ => rfl, along_nil _ _ _⟩
  simp [LockState.step, LockState.take, LockState.start, Locks.tryLock, Locks.free]

section Pooled

variable (p : LockPair)

/-- Two attempts that the pool puts on one session both succeed. -/
theorem two_guards_on_one_session :
    (run LockState.step (LockState.start : LockState Nat)
      [.tryAcquire 0 p, .tryAcquire 0 p]).liveGuards p = 2 := by
  simp [LockState.step, LockState.take, LockState.start, Locks.tryLock, Locks.free,
    LockState.liveGuards, LockState.isGuardOf]

/-- A release that the pool puts on another session leaves nothing to give back and the lock
taken. -/
theorem taken_after_release :
    (run LockState.step (LockState.start : LockState Nat)
      [.tryAcquire 0 p, .release p 0 1]).takings = [] ∧
    (run LockState.step (LockState.start : LockState Nat)
      [.tryAcquire 0 p, .release p 0 1]).acquires 1 p = false := by
  simp [LockState.step, LockState.take, LockState.giveBack, LockState.start, Locks.tryLock,
    Locks.unlock, Locks.free, LockState.acquires]

theorem run_settles_of_nil {σ : Type} [DecidableEq σ] {st : LockState σ} (hnil : st.takings = [])
    (fs : List (LockEvent σ)) (hfs : ∀ e ∈ fs, Settles p e) :
    run LockState.step st fs = st := by
  induction fs with
  | nil => rfl
  | cons e fs ih =>
    have hstep : st.step e = st := by
      have he := hfs e List.mem_cons_self
      cases e with
      | unlockDropped q session on => simp [LockState.step, LockState.giveBack, hnil]
      | isLockedUnlock q session on => simp [LockState.step, LockState.giveBack, hnil]
      | _ => exact absurd he id
    rw [run_cons, hstep]
    exact ih (fun f hf => hfs f (List.mem_cons_of_mem e hf))

end Pooled

/-- Neither half holds when the pool picks the sessions. -/
theorem pooled_lock_does_not_exclude :
    (¬Excludes webServer (run LockState.step (LockState.start : LockState Nat)
      [.tryAcquire 0 webServer, .tryAcquire 0 webServer])) ∧
    ¬Excludes webServer (run LockState.step (LockState.start : LockState Nat)
      [.tryAcquire 0 webServer, .release webServer 0 1]) := by
  constructor
  · intro h
    exact absurd h.single (by rw [two_guards_on_one_session]; decide)
  · intro h
    obtain ⟨hnil, hrefused⟩ := taken_after_release webServer
    obtain ⟨fs, hfs, hacquires⟩ := h.released (by rw [LockState.liveGuards, hnil]; rfl)
    have hgranted := hacquires 1
    rw [run_settles_of_nil webServer hnil fs hfs, hrefused] at hgranted
    exact Bool.noConfusion hgranted

end PangeaOperator
