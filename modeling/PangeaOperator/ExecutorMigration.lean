import Mathlib.Data.UInt
import PangeaOperator.Lib.Run

/-!
# Executor migration

`executor_migration.rs`: the machine that takes a workspace from one executor to the other.
A run keeps, beside the state, what its guards are about: the executor named last, and the
parity results received since the machine last started to count them.
-/

namespace PangeaOperator

inductive Authoritative where
  | tofu
  | magma
  deriving DecidableEq, Repr

inductive MigrationPhase where
  | pinned
  | shadow
  | held
  | cutover
  | verified
  | rolledBack
  deriving DecidableEq, Repr

def MigrationPhase.authoritative : MigrationPhase → Authoritative
  | cutover | verified => .magma
  | _ => .tofu

inductive ParityResult where
  | clean
  | diverged
  deriving DecidableEq, Repr

inductive AnomalyKind where
  | applyFailed
  | driftRefused
  | driftRequiresApproval
  | errorBudgetBreach
  deriving DecidableEq, Repr

inductive MagmaCycleResult where
  | clean
  | anomaly (kind : AnomalyKind)
  deriving DecidableEq, Repr

inductive AbortReason where
  | manual
  | budgetBreach
  deriving DecidableEq, Repr

inductive RollbackReason where
  | anomaly (kind : AnomalyKind)
  | aborted (reason : AbortReason)
  deriving DecidableEq, Repr

inductive MigrationEvent where
  | enroll
  | parity (result : ParityResult)
  | cutoverApproved
  | magmaCycle (result : MagmaCycleResult)
  | abort (reason : AbortReason)
  | acknowledge
  deriving DecidableEq, Repr

structure MigrationPolicy where
  parityThreshold : UInt32
  verifyCycles : UInt32
  autoCutover : Bool
  divergenceBudget : UInt32
  lifeline : Bool
  deriving DecidableEq, Repr

namespace MigrationPolicy

/-- The preset `lifeline()`. -/
def lifelinePreset : MigrationPolicy := ⟨20, 10, false, 0, true⟩

def effectiveDivergenceBudget (p : MigrationPolicy) : UInt32 :=
  if p.lifeline then 0 else p.divergenceBudget

def mayAutoCutover (p : MigrationPolicy) : Bool := p.autoCutover && !p.lifeline

end MigrationPolicy

structure MigrationState where
  phase : MigrationPhase
  parityStreak : UInt32
  divergenceCount : UInt32
  verifiedCycles : UInt32
  rolledBackReason : Option RollbackReason
  deriving DecidableEq, Repr

namespace MigrationState

def pinned : MigrationState := ⟨.pinned, 0, 0, 0, none⟩

def rolledBack (reason : RollbackReason) : MigrationState := ⟨.rolledBack, 0, 0, 0, some reason⟩

end MigrationState

inductive MigrationEffect where
  | setAuthoritative (executor : Authoritative)
  | runShadowParity
  | emitParityReceipt
  | requestCutoverApproval
  | emitAnomaly (kind : AnomalyKind)
  | alert (message : String)
  | recordVerified
  deriving DecidableEq, Repr

structure Transition where
  next : MigrationState
  effects : List MigrationEffect
  deriving DecidableEq, Repr

def Transition.identity (state : MigrationState) : Transition := ⟨state, []⟩

/-- An abort, from any phase. -/
def abortStep (state : MigrationState) (reason : AbortReason) : Transition :=
  match state.phase with
  | .pinned | .shadow | .held => ⟨.pinned, [.setAuthoritative .tofu]⟩
  | .cutover | .verified =>
    ⟨.rolledBack (.aborted reason),
      [.setAuthoritative .tofu, .alert "executor migration aborted — reverted to tofu"]⟩
  | .rolledBack => .identity state

def shadowClean (state : MigrationState) (policy : MigrationPolicy) : Transition :=
  let streak := state.parityStreak + 1
  if streak ≥ policy.parityThreshold then
    if policy.mayAutoCutover then
      ⟨{ state with phase := .cutover, verifiedCycles := 0 },
        [.emitParityReceipt, .setAuthoritative .magma]⟩
    else
      ⟨{ state with phase := .held, parityStreak := streak },
        [.emitParityReceipt, .requestCutoverApproval]⟩
  else ⟨{ state with parityStreak := streak }, [.emitParityReceipt]⟩

def shadowDiverged (state : MigrationState) (policy : MigrationPolicy) : Transition :=
  let divergences := state.divergenceCount + 1
  if divergences > policy.effectiveDivergenceBudget then
    ⟨.pinned, [.emitAnomaly .applyFailed,
      .alert "parity divergence budget exceeded — pinned to tofu", .setAuthoritative .tofu]⟩
  else
    ⟨{ state with parityStreak := 0, divergenceCount := divergences }, [.emitParityReceipt]⟩

def cutoverClean (state : MigrationState) (policy : MigrationPolicy) : Transition :=
  let verified := state.verifiedCycles + 1
  if verified ≥ policy.verifyCycles then
    ⟨{ state with phase := .verified, verifiedCycles := verified }, [.recordVerified]⟩
  else ⟨{ state with verifiedCycles := verified }, []⟩

/-- `step` of the migration machine. -/
def migrationStep (state : MigrationState) (event : MigrationEvent) (policy : MigrationPolicy) :
    Transition :=
  match state.phase, event with
  | _, .abort reason => abortStep state reason
  | .pinned, .enroll =>
    ⟨{ MigrationState.pinned with phase := .shadow }, [.setAuthoritative .tofu, .runShadowParity]⟩
  | .shadow, .parity .clean => shadowClean state policy
  | .shadow, .parity .diverged => shadowDiverged state policy
  | .held, .cutoverApproved =>
    ⟨{ state with phase := .cutover, verifiedCycles := 0 }, [.setAuthoritative .magma]⟩
  -- no budget here: the count is raised and the workspace shadows again
  | .held, .parity .diverged =>
    ⟨{ state with
        phase := .shadow
        parityStreak := 0
        divergenceCount := state.divergenceCount + 1 },
      [.emitAnomaly .applyFailed, .runShadowParity]⟩
  | .held, .parity .clean => .identity state
  | .cutover, .magmaCycle .clean => cutoverClean state policy
  | .cutover, .magmaCycle (.anomaly kind) =>
    ⟨.rolledBack (.anomaly kind), [.setAuthoritative .tofu, .emitAnomaly kind,
      .alert "magma cycle anomaly — rolled back to tofu"]⟩
  | .verified, .magmaCycle (.anomaly kind) =>
    ⟨.rolledBack (.anomaly kind), [.setAuthoritative .tofu, .emitAnomaly kind,
      .alert "post-verification anomaly — rolled back to tofu"]⟩
  | .verified, .magmaCycle .clean => .identity state
  | .rolledBack, .acknowledge => ⟨.pinned, [.setAuthoritative .tofu]⟩
  | _, _ => .identity state

/-- The counter that a step raises by one, before it does. -/
def raisedCounter (state : MigrationState) (event : MigrationEvent) : Option UInt32 :=
  match state.phase, event with
  | .shadow, .parity .clean => some state.parityStreak
  | .shadow, .parity .diverged => some state.divergenceCount
  | .held, .parity .diverged => some state.divergenceCount
  | .cutover, .magmaCycle .clean => some state.verifiedCycles
  | _, _ => none

/-- The executor named last, after these effects. -/
def lastAuthoritative (executor : Authoritative) (effects : List MigrationEffect) : Authoritative :=
  effects.foldl (fun named effect => match effect with
    | .setAuthoritative next => next
    | _ => named) executor

/-- A run of the machine with what it has seen. -/
structure MigrationRun where
  state : MigrationState
  /-- The executor named by the last effect that names one. -/
  named : Authoritative
  /-- Clean parity results since the last enrolment or the last divergence that counted. -/
  clean : Nat
  /-- Diverged ones since then. -/
  diverged : Nat
  /-- Divergences that counted since the workspace last left Pinned. -/
  divergences : Nat
  deriving DecidableEq, Repr

/-- A divergence counts when it is received in Shadow or Held. -/
def counts (state : MigrationState) (event : MigrationEvent) : Bool :=
  event = .parity .diverged && (state.phase = .shadow || state.phase = .held)

def watchMigration (policy : MigrationPolicy) (w : MigrationRun) (event : MigrationEvent) :
    MigrationRun :=
  let t := migrationStep w.state event policy
  let enrolled := w.state.phase = .pinned && t.next.phase = .shadow
  let left := w.state.phase = .pinned && t.next.phase ≠ .pinned
  let restarts := enrolled || counts w.state event
  { state := t.next
    named := lastAuthoritative w.named t.effects
    clean := if restarts then 0 else w.clean + if event = .parity .clean then 1 else 0
    diverged := if restarts then 0 else w.diverged + if event = .parity .diverged then 1 else 0
    divergences := if left then 0 else w.divergences + if counts w.state event then 1 else 0 }

def MigrationRun.start : MigrationRun := ⟨.pinned, .tofu, 0, 0, 0⟩

/-- In Shadow or Held, where divergences count. -/
def MigrationState.Parity (s : MigrationState) : Prop := s.phase = .shadow ∨ s.phase = .held

/-- Everything a step of a run can do. -/
inductive MigrationMove (policy : MigrationPolicy) (w : MigrationRun) :
    MigrationEvent → MigrationRun → Prop
  | rest {event clean diverged} : raisedCounter w.state event = none →
    counts w.state event = false → w.clean ≤ clean → (w.state.Parity → diverged = w.diverged) →
    MigrationMove policy w event { w with clean := clean, diverged := diverged }
  | leave {event u} : raisedCounter w.state event = none → counts w.state event = false →
    u.named = .tofu → (u.state.phase = .pinned ∨ u.state.phase = .rolledBack) →
    MigrationMove policy w event u
  | enroll : w.state.phase = .pinned →
    MigrationMove policy w .enroll
      ⟨{ MigrationState.pinned with phase := .shadow }, .tofu, 0, 0, 0⟩
  | accrue : w.state.phase = .shadow → w.state.parityStreak + 1 < policy.parityThreshold →
    MigrationMove policy w (.parity .clean)
      { w with
        state := { w.state with parityStreak := w.state.parityStreak + 1 }
        clean := w.clean + 1 }
  | autoCutover : w.state.phase = .shadow →
    policy.parityThreshold ≤ w.state.parityStreak + 1 → policy.mayAutoCutover = true →
    MigrationMove policy w (.parity .clean)
      { w with
        state := { w.state with phase := .cutover, verifiedCycles := 0 }
        named := .magma
        clean := w.clean + 1 }
  | hold : w.state.phase = .shadow → policy.parityThreshold ≤ w.state.parityStreak + 1 →
    MigrationMove policy w (.parity .clean)
      { w with
        state := { w.state with phase := .held, parityStreak := w.state.parityStreak + 1 }
        clean := w.clean + 1 }
  | pin : w.state.phase = .shadow →
    policy.effectiveDivergenceBudget < w.state.divergenceCount + 1 →
    MigrationMove policy w (.parity .diverged) ⟨.pinned, .tofu, 0, 0, w.divergences + 1⟩
  | diverge : w.state.phase = .shadow →
    w.state.divergenceCount + 1 ≤ policy.effectiveDivergenceBudget →
    MigrationMove policy w (.parity .diverged)
      ⟨{ w.state with parityStreak := 0, divergenceCount := w.state.divergenceCount + 1 },
        w.named, 0, 0, w.divergences + 1⟩
  | approve : w.state.phase = .held →
    MigrationMove policy w .cutoverApproved
      { w with
        state := { w.state with phase := .cutover, verifiedCycles := 0 }
        named := .magma }
  | regress : w.state.phase = .held →
    MigrationMove policy w (.parity .diverged)
      ⟨{ w.state with
          phase := .shadow
          parityStreak := 0
          divergenceCount := w.state.divergenceCount + 1 },
        w.named, 0, 0, w.divergences + 1⟩
  | verify : w.state.phase = .cutover → policy.verifyCycles ≤ w.state.verifiedCycles + 1 →
    MigrationMove policy w (.magmaCycle .clean)
      { w with
        state := { w.state with
          phase := .verified
          verifiedCycles := w.state.verifiedCycles + 1 } }
  | prove : w.state.phase = .cutover → w.state.verifiedCycles + 1 < policy.verifyCycles →
    MigrationMove policy w (.magmaCycle .clean)
      { w with state := { w.state with verifiedCycles := w.state.verifiedCycles + 1 } }

section Moves

variable {policy : MigrationPolicy} {w : MigrationRun} {event : MigrationEvent}

theorem move_rest (hstep : migrationStep w.state event policy = .identity w.state)
    (hraised : raisedCounter w.state event = none) (hcounts : counts w.state event = false) :
    MigrationMove policy w event (watchMigration policy w event) := by
  have hphase : ¬(w.state.phase = .pinned ∧ w.state.phase = .shadow) := by
    rintro ⟨h, h'⟩
    rw [h] at h'
    cases h'
  have hwatch : watchMigration policy w event =
      { w with
        clean := w.clean + if event = .parity .clean then 1 else 0
        diverged := w.diverged + if event = .parity .diverged then 1 else 0 } := by
    simp [watchMigration, hstep, Transition.identity, lastAuthoritative, hcounts, hphase]
  rw [hwatch]
  refine .rest hraised hcounts (Nat.le_add_right _ _) (fun hparity => ?_)
  rw [if_neg (fun he => ?_), Nat.add_zero]
  rw [counts, he] at hcounts
  rcases hparity with h | h <;> simp [h] at hcounts

theorem shadow_clean_move (h : w.state.phase = .shadow) :
    MigrationMove policy w (.parity .clean) (watchMigration policy w (.parity .clean)) := by
  by_cases hstreak : policy.parityThreshold ≤ w.state.parityStreak + 1
  · cases hauto : policy.mayAutoCutover with
    | true =>
      have hmove := MigrationMove.autoCutover h hstreak hauto
      simpa [watchMigration, migrationStep, shadowClean, h, hstreak, hauto, counts,
        lastAuthoritative] using hmove
    | false =>
      have hmove := MigrationMove.hold h hstreak
      simpa [watchMigration, migrationStep, shadowClean, h, hstreak, hauto, counts,
        lastAuthoritative] using hmove
  · have hmove := MigrationMove.accrue h (UInt32.not_le.mp hstreak)
    simpa [watchMigration, migrationStep, shadowClean, h, hstreak, counts,
      lastAuthoritative] using hmove

theorem shadow_diverged_move (h : w.state.phase = .shadow) :
    MigrationMove policy w (.parity .diverged) (watchMigration policy w (.parity .diverged)) := by
  by_cases hbudget : policy.effectiveDivergenceBudget < w.state.divergenceCount + 1
  · have hmove := MigrationMove.pin h hbudget
    simpa [watchMigration, migrationStep, shadowDiverged, h, hbudget, counts,
      lastAuthoritative] using hmove
  · have hmove := MigrationMove.diverge h (UInt32.not_lt.mp hbudget)
    simpa [watchMigration, migrationStep, shadowDiverged, h, hbudget, counts,
      lastAuthoritative] using hmove

theorem cutover_clean_move (h : w.state.phase = .cutover) :
    MigrationMove policy w (.magmaCycle .clean)
      (watchMigration policy w (.magmaCycle .clean)) := by
  by_cases hverified : policy.verifyCycles ≤ w.state.verifiedCycles + 1
  · have hmove := MigrationMove.verify h hverified
    simpa [watchMigration, migrationStep, cutoverClean, h, hverified, counts,
      lastAuthoritative] using hmove
  · have hmove := MigrationMove.prove h (UInt32.not_le.mp hverified)
    simpa [watchMigration, migrationStep, cutoverClean, h, hverified, counts,
      lastAuthoritative] using hmove

theorem watch_move (policy : MigrationPolicy) (w : MigrationRun) (event : MigrationEvent) :
    MigrationMove policy w event (watchMigration policy w event) := by
  obtain ⟨⟨phase, streak, count, verified, reason⟩, named, clean, diverged, divergences⟩ := w
  cases phase with
  | pinned =>
    cases event with
    | enroll => exact .enroll rfl
    | abort reason => exact .leave rfl rfl rfl (.inl rfl)
    | parity result => cases result <;> exact move_rest rfl rfl rfl
    | magmaCycle result => cases result <;> exact move_rest rfl rfl rfl
    | _ => exact move_rest rfl rfl rfl
  | shadow =>
    cases event with
    | abort reason => exact .leave rfl rfl rfl (.inl rfl)
    | parity result =>
      cases result with
      | clean => exact shadow_clean_move rfl
      | diverged => exact shadow_diverged_move rfl
    | magmaCycle result => cases result <;> exact move_rest rfl rfl rfl
    | _ => exact move_rest rfl rfl rfl
  | held =>
    cases event with
    | abort reason => exact .leave rfl rfl rfl (.inl rfl)
    | parity result =>
      cases result with
      | clean => exact move_rest rfl rfl rfl
      | diverged => exact .regress rfl
    | cutoverApproved => exact .approve rfl
    | magmaCycle result => cases result <;> exact move_rest rfl rfl rfl
    | _ => exact move_rest rfl rfl rfl
  | cutover =>
    cases event with
    | abort reason => exact .leave rfl rfl rfl (.inr rfl)
    | parity result => cases result <;> exact move_rest rfl rfl rfl
    | magmaCycle result =>
      cases result with
      | clean => exact cutover_clean_move rfl
      | anomaly kind => exact .leave rfl rfl rfl (.inr rfl)
    | _ => exact move_rest rfl rfl rfl
  | verified =>
    cases event with
    | abort reason => exact .leave rfl rfl rfl (.inr rfl)
    | parity result => cases result <;> exact move_rest rfl rfl rfl
    | magmaCycle result =>
      cases result with
      | clean => exact move_rest rfl rfl rfl
      | anomaly kind => exact .leave rfl rfl rfl (.inr rfl)
    | _ => exact move_rest rfl rfl rfl
  | rolledBack =>
    cases event with
    | acknowledge => exact .leave rfl rfl rfl (.inl rfl)
    | parity result => cases result <;> exact move_rest rfl rfl rfl
    | magmaCycle result => cases result <;> exact move_rest rfl rfl rfl
    | _ => exact move_rest rfl rfl rfl

end Moves

section Guards

variable (policy : MigrationPolicy)

/-- What every step of a run has to keep. -/
structure GuardsHold (w : MigrationRun) (event : MigrationEvent) (u : MigrationRun) : Prop where
  named : u.named = u.state.phase.authoritative
  cutover : w.state.phase ≠ .cutover → u.state.phase = .cutover →
    max 1 policy.parityThreshold.toNat ≤ u.clean ∧ u.diverged = 0 ∧
      (policy.lifeline = true → event = .cutoverApproved)
  budget : u.state.Parity → u.divergences ≤ policy.effectiveDivergenceBudget.toNat
  lifeline : policy.lifeline = true → counts w.state event = true → u.state.phase = .pinned
  fits : ∀ n, raisedCounter w.state event = some n → n.toNat + 1 < UInt32.size

/-- A divergence in Held finds the budget not used up, and one in Shadow finds its counter below
the largest number. -/
def WithinBudget (w : MigrationRun) (event : MigrationEvent) : Prop :=
  event = .parity .diverged →
    (w.state.phase = .held →
      w.state.divergenceCount.toNat < policy.effectiveDivergenceBudget.toNat) ∧
    (w.state.phase = .shadow → w.state.divergenceCount.toNat + 1 < UInt32.size)

/-- What holds between the steps. -/
structure Guarded (w : MigrationRun) : Prop where
  named : w.named = w.state.phase.authoritative
  parity : w.state.Parity → w.diverged = 0 ∧ w.divergences = w.state.divergenceCount.toNat ∧
    w.state.divergenceCount.toNat ≤ policy.effectiveDivergenceBudget.toNat
  shadow : w.state.phase = .shadow → w.state.parityStreak.toNat ≤ w.clean ∧
    w.state.parityStreak.toNat < max 1 policy.parityThreshold.toNat
  held : w.state.phase = .held → max 1 policy.parityThreshold.toNat ≤ w.clean
  cutover : w.state.phase = .cutover →
    w.state.verifiedCycles.toNat < max 1 policy.verifyCycles.toNat

theorem guarded_start : Guarded policy .start := by
  refine ⟨rfl, ?_, nofun, nofun, nofun⟩
  rintro (h | h) <;> cases h

end Guards

theorem toNat_succ {n : UInt32} (h : n.toNat + 1 < UInt32.size) :
    (n + 1).toNat = n.toNat + 1 := by
  rw [UInt32.toNat_add]
  exact Nat.mod_eq_of_lt h

theorem toNat_lt_size (n : UInt32) : n.toNat < UInt32.size := n.toNat_lt

section Kept

variable {policy : MigrationPolicy} {w u : MigrationRun} {event : MigrationEvent}

/-- A streak in Shadow is below the threshold, and so is the next one below overflow. -/
theorem streak_fits (h : Guarded policy w) (hphase : w.state.phase = .shadow) :
    w.state.parityStreak.toNat + 1 < UInt32.size := by
  have hlt := (h.shadow hphase).2
  have hsize := toNat_lt_size policy.parityThreshold
  have hone : 1 < UInt32.size := by decide
  omega

theorem verified_fits (h : Guarded policy w) (hphase : w.state.phase = .cutover) :
    w.state.verifiedCycles.toNat + 1 < UInt32.size := by
  have hlt := h.cutover hphase
  have hsize := toNat_lt_size policy.verifyCycles
  have hone : 1 < UInt32.size := by decide
  omega

/-- Enough clean results once the streak reaches the threshold. -/
theorem clean_reached (h : Guarded policy w) (hphase : w.state.phase = .shadow)
    (hge : policy.parityThreshold ≤ w.state.parityStreak + 1) :
    max 1 policy.parityThreshold.toNat ≤ w.clean + 1 := by
  rw [UInt32.le_iff_toNat_le, toNat_succ (streak_fits h hphase)] at hge
  have hle := (h.shadow hphase).1
  omega

/-- One more divergence within the budget. -/
theorem budget_raised (h : Guarded policy w) (hp : w.state.Parity)
    (hfits : w.state.divergenceCount.toNat + 1 < UInt32.size)
    (hle : w.state.divergenceCount.toNat + 1 ≤ policy.effectiveDivergenceBudget.toNat) :
    w.divergences + 1 = (w.state.divergenceCount + 1).toNat ∧
      (w.state.divergenceCount + 1).toNat ≤ policy.effectiveDivergenceBudget.toNat := by
  rw [toNat_succ hfits, (h.parity hp).2.1]
  exact ⟨rfl, hle⟩

theorem threshold_pos (n : Nat) : 0 < max 1 n := by
  omega

theorem guarded_move (hmove : MigrationMove policy w event u)
    (hb : WithinBudget policy w event) (h : Guarded policy w) : Guarded policy u := by
  cases hmove with
  | rest _ _ hclean hdiverged =>
    refine ⟨h.named, fun hp => ?_, fun hs => ?_, fun hh => ?_, h.cutover⟩
    · obtain ⟨hzero, hrest⟩ := h.parity hp
      exact ⟨(hdiverged hp).trans hzero, hrest⟩
    · exact ⟨(h.shadow hs).1.trans hclean, (h.shadow hs).2⟩
    · exact (h.held hh).trans hclean
  | leave _ _ hnamed hphase =>
    refine ⟨?_, fun hp => ?_, fun hs => ?_, fun hh => ?_, fun hc => ?_⟩
    · rcases hphase with hp | hp <;> rw [hnamed, hp] <;> rfl
    · rcases hphase with hq | hq <;> rcases hp with hp | hp <;> rw [hq] at hp <;> cases hp
    · rcases hphase with hq | hq <;> rw [hq] at hs <;> cases hs
    · rcases hphase with hq | hq <;> rw [hq] at hh <;> cases hh
    · rcases hphase with hq | hq <;> rw [hq] at hc <;> cases hc
  | enroll hphase =>
    exact ⟨rfl, fun _ => ⟨rfl, rfl, Nat.zero_le _⟩, fun _ => ⟨le_rfl, threshold_pos _⟩, nofun,
      nofun⟩
  | accrue hphase hlt =>
    rw [UInt32.lt_iff_toNat_lt, toNat_succ (streak_fits h hphase)] at hlt
    refine ⟨h.named, h.parity, fun _ => ?_, fun hh => ?_, fun hc => ?_⟩
    · change (w.state.parityStreak + 1).toNat ≤ w.clean + 1 ∧ (w.state.parityStreak + 1).toNat < _
      rw [toNat_succ (streak_fits h hphase)]
      exact ⟨Nat.succ_le_succ (h.shadow hphase).1, by omega⟩
    · rw [show w.state.phase = .held from hh] at hphase
      cases hphase
    · rw [show w.state.phase = .cutover from hc] at hphase
      cases hphase
  | autoCutover hphase hge hauto =>
    refine ⟨rfl, ?_, nofun, nofun, fun _ => threshold_pos _⟩
    rintro (hp | hp) <;> cases hp
  | hold hphase hge =>
    refine ⟨?_, fun _ => h.parity (.inl hphase), nofun, fun _ => clean_reached h hphase hge, nofun⟩
    rw [h.named, hphase]
    rfl
  | pin hphase hover =>
    refine ⟨rfl, ?_, nofun, nofun, nofun⟩
    rintro (hp | hp) <;> cases hp
  | diverge hphase hle =>
    have hfits := (hb rfl).2 hphase
    rw [UInt32.le_iff_toNat_le, toNat_succ hfits] at hle
    refine ⟨h.named, fun _ => ⟨rfl, budget_raised h (.inl hphase) hfits hle⟩,
      fun _ => ⟨Nat.zero_le _, threshold_pos _⟩, fun hh => ?_, fun hc => ?_⟩
    · rw [show w.state.phase = .held from hh] at hphase
      cases hphase
    · rw [show w.state.phase = .cutover from hc] at hphase
      cases hphase
  | approve hphase =>
    refine ⟨rfl, ?_, nofun, nofun, fun _ => threshold_pos _⟩
    rintro (hp | hp) <;> cases hp
  | regress hphase =>
    have hlt := (hb rfl).1 hphase
    have hsize := toNat_lt_size policy.effectiveDivergenceBudget
    have hfits : w.state.divergenceCount.toNat + 1 < UInt32.size := by omega
    refine ⟨?_, fun _ => ⟨rfl, budget_raised h (.inr hphase) hfits hlt⟩,
      fun _ => ⟨Nat.zero_le _, threshold_pos _⟩, nofun, nofun⟩
    rw [h.named, hphase]
    rfl
  | verify hphase hge =>
    refine ⟨?_, ?_, nofun, nofun, nofun⟩
    · rw [h.named, hphase]
      rfl
    · rintro (hp | hp) <;> cases hp
  | prove hphase hlt =>
    rw [UInt32.lt_iff_toNat_lt, toNat_succ (verified_fits h hphase)] at hlt
    refine ⟨h.named, h.parity, h.shadow, h.held, fun _ => ?_⟩
    change (w.state.verifiedCycles + 1).toNat < _
    rw [toNat_succ (verified_fits h hphase)]
    omega

theorem counts_spec (h : counts w.state event = true) :
    event = .parity .diverged ∧ w.state.Parity := by
  simpa [counts, MigrationState.Parity] using h

theorem budget_of_lifeline (h : policy.lifeline = true) :
    policy.effectiveDivergenceBudget.toNat = 0 := by
  rw [MigrationPolicy.effectiveDivergenceBudget, if_pos h]
  rfl

/-- No counter is raised past its end. -/
theorem counters_fit (hb : WithinBudget policy w event) (h : Guarded policy w) :
    ∀ n, raisedCounter w.state event = some n → n.toNat + 1 < UInt32.size := by
  intro n hn
  unfold raisedCounter at hn
  split at hn
  · next hphase =>
    cases hn
    exact streak_fits h hphase
  · next hphase =>
    cases hn
    exact (hb rfl).2 hphase
  · next hphase =>
    cases hn
    have hlt := (hb rfl).1 hphase
    have hsize := toNat_lt_size policy.effectiveDivergenceBudget
    omega
  · next hphase =>
    cases hn
    exact verified_fits h hphase
  · cases hn

/-- Cutover is entered after enough clean results, by an approval where the workspace is a
lifeline. -/
theorem cutover_entered (hmove : MigrationMove policy w event u) (h : Guarded policy w)
    (hbefore : w.state.phase ≠ .cutover) (hafter : u.state.phase = .cutover) :
    max 1 policy.parityThreshold.toNat ≤ u.clean ∧ u.diverged = 0 ∧
      (policy.lifeline = true → event = .cutoverApproved) := by
  cases hmove with
  | rest => exact absurd hafter hbefore
  | leave _ _ _ hphase => rcases hphase with hp | hp <;> rw [hp] at hafter <;> cases hafter
  | enroll _ => cases hafter
  | accrue _ _ => exact absurd hafter hbefore
  | autoCutover hphase hge hauto =>
    refine ⟨clean_reached h hphase hge, (h.parity (.inl hphase)).1, fun hlifeline => ?_⟩
    simp [MigrationPolicy.mayAutoCutover, hlifeline] at hauto
  | hold _ _ => cases hafter
  | pin _ _ => cases hafter
  | diverge _ _ => exact absurd hafter hbefore
  | approve hphase => exact ⟨h.held hphase, (h.parity (.inr hphase)).1, fun _ => rfl⟩
  | regress _ => cases hafter
  | verify _ _ => cases hafter
  | prove hphase _ => exact absurd hphase hbefore

/-- A lifeline that diverges is pinned. -/
theorem lifeline_pinned (hmove : MigrationMove policy w event u)
    (hb : WithinBudget policy w event) (hlifeline : policy.lifeline = true)
    (hcounts : counts w.state event = true) : u.state.phase = .pinned := by
  have hzero := budget_of_lifeline hlifeline
  cases hmove with
  | rest _ hnot _ _ => rw [hnot] at hcounts; cases hcounts
  | leave _ hnot _ _ => rw [hnot] at hcounts; cases hcounts
  | pin _ _ => rfl
  | diverge hphase hle =>
    rw [UInt32.le_iff_toNat_le, toNat_succ ((hb rfl).2 hphase), hzero] at hle
    omega
  | regress hphase =>
    have hlt := (hb rfl).1 hphase
    omega
  | _ => cases (counts_spec hcounts).1

theorem guards_of_within (hmove : MigrationMove policy w event u)
    (hb : WithinBudget policy w event) (h : Guarded policy w) : GuardsHold policy w event u := by
  have hkept := guarded_move hmove hb h
  refine ⟨hkept.named, cutover_entered hmove h, fun hp => ?_, lifeline_pinned hmove hb,
    counters_fit hb h⟩
  rw [(hkept.parity hp).2.1]
  exact (hkept.parity hp).2.2

theorem within_of_guards (hmove : MigrationMove policy w event u) (h : Guarded policy w)
    (hguards : GuardsHold policy w event u) : WithinBudget policy w event := by
  rintro rfl
  constructor
  · intro hphase
    cases hmove with
    | rest _ hnot _ _ => simp [counts, hphase] at hnot
    | leave _ hnot _ _ => simp [counts, hphase] at hnot
    | pin hshadow _ => rw [hphase] at hshadow; cases hshadow
    | diverge hshadow _ => rw [hphase] at hshadow; cases hshadow
    | regress _ =>
      have hle : w.divergences + 1 ≤ policy.effectiveDivergenceBudget.toNat :=
        hguards.budget (.inl rfl)
      rw [(h.parity (.inr hphase)).2.1] at hle
      exact hle
  · intro hphase
    exact hguards.fits w.state.divergenceCount (by simp [raisedCounter, hphase])

end Kept

/-- The guards hold at every step of a run from the pinned state exactly when every divergence of
the run is within the budget. -/
theorem migration_guards_hold_iff (policy : MigrationPolicy) (events : List MigrationEvent) :
    Along (watchMigration policy) .start events
        (fun w event => GuardsHold policy w event (watchMigration policy w event)) ↔
      Along (watchMigration policy) .start events (WithinBudget policy) := by
  refine along_iff_of_kept (fun w event hb h => ?_) (fun w event h => ?_) (guarded_start policy)
    events
  · exact guarded_move (watch_move policy w event) hb h
  · exact ⟨within_of_guards (watch_move policy w event) h,
      fun hb => guards_of_within (watch_move policy w event) hb h⟩

/-- A lifeline that needs one clean parity check. -/
def shortLifeline : MigrationPolicy := { MigrationPolicy.lifelinePreset with parityThreshold := 1 }

/-- It diverges while held, and shadows on. -/
theorem held_lifeline_shadows_on :
    ¬Along (watchMigration shortLifeline) .start
      [.enroll, .parity .clean, .parity .diverged]
      (fun w event => GuardsHold shortLifeline w event (watchMigration shortLifeline w event)) := by
  intro h
  have hlast := h [.enroll, .parity .clean] (.parity .diverged) [] rfl
  exact absurd (hlast.lifeline rfl (by decide)) (by decide)

end PangeaOperator
