import PangeaOperator.PassRegistry
import PangeaOperator.Pass

/-!
# The watchdog's sweeps

`watch_one` and `redispatch` of `controller/template/pass_driver.rs`. A sweep that sees a stalled
template asks for a new reconcile, at most five times for one stall and ever less often, and then
reports the stall at each sweep.
-/

namespace PangeaOperator

def maxNudges : Nat := 5

def nudgeBackoff (attempts : Nat) : Time := seconds (min (60 * 2 ^ min attempts 5) 1800)

def nudgeDue (attempts : Nat) (last : Option Time) (now : Time) : Bool :=
  decide (attempts < maxNudges) && last.all (fun l => decide (now - l ≥ nudgeBackoff attempts))

/-- What a sweep finds of one template and how its writes fare. -/
structure Sighting where
  ns : String
  name : String
  /-- It is being deleted or suspended, or has no status yet. -/
  idle : Bool
  status : Status
  live : Int
  now : Time
  writeFails : Bool
  dispatchFails : Bool

def Sighting.key (o : Sighting) : String := passKey o.ns o.name

def PassPhase.stall : PassPhase → Option (StallState × String)
  | .stalled _ _ state reason => some (state, reason)
  | _ => none

/-- The attempts for the stall a template is in, with the time of the last one. -/
abbrev Nudges := String → Option (Nat × Time)

structure Watchdog where
  nudges : Nudges
  passes : PassRegistry

inductive WatchdogEffect where
  | redispatched (at_ : Time) (preempted : Bool)
  | escalated (message : String)
  deriving DecidableEq, Repr

namespace Watchdog

def start : Watchdog := ⟨fun _ => none, .new⟩

def note (w : Watchdog) (key : String) (n : Option (Nat × Time)) : Watchdog :=
  { w with nudges := fun k => if k = key then n else w.nudges k }

end Watchdog

def escalationText (reason : String) : String :=
  s!"{reason}. {maxNudges} re-dispatches did not move it; a human or the reactive policy must act."

section Sweeps

variable (d : Deadlines) (incarnation : String) (preempts : Bool)

def Sighting.stall (o : Sighting) : Option (StallState × String) :=
  (projectStatus o.status o.live o.now d incarnation).pass.stall

/-- The re-dispatch counts when its request is written; a preemption stands either way. -/
def redispatch (w : Watchdog) (o : Sighting) (attempts : Nat) (kind : StallState) :
    Watchdog × Option WatchdogEffect :=
  let preemption :=
    if preempts then w.passes.preempt o.key kind o.now d.heartbeat else (false, w.passes)
  if o.dispatchFails then ({ w with passes := preemption.2 }, none)
  else ({ w.note o.key (some (attempts + 1, o.now)) with passes := preemption.2 },
    some (.redispatched o.now preemption.1))

def watchOne (w : Watchdog) (o : Sighting) : Watchdog × Option WatchdogEffect :=
  if o.idle then (w, none)
  else
    match o.stall d incarnation with
    | none => (w.note o.key none, none)
    | some (kind, reason) =>
      if o.writeFails then (w, none)
      else if kind.redispatches then
        let attempts := ((w.nudges o.key).map Prod.fst).getD 0
        if nudgeDue attempts ((w.nudges o.key).map Prod.snd) o.now then
          redispatch d preempts w o attempts kind
        else if attempts = maxNudges then
          (w.note o.key (some (attempts, o.now + seconds (3650 * 86400))),
            some (.escalated (escalationText reason)))
        else (w, none)
      else (w, none)

/-- Passes come and go between the sweeps. -/
inductive WatchEvent where
  | pass (e : RegistryEvent)
  | sighted (o : Sighting)

def watchStep (w : Watchdog) : WatchEvent → Watchdog
  | .pass e => { w with passes := registryStep w.passes e }
  | .sighted o => (watchOne d incarnation preempts w o).1

/-- When a re-dispatch of this template was written. -/
def landed (key : String) (w : Watchdog) : WatchEvent → Option Time
  | .pass _ => none
  | .sighted o =>
    if o.key = key then
      match (watchOne d incarnation preempts w o).2 with
      | some (.redispatched at_ _) => some at_
      | _ => none
    else none

def landedTimes (key : String) : Watchdog → List WatchEvent → List Time
  | _, [] => []
  | w, e :: es =>
    (landed d incarnation preempts key w e).toList ++
      landedTimes key (watchStep d incarnation preempts w e) es

/-- Every sweep that looks at the template finds it stalled. -/
def StalledThroughout (key : String) (es : List WatchEvent) : Prop :=
  ∀ o, .sighted o ∈ es → o.key = key → o.idle = false → (o.stall d incarnation).isSome

end Sweeps

/-- The re-dispatches that follow so many attempts, the last at that time. -/
def Paced : Nat → Option Time → List Time → Prop
  | attempts, _, [] => attempts ≤ maxNudges
  | attempts, last, t :: ts =>
    attempts < maxNudges ∧ (∀ l, last = some l → nudgeBackoff attempts ≤ t - l) ∧
      Paced (attempts + 1) (some t) ts

/-! ## What one sweep does -/

section Sweep

variable (d : Deadlines) (incarnation : String) (preempts : Bool) {w : Watchdog} {o : Sighting}

@[simp] theorem Watchdog.nudges_note (w : Watchdog) (key : String) (n : Option (Nat × Time))
    (k : String) : (w.note key n).nudges k = if k = key then n else w.nudges k := rfl

def Watchdog.attempts (w : Watchdog) (key : String) : Nat := ((w.nudges key).map Prod.fst).getD 0
def Watchdog.last (w : Watchdog) (key : String) : Option Time := (w.nudges key).map Prod.snd

theorem redispatch_cases (w : Watchdog) (o : Sighting) (attempts : Nat) (kind : StallState) :
    ((redispatch d preempts w o attempts kind).1.nudges = w.nudges ∧
        (redispatch d preempts w o attempts kind).2 = none) ∨
      ((redispatch d preempts w o attempts kind).1.nudges =
          (w.note o.key (some (attempts + 1, o.now))).nudges ∧
        ∃ preempted, (redispatch d preempts w o attempts kind).2 =
          some (.redispatched o.now preempted)) := by
  unfold redispatch
  cases o.dispatchFails with
  | true => exact .inl ⟨rfl, rfl⟩
  | false => exact .inr ⟨rfl, _, rfl⟩

/-- A sweep concerns the template it looks at. -/
theorem watchOne_other {key : String} (hkey : key ≠ o.key) :
    (watchOne d incarnation preempts w o).1.nudges key = w.nudges key := by
  unfold watchOne
  split
  · rfl
  split
  · simp [hkey]
  split
  · rfl
  split
  · dsimp only
    split
    · rcases redispatch_cases d preempts w o _ _ with ⟨hn, -⟩ | ⟨hn, -⟩ <;>
        rw [hn]
      simp [hkey]
    · split
      · simp [hkey]
      · rfl
  · rfl

/-- A sweep of a stalled template leaves the attempts, writes one more that was due, or escalates
after the last one. -/
theorem watchOne_stalled (hstall : o.idle = false → (o.stall d incarnation).isSome) :
    ((watchOne d incarnation preempts w o).1.nudges = w.nudges ∧
        (watchOne d incarnation preempts w o).2 = none) ∨
      (nudgeDue (w.attempts o.key) (w.last o.key) o.now = true ∧
        (watchOne d incarnation preempts w o).1.nudges =
          (w.note o.key (some (w.attempts o.key + 1, o.now))).nudges ∧
        ∃ preempted, (watchOne d incarnation preempts w o).2 =
          some (.redispatched o.now preempted)) ∨
      (w.attempts o.key = maxNudges ∧
        (watchOne d incarnation preempts w o).1.nudges =
          (w.note o.key (some (maxNudges, o.now + seconds (3650 * 86400)))).nudges ∧
        ∃ message, (watchOne d incarnation preempts w o).2 = some (.escalated message)) := by
  unfold watchOne
  split
  · exact .inl ⟨rfl, rfl⟩
  · next hidle =>
    obtain ⟨⟨kind, reason⟩, hkind⟩ :=
      Option.isSome_iff_exists.mp (hstall (Bool.eq_false_of_not_eq_true hidle))
    simp only [hkind]
    split
    · exact .inl ⟨rfl, rfl⟩
    split
    · split
      · next hdue =>
        rcases redispatch_cases d preempts w o
          (((w.nudges o.key).map Prod.fst).getD 0) kind with h | h
        · exact .inl h
        · exact .inr (.inl ⟨hdue, h⟩)
      · split
        · next hmax => exact .inr (.inr ⟨hmax, by rw [hmax], _, rfl⟩)
        · exact .inl ⟨rfl, rfl⟩
    · exact .inl ⟨rfl, rfl⟩

end Sweep

/-! ## What a stall gets -/

section Stalls

variable (d : Deadlines) (incarnation : String) (preempts : Bool) {key : String}

theorem Watchdog.attempts_eq {w w' : Watchdog} (h : w'.nudges key = w.nudges key) :
    w'.attempts key = w.attempts key ∧ w'.last key = w.last key := by
  simp only [Watchdog.attempts, Watchdog.last, h, and_self]

theorem nudgeDue_iff {attempts : Nat} {last : Option Time} {now : Time} :
    nudgeDue attempts last now = true ↔
      attempts < maxNudges ∧ ∀ l, last = some l → nudgeBackoff attempts ≤ now - l := by
  cases last <;> simp [nudgeDue]

theorem Paced.eq_nil {last : Option Time} {ts : List Time} (h : Paced maxNudges last ts) :
    ts = [] := by
  cases ts with
  | nil => rfl
  | cons t ts => exact absurd h.1 (lt_irrefl _)

/-- While it is stalled, a template's re-dispatches follow the attempts that were made before. -/
theorem paced_landedTimes {es : List WatchEvent} (hes : StalledThroughout d incarnation key es)
    {w : Watchdog} (hw : w.attempts key ≤ maxNudges) :
    Paced (w.attempts key) (w.last key) (landedTimes d incarnation preempts key w es) := by
  induction es generalizing w with
  | nil => exact hw
  | cons e es ih =>
    have hrest : StalledThroughout d incarnation key es := fun o ho =>
      hes o (List.mem_cons_of_mem e ho)
    have hsame : ∀ w' : Watchdog, w'.nudges key = w.nudges key →
        Paced (w.attempts key) (w.last key) (landedTimes d incarnation preempts key w' es) := by
      intro w' h
      obtain ⟨ha, hl⟩ := Watchdog.attempts_eq h
      exact ha ▸ hl ▸ ih hrest (ha ▸ hw)
    rw [landedTimes]
    cases e with
    | pass e => exact hsame _ rfl
    | sighted o =>
      by_cases hkey : o.key = key
      · subst hkey
        have hstall := hes o List.mem_cons_self rfl
        simp only [landed, if_true, watchStep]
        rcases watchOne_stalled d incarnation preempts (w := w) hstall with
          ⟨hn, heff⟩ | ⟨hdue, hn, preempted, heff⟩ | ⟨hmax, hn, message, heff⟩ <;> rw [heff]
        · exact hsame _ (by rw [hn])
        · obtain ⟨hlt, hback⟩ := nudgeDue_iff.mp hdue
          have ha : (watchOne d incarnation preempts w o).1.attempts o.key =
              w.attempts o.key + 1 ∧
              (watchOne d incarnation preempts w o).1.last o.key = some o.now := by
            simp [Watchdog.attempts, Watchdog.last, hn]
          refine ⟨hlt, hback, ?_⟩
          have hpaced := ih hrest (w := (watchOne d incarnation preempts w o).1)
            (by rw [ha.1]; exact hlt)
          rwa [ha.1, ha.2] at hpaced
        · have ha : (watchOne d incarnation preempts w o).1.attempts o.key = maxNudges := by
            simp [Watchdog.attempts, hn]
          have hpaced := ih hrest (w := (watchOne d incarnation preempts w o).1) ha.le
          rw [ha] at hpaced
          rw [Option.toList_none, List.nil_append, hpaced.eq_nil, hmax]
          exact le_rfl
      · simp only [landed, hkey, if_false]
        exact hsame _ (watchOne_other d incarnation preempts (Ne.symm hkey))

theorem Paced.length_le {attempts : Nat} {last : Option Time} {ts : List Time}
    (h : Paced attempts last ts) : attempts + ts.length ≤ maxNudges := by
  induction ts generalizing attempts last with
  | nil => exact h
  | cons t ts ih =>
    have hrest := ih h.2.2
    rw [List.length_cons]
    omega

theorem Paced.gap {attempts : Nat} {last : Option Time} {ts : List Time}
    (h : Paced attempts last ts) {k : Nat} (hk : k + 1 < ts.length) :
    nudgeBackoff (attempts + k + 1) ≤ ts[k + 1] - ts[k] := by
  induction ts generalizing attempts last k with
  | nil => simp at hk
  | cons t ts ih =>
    cases k with
    | zero =>
      cases ts with
      | nil => simp at hk
      | cons u ts => exact h.2.2.2.1 t rfl
    | succ k =>
      have hrest := ih h.2.2 (k := k) (Nat.lt_of_succ_lt_succ hk)
      rwa [show attempts + 1 + k + 1 = attempts + (k + 1) + 1 by omega] at hrest

theorem le_nudgeBackoff {attempts k : Nat} (h : k ≤ attempts) (hmax : attempts < maxNudges) :
    seconds (60 * 2 ^ k) ≤ nudgeBackoff attempts := by
  unfold maxNudges at hmax
  unfold nudgeBackoff seconds
  interval_cases attempts <;> interval_cases k <;> decide

/-- The waits add up: the later of two re-dispatches has waited for all between them. -/
theorem Paced.span {attempts : Nat} {last : Option Time} {ts : List Time}
    (h : Paced attempts last ts) {i j : Nat} (hij : i ≤ j) (hj : j < ts.length) :
    seconds (60 * (2 ^ (j + 1) - 2 ^ (i + 1))) ≤ ts[j] - ts[i] := by
  induction j, hij using Nat.le_induction with
  | base => simp [seconds]
  | succ j hij ih =>
    have hlen := h.length_le
    have hgap := h.gap hj
    have hwait : seconds (60 * 2 ^ (j + 1)) ≤ nudgeBackoff (attempts + j + 1) :=
      le_nudgeBackoff (by omega) (by omega)
    have hbefore := ih (by omega)
    have hpow : (2 : Int) ^ (j + 1 + 1) = 2 * 2 ^ (j + 1) := by ring
    unfold seconds at hwait hbefore ⊢
    rw [hpow]
    linarith

def Watchdog.WithinNudges (key : String) (w : Watchdog) : Prop := w.attempts key ≤ maxNudges

theorem withinNudges_watchStep {w : Watchdog} (hw : w.WithinNudges key) (e : WatchEvent) :
    (watchStep d incarnation preempts w e).WithinNudges key := by
  unfold Watchdog.WithinNudges at hw ⊢
  cases e with
  | pass e => exact hw
  | sighted o =>
    by_cases hkey : o.key = key
    · subst hkey
      by_cases hstall : o.idle = false → (o.stall d incarnation).isSome
      · rcases watchOne_stalled d incarnation preempts (w := w) hstall with
          ⟨hn, -⟩ | ⟨hdue, hn, -⟩ | ⟨-, hn, -⟩ <;>
          simp only [watchStep, Watchdog.attempts, hn]
        · exact hw
        · rw [Watchdog.nudges_note, if_pos rfl]
          exact (nudgeDue_iff.mp hdue).1
        · simp
      · obtain ⟨hidle, hnone⟩ : o.idle = false ∧ o.stall d incarnation = none := by
          simpa using hstall
        simp [watchStep, watchOne, hidle, hnone, Watchdog.attempts]
    · rw [watchStep, Watchdog.attempts, watchOne_other d incarnation preempts (Ne.symm hkey)]
      exact hw

theorem withinNudges_run {w : Watchdog} (hw : w.WithinNudges key) (es : List WatchEvent) :
    (run (watchStep d incarnation preempts) w es).WithinNudges key := by
  have hstep : ∀ (w : Watchdog) e, w.WithinNudges key →
      (watchStep d incarnation preempts w e).WithinNudges key :=
    fun _ e h => withinNudges_watchStep d incarnation preempts h e
  exact run_invariant hstep hw es

/-- While a template stays stalled its reconcile is asked for five times at most, and the waits
between double from two minutes on. -/
theorem redispatches_paced (before es : List WatchEvent)
    (hes : StalledThroughout d incarnation key es) :
    let ts := landedTimes d incarnation preempts key
      (run (watchStep d incarnation preempts) .start before) es
    ts.length ≤ maxNudges ∧ ∀ i j (hij : i ≤ j) (hj : j < ts.length),
      seconds (60 * (2 ^ (j + 1) - 2 ^ (i + 1))) ≤ ts[j] - ts[i] := by
  have hbefore : (run (watchStep d incarnation preempts) .start before).WithinNudges key :=
    withinNudges_run d incarnation preempts (Nat.zero_le _) before
  have hpaced := paced_landedTimes d incarnation preempts hes hbefore
  exact ⟨by have := hpaced.length_le; omega, fun i j hij hj => hpaced.span hij hj⟩

end Stalls

/-- A template that was pending at the epoch, seen at that many seconds. -/
def pendingSince (at_ : Int) : Sighting where
  ns := "ns"
  name := "t"
  idle := false
  status := { pass := some ⟨.pending, 1, some 0, none, none, none, none, none, none⟩ }
  live := 1
  now := seconds at_
  writeFails := false
  dispatchFails := false

/-- The second sweep comes too early after the first. -/
example : landedTimes {} "op" true "ns/t" .start
    ([2000, 2060, 2120].map (fun t => .sighted (pendingSince t))) =
      [seconds 2000, seconds 2120] := by
  rfl

theorem redispatches_paced_pending :
    let ts := landedTimes {} "op" true "ns/t" .start
      ([2000, 2060, 2120].map (fun t => .sighted (pendingSince t)))
    ts.length ≤ maxNudges ∧ ∀ i j (hij : i ≤ j) (hj : j < ts.length),
      seconds (60 * (2 ^ (j + 1) - 2 ^ (i + 1))) ≤ ts[j] - ts[i] := by
  refine redispatches_paced {} "op" true [] _ ?_
  rintro o ho - -
  simp only [List.map_cons, List.map_nil, List.mem_cons, WatchEvent.sighted.injEq,
    List.not_mem_nil, or_false] at ho
  rcases ho with rfl | rfl | rfl <;> rfl

end PangeaOperator
