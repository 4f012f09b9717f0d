import PangeaOperator.Conflict
import PangeaOperator.Protection
import PangeaOperator.Lib.Run

/-!
# Bare applies under destroy protection

The calls of a whole apply section in order: the imports of the pre-pass, the apply, its
retry after a stale plan, and the conflict rounds. A monitor over the calls remembers the
action set taken since state last changed, and whether a gate has refused. Under destroy
protection every bare apply finds such a set without destruction, and nothing is applied or
imported after a refusal.
-/

namespace PangeaOperator

open Json Applying

/-- What the monitor remembers of the calls so far. -/
structure GateState where
  fresh : Option (List DriftDetail) := none
  blocked : Bool := false
  deriving DecidableEq, Repr

def gateStep (g : GateState) : ApplyEvent → GateState
  | .importCall _ _ => { g with fresh := none }
  | .freshActionSet actions => { g with fresh := some actions }
  | .apply _ => { g with fresh := none }
  | .block _ => { g with blocked := true }

/-- No entry deletes or replaces. -/
def DestroysNothing (actions : List DriftDetail) : Prop :=
  ∀ d ∈ actions, Applying.isDestructiveAction d.action = false

/-- A call that the gates allow: no import or apply after a refusal, and a bare apply only on an
action set taken since the last of them, with no destruction in it. -/
def Gated (g : GateState) : ApplyEvent → Prop
  | .importCall _ _ => g.blocked = false
  | .apply .bare => g.blocked = false ∧ ∃ actions, g.fresh = some actions ∧ DestroysNothing actions
  | .apply _ => g.blocked = false
  | .freshActionSet _ => True
  | .block _ => True

/-- From this state of the monitor on, the calls are allowed and no gate has refused. -/
def GatedSoFar (g : GateState) (events : List ApplyEvent) : Prop :=
  Along gateStep g events Gated ∧ (run gateStep g events).blocked = false

section Monitor

variable {g : GateState} {events : List ApplyEvent}

theorem gatedSoFar_nil (h : g.blocked = false) : GatedSoFar g [] := ⟨along_nil _ _ _, h⟩

theorem along_snoc {e : ApplyEvent} (h : Along gateStep g events Gated)
    (he : Gated (run gateStep g events) e) : Along gateStep g (events ++ [e]) Gated := by
  rw [along_append_iff, along_cons_iff]
  exact ⟨h, he, along_nil _ _ _⟩

theorem run_snoc (e : ApplyEvent) :
    run gateStep g (events ++ [e]) = gateStep (run gateStep g events) e := by
  rw [run_append, run_cons, run_nil]

theorem GatedSoFar.importCall (h : GatedSoFar g events) (address id : String) :
    GatedSoFar g (events ++ [.importCall address id]) := by
  refine ⟨along_snoc h.1 h.2, ?_⟩
  rw [run_snoc]
  exact h.2

theorem GatedSoFar.freshActionSet (h : GatedSoFar g events) (actions : List DriftDetail) :
    GatedSoFar g (events ++ [.freshActionSet actions]) := by
  refine ⟨along_snoc h.1 trivial, ?_⟩
  rw [run_snoc]
  exact h.2

theorem GatedSoFar.block (h : GatedSoFar g events) (message : String) :
    Along gateStep g (events ++ [.block message]) Gated := along_snoc h.1 trivial

/-- A bare apply right behind an action set that destroys nothing. -/
theorem GatedSoFar.bareApply (h : GatedSoFar g events) {actions : List DriftDetail}
    (hd : DestroysNothing actions) :
    GatedSoFar g (events ++ [.freshActionSet actions] ++ [.apply .bare]) := by
  have hset := h.freshActionSet actions
  refine ⟨along_snoc hset.1 ⟨hset.2, actions, ?_, hd⟩, ?_⟩
  · rw [run_snoc]
    rfl
  · rw [run_snoc]
    exact hset.2

/-- An apply of a plan file asks for no fresh action set. -/
theorem GatedSoFar.fileApply (h : GatedSoFar g events) {call : ApplyCall} (hc : call ≠ .bare) :
    GatedSoFar g (events ++ [.apply call]) := by
  refine ⟨along_snoc h.1 ?_, ?_⟩
  · cases call with
    | bare => exact absurd rfl hc
    | cachedPlan => exact h.2
    | recheckedPlan => exact h.2
  · rw [run_snoc]
    exact h.2

/-- Two stretches of calls, the second from where the first left the monitor. -/
theorem GatedSoFar.append (h : GatedSoFar g events) {later : List ApplyEvent}
    (hlater : Along gateStep (run gateStep g events) later Gated) :
    Along gateStep g (events ++ later) Gated := (along_append_iff _ _ _ _ _).mpr ⟨h.1, hlater⟩

end Monitor

theorem gate_proceed_iff (actions : List DriftDetail) :
    evaluateDestroyProtectionGate true actions = .proceed ↔ DestroysNothing actions := by
  have hfind : actions.find? (fun d => Applying.isDestructiveAction d.action) = none ↔
      DestroysNothing actions := by
    simp [List.find?_eq_none, DestroysNothing]
  rw [← hfind]
  unfold evaluateDestroyProtectionGate
  cases actions.find? (fun d => Applying.isDestructiveAction d.action) <;> simp

section Rounds

variable (valueText : Doc → String) (parseValue : String → Option Doc)
  (fromJson : String → Option Plan) (c : ConflictInput) {g : GateState}

section Imports

variable (keeps : List ApplyEvent → Prop)
  (hcall : ∀ events address id, keeps events → keeps (events ++ [.importCall address id]))

include hcall

theorem adoptConflict_keeps {attrs : List (String × Doc)} {imports : Nat → Option ImportReply}
    {acc : ConflictState × Nat} (h : keeps acc.1.events) (want : (String × ConflictKind) × Nat) :
    keeps (adoptConflict valueText c attrs imports acc want).1.events := by
  unfold adoptConflict
  dsimp only
  split
  · exact h
  · next id _ =>
    have himport := hcall _ want.1.1 id h
    split
    · exact himport
    · exact himport

/-- The imports of a round keep whatever an import call keeps. -/
theorem adoptConflicts_keeps (round : Nat) {st : ConflictState} (h : keeps st.events) :
    keeps (adoptConflicts valueText parseValue c round st).1.events := by
  unfold adoptConflicts
  generalize (wantedConflicts c st).zipIdx = wants
  have hacc : keeps ({ st with roundsRun := round + 1 }, 0).1.events := h
  revert hacc
  generalize (({ st with roundsRun := round + 1 }, 0) : ConflictState × Nat) = acc
  induction wants generalizing acc with
  | nil => exact id
  | cons want wants ih =>
    intro hacc
    exact ih _ (adoptConflict_keeps valueText c keeps hcall hacc want)

end Imports

/-- A round's apply is gated, and no gate has refused where another round may follow. -/
theorem reapply_gated (a : RoundAnswers) {st : ConflictState} (h : GatedSoFar g st.events) :
    Along gateStep g (reapply fromJson true a st).1.events Gated ∧
      ((reapply fromJson true a st).2 = true →
        GatedSoFar g (reapply fromJson true a st).1.events) := by
  unfold reapply
  simp only [if_true]
  cases hg :
      evaluateDestroyProtectionGate true (freshActionSetBeforeBareApply fromJson a.reads) with
  | blockedByProtectedDestruction address action =>
    exact ⟨(h.freshActionSet _).block _, fun hagain => by cases hagain⟩
  | proceed =>
    have happly := h.bareApply ((gate_proceed_iff _).mp hg)
    cases a.applied with
    | none => exact ⟨happly.1, fun _ => happly⟩
    | some r => exact ⟨happly.1, fun _ => happly⟩

theorem conflictRound_gated (round : Nat) {st : ConflictState} (h : GatedSoFar g st.events) :
    Along gateStep g (conflictRound valueText parseValue fromJson true c round st).1.events Gated ∧
      ((conflictRound valueText parseValue fromJson true c round st).2 = true →
        GatedSoFar g (conflictRound valueText parseValue fromJson true c round st).1.events) := by
  unfold conflictRound
  split
  · exact ⟨h.1, fun hagain => by cases hagain⟩
  · have hadopted : GatedSoFar g (adoptConflicts valueText parseValue c round st).1.events :=
      adoptConflicts_keeps valueText parseValue c (GatedSoFar g)
        (fun _ address id h => h.importCall address id) round h
    generalize adoptConflicts valueText parseValue c round st = adopted at hadopted
    dsimp only
    split
    · exact ⟨hadopted.1, fun hagain => by cases hagain⟩
    · exact reapply_gated fromJson _ hadopted

/-- However many rounds are left. -/
theorem conflictRounds_gated (left round : Nat) {st : ConflictState} (h : GatedSoFar g st.events) :
    Along gateStep g (conflictRounds valueText parseValue fromJson true c left round st).events
      Gated := by
  induction left generalizing round st with
  | zero => exact h.1
  | succ left ih =>
    have hround := conflictRound_gated valueText parseValue fromJson c round h
    unfold conflictRounds
    dsimp only
    split
    · next hagain => exact ih (round + 1) (hround.2 hagain)
    · exact hround.1

end Rounds

section Section

variable (valueText : Doc → String) (parseValue : String → Option Doc)
  (fromJson : String → Option Plan) (s : Status) (p : PrepassInput) (i : ApplyingInput)
  (c : ConflictInput)

/-- The imports of the pre-pass. -/
def prepassEvents : List ApplyEvent :=
  if p.importCredentials then
    (prepassTargets valueText parseValue p s.driftDetails).map
      (fun t => .importCall t.address t.id)
  else []

/-- The action set taken before a bare apply; none is without destroy protection. -/
def freshEvents (reads : ActionSetReads) : List ApplyEvent :=
  if i.destroyProtection then
    [.freshActionSet (freshActionSetBeforeBareApply fromJson reads)]
  else []

def conflictEvents (result : ApplyResult) : List ApplyEvent :=
  if result.success then []
  else match resolveConflictsPostApply valueText parseValue fromJson i.destroyProtection c
      result with
    | some (some st) => st.events
    | _ => []

def retryEvents : List ApplyEvent :=
  freshEvents fromJson i i.beforeRetry ++
    match recheckDestroyProtectionBeforeBareApply fromJson i i.beforeRetry with
    | some message => [.block message]
    | none => .apply .bare :: match i.retried with
      | none => []
      | some retried => conflictEvents valueText parseValue fromJson i c retried

/-- What follows the apply. -/
def afterApplyEvents : List ApplyEvent :=
  match i.applied with
  | none => []
  | some result =>
    if !result.success && isSelfHealableApplyError result.stderr then
      retryEvents valueText parseValue fromJson i c
    else conflictEvents valueText parseValue fromJson i c result

def applyWithEvents (call : ApplyCall) : List ApplyEvent :=
  .apply call :: afterApplyEvents valueText parseValue fromJson i c

def applyLockedEvents : List ApplyEvent :=
  match recheckAfterImport fromJson s i with
  | .error => []
  | .refused message => [.block message]
  | .passed replanned => match destroyProtectionRefusal s i with
    | some message => [.block message]
    | none =>
      if i.hasPlanFile then
        applyWithEvents valueText parseValue fromJson i c
          (if replanned then .recheckedPlan else .cachedPlan)
      else freshEvents fromJson i i.beforeApply ++
        match recheckDestroyProtectionBeforeBareApply fromJson i i.beforeApply with
        | some message => [.block message]
        | none => applyWithEvents valueText parseValue fromJson i c .bare

/-- The calls of one `handle_applying`. -/
def applyingEvents : List ApplyEvent :=
  if i.configAvailable && i.lock = some .proceed then
    prepassEvents valueText parseValue s p ++
      applyLockedEvents valueText parseValue fromJson s i c
  else []

/-- The applies among the calls. -/
def applyCalls (events : List ApplyEvent) : List ApplyCall :=
  events.filterMap (fun e => match e with
    | .apply call => some call
    | _ => none)

/-- What the rest of `handle_applying` sees of the conflict rounds. -/
def ConflictState.outcome (st : ConflictState) : ConflictResolutionOutcome :=
  ⟨(applyCalls st.events).length, st.blocked, st.result⟩

/-- The result the conflict rounds are given. -/
def ApplyingInput.lastResult : Option ApplyResult :=
  i.applied.bind (fun result =>
    if !result.success && isSelfHealableApplyError result.stderr then i.retried else some result)

/-- The conflict rounds of an apply section are those of its last result. -/
def AnswersConflicts : Prop :=
  ∀ result, i.lastResult = some result → result.success = false →
    i.conflicts = (resolveConflictsPostApply valueText parseValue fromJson i.destroyProtection c
      result).map (Option.map ConflictState.outcome)

end Section

section Calls

variable (valueText : Doc → String) (parseValue : String → Option Doc)
  (fromJson : String → Option Plan) (s : Status) (p : PrepassInput) (i : ApplyingInput)
  (c : ConflictInput)

theorem applyCalls_append (es fs : List ApplyEvent) :
    applyCalls (es ++ fs) = applyCalls es ++ applyCalls fs := List.filterMap_append

/-- Every apply among the calls is bare. -/
def OnlyBare (events : List ApplyEvent) : Prop := ∀ call ∈ applyCalls events, call = .bare

theorem OnlyBare.snoc {events : List ApplyEvent} (h : OnlyBare events) {e : ApplyEvent}
    (he : OnlyBare [e]) : OnlyBare (events ++ [e]) := by
  intro call hm
  rw [applyCalls_append, List.mem_append] at hm
  rcases hm with hm | hm
  · exact h call hm
  · exact he call hm

theorem OnlyBare.importCall {events : List ApplyEvent} (h : OnlyBare events)
    (address id : String) : OnlyBare (events ++ [.importCall address id]) :=
  h.snoc (by simp [OnlyBare, applyCalls])

theorem reapply_onlyBare (destroyProtection : Bool) (a : RoundAnswers) {st : ConflictState}
    (h : OnlyBare st.events) : OnlyBare (reapply fromJson destroyProtection a st).1.events := by
  have hset : OnlyBare (if destroyProtection then
      { st with events := st.events ++
          [.freshActionSet (freshActionSetBeforeBareApply fromJson a.reads)] }
      else st).events := by
    split
    · exact h.snoc (by simp [OnlyBare, applyCalls])
    · exact h
  unfold reapply
  dsimp only
  split
  · exact hset.snoc (by simp [OnlyBare, applyCalls])
  · have happly := hset.snoc (e := .apply .bare) (by simp [OnlyBare, applyCalls])
    split <;> exact happly

/-- The rounds only apply bare. -/
theorem conflictRounds_onlyBare (destroyProtection : Bool) (left round : Nat) {st : ConflictState}
    (h : OnlyBare st.events) :
    OnlyBare (conflictRounds valueText parseValue fromJson destroyProtection c left round
      st).events := by
  induction left generalizing round st with
  | zero => exact h
  | succ left ih =>
    have hround : OnlyBare (conflictRound valueText parseValue fromJson destroyProtection c round
        st).1.events := by
      unfold conflictRound
      split
      · exact h
      · have hadopted : OnlyBare (adoptConflicts valueText parseValue c round st).1.events :=
          adoptConflicts_keeps valueText parseValue c OnlyBare
            (fun _ address id h => h.importCall address id) round h
        generalize adoptConflicts valueText parseValue c round st = adopted at hadopted
        dsimp only
        split
        · exact hadopted
        · exact reapply_onlyBare fromJson destroyProtection _ hadopted
    unfold conflictRounds
    dsimp only
    split
    · exact ih (round + 1) hround
    · exact hround

theorem resolveConflicts_calls {result : ApplyResult}
    (h : result.success = false → i.conflicts = (resolveConflictsPostApply valueText parseValue
      fromJson i.destroyProtection c result).map (Option.map ConflictState.outcome))
    (applies : List ApplyCall) :
    (resolveConflicts s i applies result).applies =
      applies ++ applyCalls (conflictEvents valueText parseValue fromJson i c result) := by
  unfold resolveConflicts conflictEvents
  cases hs : result.success with
  | true => simp [applyCalls]
  | false =>
    rw [h hs]
    unfold resolveConflictsPostApply
    cases c.isEnabled with
    | false => simp [applyCalls]
    | true =>
      cases c.executor with
      | false => simp [applyCalls]
      | true =>
        have hbare := conflictRounds_onlyBare valueText parseValue fromJson c i.destroyProtection
          c.effectivePolicy.rounds 0
          (show OnlyBare ({ result } : ConflictState).events by simp [OnlyBare, applyCalls])
        have hcalls := List.eq_replicate_of_mem hbare
        simp only [Bool.not_true, Bool.false_eq_true, if_false, Option.map_some,
          ConflictState.outcome]
        rw [← hcalls]
        split <;> simp

theorem applyWith_calls (h : AnswersConflicts valueText parseValue fromJson i c)
    (call : ApplyCall) :
    (applyWith fromJson s i call).applies =
      applyCalls (applyWithEvents valueText parseValue fromJson i c call) := by
  unfold AnswersConflicts ApplyingInput.lastResult at h
  unfold applyWith applyWithEvents afterApplyEvents
  cases ha : i.applied with
  | none => rfl
  | some result =>
    simp only [ha, Option.bind_some] at h
    cases hheal : !result.success && isSelfHealableApplyError result.stderr with
    | false =>
      simp only [hheal, Bool.false_eq_true, if_false] at h ⊢
      rw [resolveConflicts_calls valueText parseValue fromJson s i c (h result rfl)]
      rfl
    | true =>
      simp only [hheal, if_true] at h ⊢
      have hfresh : applyCalls (freshEvents fromJson i i.beforeRetry) = [] := by
        unfold freshEvents
        split <;> rfl
      unfold retryEvents
      cases recheckDestroyProtectionBeforeBareApply fromJson i i.beforeRetry with
      | some message =>
        change [call] = call :: applyCalls (freshEvents fromJson i i.beforeRetry ++ _)
        rw [applyCalls_append, hfresh]
        rfl
      | none =>
        change _ = call :: applyCalls (freshEvents fromJson i i.beforeRetry ++ _)
        rw [applyCalls_append, hfresh]
        cases hr : i.retried with
        | none => rfl
        | some retried =>
          dsimp only
          rw [resolveConflicts_calls valueText parseValue fromJson s i c (h retried hr)]
          rfl

/-- The calls are those of `handle_applying`. -/
theorem applyCalls_applyingEvents (h : AnswersConflicts valueText parseValue fromJson i c) :
    applyCalls (applyingEvents valueText parseValue fromJson s p i c) =
      (handleApplying fromJson s i).applies := by
  have hprepass : applyCalls (prepassEvents valueText parseValue s p) = [] := by
    unfold prepassEvents
    split
    · simp [applyCalls, List.filterMap_map]
    · rfl
  have hlocked : applyCalls (applyLockedEvents valueText parseValue fromJson s i c) =
      (applyLocked fromJson s i).applies := by
    unfold applyLockedEvents applyLocked
    cases recheckAfterImport fromJson s i with
    | error => rfl
    | refused message => rfl
    | passed replanned =>
      cases destroyProtectionRefusal s i with
      | some message => rfl
      | none =>
        cases i.hasPlanFile with
        | true => exact (applyWith_calls valueText parseValue fromJson s i c h _).symm
        | false =>
          have hfresh : applyCalls (freshEvents fromJson i i.beforeApply) = [] := by
            unfold freshEvents
            split <;> rfl
          simp only [Bool.false_eq_true, if_false, applyCalls_append, hfresh, List.nil_append]
          cases recheckDestroyProtectionBeforeBareApply fromJson i i.beforeApply with
          | some message => rfl
          | none => exact (applyWith_calls valueText parseValue fromJson s i c h .bare).symm
  unfold applyingEvents handleApplying
  cases i.configAvailable with
  | false => rfl
  | true =>
    cases i.lock with
    | none => rfl
    | some lock =>
      cases lock with
      | contended => rfl
      | proceed =>
        simp only [Bool.true_and, decide_true, if_true, Bool.not_true, Bool.false_eq_true, if_false,
          applyCalls_append, hprepass, List.nil_append]
        exact hlocked

end Calls

section Protected

variable (valueText : Doc → String) (parseValue : String → Option Doc)
  (fromJson : String → Option Plan) (s : Status) (p : PrepassInput) {i : ApplyingInput}
  (c : ConflictInput) {g : GateState}

theorem freshEvents_of_protected (hp : i.destroyProtection = true) (reads : ActionSetReads) :
    freshEvents fromJson i reads =
      [.freshActionSet (freshActionSetBeforeBareApply fromJson reads)] := by
  rw [freshEvents, if_pos hp]

/-- The gate of a bare apply lets through what destroys nothing. -/
theorem destroysNothing_of_recheck (hp : i.destroyProtection = true) {reads : ActionSetReads}
    (h : recheckDestroyProtectionBeforeBareApply fromJson i reads = none) :
    DestroysNothing (freshActionSetBeforeBareApply fromJson reads) := by
  rw [← gate_proceed_iff]
  unfold recheckDestroyProtectionBeforeBareApply at h
  cases hg : evaluateDestroyProtectionGate true (freshActionSetBeforeBareApply fromJson reads) with
  | proceed => rfl
  | blockedByProtectedDestruction address action => simp [hp, hg] at h

theorem conflictEvents_gated (hp : i.destroyProtection = true) (hg : g.blocked = false)
    (result : ApplyResult) :
    Along gateStep g (conflictEvents valueText parseValue fromJson i c result) Gated := by
  unfold conflictEvents resolveConflictsPostApply
  rw [hp]
  cases result.success with
  | true => exact along_nil _ _ _
  | false =>
    cases c.isEnabled with
    | false => exact along_nil _ _ _
    | true =>
      cases c.executor with
      | false => exact along_nil _ _ _
      | true => exact conflictRounds_gated valueText parseValue fromJson c _ 0 (gatedSoFar_nil hg)

/-- A bare apply behind its recheck, and what follows it. -/
theorem bareApply_gated (hp : i.destroyProtection = true) (hg : g.blocked = false)
    (reads : ActionSetReads) {later : List ApplyEvent}
    (hlater : ∀ g : GateState, g.blocked = false → Along gateStep g later Gated) :
    Along gateStep g (freshEvents fromJson i reads ++
      match recheckDestroyProtectionBeforeBareApply fromJson i reads with
      | some message => [.block message]
      | none => .apply .bare :: later) Gated := by
  rw [freshEvents_of_protected fromJson hp]
  cases hr : recheckDestroyProtectionBeforeBareApply fromJson i reads with
  | some message =>
    have hset := (gatedSoFar_nil hg).freshActionSet (freshActionSetBeforeBareApply fromJson reads)
    exact hset.block message
  | none =>
    have happly := (gatedSoFar_nil hg).bareApply (destroysNothing_of_recheck fromJson hp hr)
    have hall := happly.append (hlater _ happly.2)
    simpa using hall

theorem retryEvents_gated (hp : i.destroyProtection = true) (hg : g.blocked = false) :
    Along gateStep g (retryEvents valueText parseValue fromJson i c) Gated := by
  apply bareApply_gated fromJson hp hg
  intro g hg
  split
  · exact along_nil _ _ _
  · next retried _ => exact conflictEvents_gated valueText parseValue fromJson c hp hg retried

theorem afterApplyEvents_gated (hp : i.destroyProtection = true) (hg : g.blocked = false) :
    Along gateStep g (afterApplyEvents valueText parseValue fromJson i c) Gated := by
  unfold afterApplyEvents
  split
  · exact along_nil _ _ _
  · next result _ =>
    split
    · exact retryEvents_gated valueText parseValue fromJson c hp hg
    · exact conflictEvents_gated valueText parseValue fromJson c hp hg result

theorem applyLockedEvents_gated (hp : i.destroyProtection = true) (hg : g.blocked = false) :
    Along gateStep g (applyLockedEvents valueText parseValue fromJson s i c) Gated := by
  have hblock (message : String) : Along gateStep g [.block message] Gated :=
    (gatedSoFar_nil hg).block message
  unfold applyLockedEvents
  cases recheckAfterImport fromJson s i with
  | error => exact along_nil _ _ _
  | refused message => exact hblock message
  | passed replanned =>
    cases destroyProtectionRefusal s i with
    | some message => exact hblock message
    | none =>
      cases i.hasPlanFile with
      | true =>
        have hcall : (if replanned then ApplyCall.recheckedPlan else .cachedPlan) ≠ .bare := by
          cases replanned <;> simp
        have happly := (gatedSoFar_nil hg).fileApply hcall
        exact happly.append (afterApplyEvents_gated valueText parseValue fromJson c hp happly.2)
      | false =>
        apply bareApply_gated fromJson hp hg
        intro g hg
        exact afterApplyEvents_gated valueText parseValue fromJson c hp hg

theorem importCalls_gated (targets : List ImportTarget) (hg : g.blocked = false) :
    GatedSoFar g (targets.map (fun t => .importCall t.address t.id)) := by
  induction targets generalizing g with
  | nil => exact gatedSoFar_nil hg
  | cons t targets ih =>
    have hrest := ih (g := gateStep g (.importCall t.address t.id)) hg
    exact ⟨(along_cons_iff _ _ _ _ _).mpr ⟨hg, hrest.1⟩, hrest.2⟩

/-- Under destroy protection every bare apply of an apply section is judged on a fresh action set
without destruction, taken since the last import or apply, and a refusal ends the calls. -/
theorem bare_applies_gated (hp : i.destroyProtection = true) :
    Along gateStep {} (applyingEvents valueText parseValue fromJson s p i c) Gated := by
  unfold applyingEvents
  split
  · have hprepass : GatedSoFar {} (prepassEvents valueText parseValue s p) := by
      unfold prepassEvents
      split
      · exact importCalls_gated _ rfl
      · exact gatedSoFar_nil rfl
    exact hprepass.append
      (applyLockedEvents_gated valueText parseValue fromJson s c hp hprepass.2)
  · exact along_nil _ _ _

end Protected

/-- A repository that exists already: the apply of the plan file fails on it. -/
def existingRepository : ApplyingInput :=
  { protectedApplying with
    applied := some ⟨false, "", "Error: 422 name already exists\n  with github_repository.docs,\n"⟩ }

def noPrepass : PrepassInput where
  spec := ⟨.empty, none, .empty⟩
  credentials := true
  planned := some none
  shown := none
  importCredentials := true
  answers _ _ := none

/-- Its type has a template for the import id, the import goes through, and the plan after it
updates the repository. -/
def adoptRepository : ConflictInput where
  policy := none
  spec := ⟨.empty, some { naturalIds := ⟨[("github_repository", "docs")], by simp⟩ }, .empty⟩
  executor := true
  rounds _ :=
    { credentials := true
      shown := none
      mainTf := none
      imports := fun _ => some ⟨⟨true, "", ""⟩, .unclassified⟩
      reads := ⟨some [⟨"github_repository.docs", .update⟩], none, none, none⟩
      applied := some ⟨true, "", ""⟩ }

/-- The repository is imported and applied again, bare, behind its gate. -/
theorem adopted_repository_gated :
    applyCalls (applyingEvents (fun _ => "") (fun _ => none) (fun _ => none) {} noPrepass
      existingRepository adoptRepository) = [.cachedPlan, .bare] ∧
    Along gateStep {} (applyingEvents (fun _ => "") (fun _ => none) (fun _ => none) {} noPrepass
      existingRepository adoptRepository) Gated :=
  ⟨by decide +kernel, bare_applies_gated _ _ _ _ _ _ rfl⟩

end PangeaOperator
