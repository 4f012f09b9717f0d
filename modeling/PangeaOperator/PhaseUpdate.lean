import PangeaOperator.PassStore

/-!
# Phase changes

`update_phase` and `update_phase_with_error` of `controller/template/status.rs`, the
pass start of `controller/template/pass_driver.rs`, and the condition set of a phase.
Each writes the members it owns; the record read back is stated next to it.
-/

namespace PangeaOperator

open Json

inductive SourceFreshState where
  | fresh
  | behind
  | unverified
  | notApplicable
  deriving DecidableEq, Repr

namespace SourceFreshState

def permitsReady : SourceFreshState → Bool
  | fresh | notApplicable => true
  | behind | unverified => false

def conditionReason : SourceFreshState → String
  | fresh => "AtHead"
  | notApplicable => "NoGitSource"
  | behind => "BehindHead"
  | unverified => "Unverified"

def conditionMessage : SourceFreshState → String
  | fresh => "Compiled revision is at the source's git HEAD"
  | notApplicable => "Non-git source; no git edge to track"
  | behind => "Compiled revision is behind the source's git HEAD"
  | unverified => "Source git HEAD not yet observed"

end SourceFreshState

def sourceFreshState (gitRepository : Bool) (status : Status) : SourceFreshState :=
  if gitRepository then
    match status.compiledRevision, status.observedHeadRevision with
    | _, none => .unverified
    | some c, some o => if c = o then .fresh else .behind
    | none, some _ => .behind
  else .notApplicable

def createCondition (type : String) (status : Bool) (reason message : String) (now : Time) :
    Condition :=
  ⟨type, if status then "True" else "False", now, reason, message, none⟩

def phaseMessage (phase : Phase) (sourceFresh : SourceFreshState) : String :=
  match phase with
  | .ready =>
    if sourceFresh.permitsReady then "Infrastructure is up to date"
    else if sourceFresh = .behind then
      "Source HEAD has advanced past the applied revision — recompiling"
    else "Source HEAD not yet verified — observing the git edge"
  | .drifted => "Infrastructure drift detected"
  | .failed => "Operation failed"
  | .compileBlocked => "Source HEAD does not compile — retrying on backoff; resumes automatically when a compiling commit lands"
  | .pending => "Waiting to be processed"
  | .destroying => "Infrastructure is being destroyed"
  | phase => phase.name ++ " in progress"

def conditionsForPhase (phase : Phase) (error : Option String) (sourceFresh : SourceFreshState)
    (now : Time) : List Condition :=
  let ready := match phase with
    | .ready => sourceFresh.permitsReady
    | _ => false
  let reconciling := match phase with
    | .verifying | .verified | .compiling | .initializing | .planning | .applying
    | .compileBlocked => true
    | _ => false
  let drift := match phase with
    | .drifted => true
    | _ => false
  let message := error.getD (phaseMessage phase sourceFresh)
  [createCondition "Ready" ready phase.name message now,
    createCondition "Reconciling" reconciling phase.name message now,
    createCondition "DriftDetected" drift phase.name message now,
    createCondition "SourceFresh" sourceFresh.permitsReady sourceFresh.conditionReason
      sourceFresh.conditionMessage now]

/-- What a status write reads besides the status: the object's generation in the reconcile's
snapshot and on the server, parts of the spec, the clock and the writing process. -/
structure Observed where
  generation : Int
  live : Int
  gitRepository : Bool
  specDigest : Option String
  requested : Option String
  now : Time
  incarnation : String
  deriving DecidableEq, Repr

/-- The first generation, at time zero. -/
def firstObserved : Observed := ⟨1, 1, false, none, none, 0, "operator"⟩

/-- The pass of a phase update; the phase of the snapshot is replaced before its pass is read. -/
def enteredPass (s : Status) (phase : Phase) (error : Option String) (o : Observed) : PassPhase :=
  let stored := { s with phase := some phase }.storedPass o.now
  (PassPhase.entering phase o.generation error (some stored) o.now).observe o.live o.now

/-- The pass that work of this kind begins. -/
def begunPass (s : Status) (kind : Phase) (o : Observed) : PassPhase :=
  (PassPhase.entering kind o.generation none (some (s.storedPass o.now)) o.now).observe o.live o.now

def unhandledRequest (s : Status) (o : Observed) : Option String :=
  o.requested.filter (fun v => some v ≠ s.lastReconcileRequestHandled)

def optionDoc {α : Type} (c : Codec α) (a : Option α) : Doc := (a.map c.enc).getD .null

/-- The members both phase updates write. -/
def phaseFields (s : Status) (phase : Phase) (error : Option String) (o : Observed) :
    List (StatusField × Option Doc) :=
  let pass := enteredPass s phase error o
  let observed := pass.observedGeneration s.observedGeneration
  [(.phase, some (Phase.codec.enc phase)),
    (.observedGeneration, some (Codec.int.enc observed)),
    (.acknowledgedGeneration, some (Codec.int.enc o.generation)),
    (.pass, some (PassStatus.codec.enc (pass.toStatus o.incarnation))),
    (.generationLagSince, some (optionDoc .time pass.lagSince)),
    (.observedSpecDigest, some (optionDoc .string o.specDigest)),
    (.conditions, some ((Codec.list Condition.codec).enc (projectConditions
      (conditionsForPhase phase error (sourceFreshState o.gitRepository s) o.now) pass observed
      o.live o.now))),
    (.phaseEnteredAt,
      if s.phase ≠ some phase then some (Codec.time.enc o.now) else none)]

def updatePhase (s : Status) (phase : Phase) (o : Observed) : Doc :=
  statusBody (phaseFields s phase none o ++
    [(.lastReconcileRequestHandled, (unhandledRequest s o).map Codec.string.enc),
      (.lastError, if phase ≠ .failed then some .null else none),
      (.failureCount, if phase ≠ .failed then some (Codec.nat.enc 0) else none)])

def updatePhaseWithError (s : Status) (phase : Phase) (error : String) (o : Observed) : Doc :=
  statusBody (phaseFields s phase (some error) o ++
    [(.lastError, some (Codec.string.enc error)),
      (.failureCount, some (Codec.nat.enc (saturatingSucc s.failureCount)))])

/-- `PassGuard::begin`: the pass alone, before the work of a phase starts. -/
def beginPass (s : Status) (kind : Phase) (o : Observed) : Doc :=
  let pass := begunPass s kind o
  statusBody [(.pass, some (PassStatus.codec.enc (pass.toStatus o.incarnation))),
    (.generationLagSince, some (optionDoc .time pass.lagSince))]

/-- The fields both phase updates leave behind. -/
def enteredStatus (s : Status) (phase : Phase) (error : Option String) (o : Observed) : Status :=
  let pass := enteredPass s phase error o
  let observed := pass.observedGeneration s.observedGeneration
  { s with
    phase := some phase
    observedGeneration := observed
    acknowledgedGeneration := o.generation
    pass := some (pass.toStatus o.incarnation)
    generationLagSince := pass.lagSince
    observedSpecDigest := o.specDigest
    conditions := projectConditions
      (conditionsForPhase phase error (sourceFreshState o.gitRepository s) o.now) pass observed
      o.live o.now
    phaseEnteredAt := if s.phase ≠ some phase then some o.now else s.phaseEnteredAt }

def updatedPhase (s : Status) (phase : Phase) (o : Observed) : Status :=
  { enteredStatus s phase none o with
    lastReconcileRequestHandled := (unhandledRequest s o).or s.lastReconcileRequestHandled
    lastError := if phase ≠ .failed then none else s.lastError
    failureCount := if phase ≠ .failed then 0 else s.failureCount }

def updatedPhaseWithError (s : Status) (phase : Phase) (error : String) (o : Observed) : Status :=
  { enteredStatus s phase (some error) o with
    lastError := some error
    failureCount := saturatingSucc s.failureCount }

/-- The fields both phase updates leave in a record that may have moved on since their snapshot
`s` was taken. -/
def enteredInto (s : Status) (phase : Phase) (error : Option String) (o : Observed) (t : Status) :
    Status :=
  let pass := enteredPass s phase error o
  let observed := pass.observedGeneration s.observedGeneration
  { t with
    phase := some phase
    observedGeneration := observed
    acknowledgedGeneration := o.generation
    pass := some (pass.toStatus o.incarnation)
    generationLagSince := pass.lagSince
    observedSpecDigest := o.specDigest
    conditions := projectConditions
      (conditionsForPhase phase error (sourceFreshState o.gitRepository s) o.now) pass observed
      o.live o.now
    phaseEnteredAt := if s.phase ≠ some phase then some o.now else t.phaseEnteredAt }

def updatedPhaseInto (s : Status) (phase : Phase) (o : Observed) (t : Status) : Status :=
  { enteredInto s phase none o t with
    lastReconcileRequestHandled := (unhandledRequest s o).or t.lastReconcileRequestHandled
    lastError := if phase ≠ .failed then none else t.lastError
    failureCount := if phase ≠ .failed then 0 else t.failureCount }

def updatedPhaseWithErrorInto (s : Status) (phase : Phase) (error : String) (o : Observed)
    (t : Status) : Status :=
  { enteredInto s phase (some error) o t with
    lastError := some error
    failureCount := saturatingSucc s.failureCount }

section ReadBack

variable {stored : Doc} {s t : Status}

theorem take_phaseFields (ht : Status.read stored = some t) (s : Status) (phase : Phase)
    (error : Option String) (o : Observed) (f : StatusField) :
    f.slot.take (mergeSlot (stored.get? f.name) (sent (phaseFields s phase error o) f)) =
      some (f.get (enteredInto s phase error o t)) := by
  rw [Status.read_eq_some_iff] at ht
  cases f
  case phase => exact readOption_mergeSlot (Codec.enum_flat _ _ _) _ _
  case observedGeneration => exact withDefault_take_mergeSlot Codec.int_flat _ _ _
  case acknowledgedGeneration => exact withDefault_take_mergeSlot Codec.int_flat _ _ _
  case pass => exact readOption_pass_merge _ _
  case generationLagSince => exact readOption_mergeSlot_getD Codec.time_flat _ _
  case observedSpecDigest => exact readOption_mergeSlot_getD Codec.string_flat _ _
  case conditions => exact nonempty_take_mergeSlot _ _
  case phaseEnteredAt =>
    change Slot.readOption .time (mergeSlot _ (ite _ _ _)) = some (ite _ _ _)
    split
    · exact readOption_mergeSlot Codec.time_flat _ _
    · exact ht .phaseEnteredAt
  all_goals exact ht _

theorem read_updatePhase_into (ht : Status.read stored = some t) (s : Status) (phase : Phase)
    (o : Observed) :
    Status.read (patchStatus stored (updatePhase s phase o)) =
      some (updatedPhaseInto s phase o t) := by
  have hbase := take_phaseFields ht s phase none o
  rw [Status.read_eq_some_iff] at ht
  refine read_patchStatus (by simp [phaseFields]) (fun f => ?_)
  cases f
  case lastReconcileRequestHandled =>
    change Slot.readOption .string (mergeSlot _ (Option.map _ (unhandledRequest s o))) =
      some ((unhandledRequest s o).or _)
    cases unhandledRequest s o with
    | none => exact ht .lastReconcileRequestHandled
    | some v => exact readOption_mergeSlot Codec.string_flat _ _
  case lastError =>
    change Slot.readOption .string (mergeSlot _ (ite _ _ _)) = some (ite _ _ _)
    split
    · rfl
    · exact ht .lastError
  case failureCount =>
    change (Slot.withDefault .nat 0).take (mergeSlot _ (ite _ _ _)) = some (ite _ _ _)
    split
    · exact withDefault_take_mergeSlot Codec.nat_flat _ _ _
    · exact ht .failureCount
  all_goals exact hbase _

theorem read_updatePhaseWithError_into (ht : Status.read stored = some t) (s : Status)
    (phase : Phase) (error : String) (o : Observed) :
    Status.read (patchStatus stored (updatePhaseWithError s phase error o)) =
      some (updatedPhaseWithErrorInto s phase error o t) := by
  have hbase := take_phaseFields ht s phase (some error) o
  refine read_patchStatus (by simp [phaseFields]) (fun f => ?_)
  cases f
  case lastError => exact readOption_mergeSlot Codec.string_flat (stored.get? "lastError") error
  case failureCount => exact withDefault_take_mergeSlot Codec.nat_flat _ _ _
  all_goals exact hbase _

theorem read_updatePhase (hs : Status.read stored = some s) (phase : Phase) (o : Observed) :
    Status.read (patchStatus stored (updatePhase s phase o)) = some (updatedPhase s phase o) :=
  read_updatePhase_into hs s phase o

theorem read_updatePhaseWithError (hs : Status.read stored = some s) (phase : Phase)
    (error : String) (o : Observed) :
    Status.read (patchStatus stored (updatePhaseWithError s phase error o)) =
      some (updatedPhaseWithError s phase error o) :=
  read_updatePhaseWithError_into hs s phase error o

theorem read_beginPass (hs : Status.read stored = some s) (kind : Phase) (o : Observed) :
    Status.read (patchStatus stored (beginPass s kind o)) =
      some { s with
        pass := some ((begunPass s kind o).toStatus o.incarnation)
        generationLagSince := (begunPass s kind o).lagSince } := by
  rw [Status.read_eq_some_iff] at hs
  refine read_patchStatus (by simp) (fun f => ?_)
  cases f
  case pass => exact readOption_pass_merge _ _
  case generationLagSince => exact readOption_mergeSlot_getD Codec.time_flat _ _
  all_goals exact hs _

end ReadBack

end PangeaOperator
