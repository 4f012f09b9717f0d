import PangeaOperator.ImagePipelineRun

/-!
# What a rollback goes back to

Every planning reconcile of `handle_planning` first writes the new image into the template
and then stores, as `previousAmiId`, the image it had found there. The first one finds the
image to go back to; a later one finds the new image, and only a plan to record puts the
stored value back. Here every call is answered, the snapshot is current, and nobody else
writes the variable.
-/

namespace PangeaOperator.ImagePipeline

open Json

/-- What the neighbours may do that leaves the template's variables alone. -/
inductive Calm where
  | status (status : Option TargetStatus)
  | builds (builds : String → PackerBuildStatus)
  | tests (tests : String → Option AmiTestStatus)
  | http (http : String → Nat)
  | approve (who : String)
  | disapprove

def Calm.toDisturbance (w : World) : Calm → Disturbance
  | .status st => .template { w.target with status := st }
  | .builds b => .builds b
  | .tests t => .tests t
  | .http h => .http h
  | .approve who => .approve who
  | .disapprove => .disapprove

def calmly (w : World) (x : Calm) : World := disturb w (x.toDisturbance w)

def calmServer (spec : Spec) : Server Call CallReply World Calm where
  serve := serve spec
  disturb := calmly

/-- One reconcile, from the current status to its end. -/
def tick (debugText : String → String) (spec : Spec) (w : World) (xss : List (List Calm)) :
    World :=
  ((job debugText spec 0 w).exec (calmServer spec) xss w).2.2

/-- The part of the world that a rollback depends on. -/
structure Ledger where
  phase : Option PipelinePhase
  build : Option PipelineBuildStatus
  previous : Option String
  variable_ : Option Doc
  deriving DecidableEq

def PipelineStatus.previous (st : PipelineStatus) : Option String :=
  st.deploy.bind (·.previousAmiId)

def World.ledger (spec : Spec) (w : World) : Ledger :=
  ⟨w.status.phase, w.status.build, w.status.previous,
    lookup spec.deploy.amiVariable w.target.specVariables⟩

variable (debugText : String → String) {spec : Spec}

@[simp] theorem ledger_calmly (w : World) (x : Calm) :
    (calmly w x).ledger spec = w.ledger spec := by
  cases x with
  | approve who =>
    cases hd : w.status.deploy <;>
      simp [World.ledger, calmly, disturb, Calm.toDisturbance, World.patch,
        PipelineStatus.previous, hd, PipelineDeployStatus.empty]
  | disapprove =>
    cases hd : w.status.deploy <;>
      simp [World.ledger, calmly, disturb, Calm.toDisturbance, World.patch,
        PipelineStatus.previous, hd]
  | _ => rfl

@[simp] theorem ledger_run (w : World) (xs : List Calm) :
    (run calmly w xs).ledger spec = w.ledger spec := by
  induction xs generalizing w with
  | nil => rfl
  | cons x xs ih => rw [run_cons, ih, ledger_calmly]

section Serve

variable (w : World)

@[simp] theorem ledger_getTemplate :
    (serve spec .getTemplate w).2.ledger spec = w.ledger spec := rfl

@[simp] theorem ledger_setVariable (ami : String) :
    (serve spec (.setVariable ami) w).2.ledger spec =
      { w.ledger spec with variable_ := some (.str ami) } := by
  simp [World.ledger, serve]

@[simp] theorem ledger_writeDeploy (d : PipelineDeployStatus) :
    (serve spec (.writeDeploy d) w).2.ledger spec =
      { w.ledger spec with previous := d.previousAmiId.or (w.ledger spec).previous } := rfl

@[simp] theorem ledger_writePhase (phase : PipelinePhase) (message : Option String) :
    (serve spec (.writePhase phase message) w).2.ledger spec =
      { w.ledger spec with phase := some phase } := rfl

end Serve

/-- What a reconcile leaves is what its handler leaves, or a failed pipeline. -/
theorem tick_eq (hs : spec.suspend = false) (w : World) (xss : List (List Calm)) :
    tick debugText spec w xss =
      match (handlePhase debugText spec w.status (w.status.phase.getD .pending)).exec
          (calmServer spec) xss w with
      | (.ok _, _, t) => t
      | (.error e, rest, t) =>
        (serve spec (.writePhase .failed (some e.toString)) (run calmly t (rest.headD []))).2 := by
  unfold tick job reconcileImagePipeline
  simp only [hs, Bool.false_eq_true, if_false, Prog.exec_bind, Prog.exec_rescue, World.versions,
    List.getD_cons_zero]
  rcases Prog.exec (calmServer spec)
    (handlePhase debugText spec w.status (w.status.phase.getD .pending)) xss w with ⟨_ | _, _, _⟩
  · rfl
  · rfl

/-! ## One planning reconcile -/

/-- The image of the ledger's variable, where it is a string. -/
def Ledger.ami (l : Ledger) : Option String :=
  match l.variable_ with
  | some (.str s) => some s
  | _ => none

/-- The new image is written, and the one found before is stored. -/
def Ledger.replaced (l : Ledger) (ami : String) : Ledger :=
  { l with previous := l.ami.or l.previous, variable_ := some (.str ami) }

/-- The plan goes to the deploy status of a snapshot with that image stored. -/
def Ledger.recorded (l : Ledger) (snapshot : Option String) (phase : PipelinePhase) : Ledger :=
  { l with phase := some phase, previous := snapshot.or l.previous }

@[simp] theorem calmServer_serve (c : Call) (w : World) :
    (calmServer spec).serve c w = serve spec c w := rfl
@[simp] theorem calmServer_disturb (w : World) (x : Calm) :
    (calmServer spec).disturb w x = calmly w x := rfl

/-- What a handler leaves unless it raises an error. -/
def Returns {α : Type} (spec : Spec) (w : World) (p : Job α) (xss : List (List Calm))
    (P : Ledger → Prop) : Prop :=
  match p.exec (calmServer spec) xss w with
  | (.ok _, _, t) => P (t.ledger spec)
  | (.error _, _, _) => True

/-- A call is served on a world with the same ledger. -/
theorem returns_call {α : Type} {w : World} {c : Call} {f : CallReply c → Job α}
    {xss : List (List Calm)} {P : Ledger → Prop}
    (h : ∀ w', w'.ledger spec = w.ledger spec →
      Returns spec (serve spec c w').2 (f (serve spec c w').1) xss.tail P) :
    Returns spec w (perform c >>= f) xss P :=
  h _ (ledger_run w _)

theorem returns_pure {α : Type} {w : World} (a : α) {xss : List (List Calm)} {P : Ledger → Prop}
    (h : P (w.ledger spec)) : Returns spec w (pure a : Job α) xss P := h

theorem Returns.mono {α : Type} {w : World} {p : Job α} {xss : List (List Calm)}
    {P Q : Ledger → Prop} (h : Returns spec w p xss P) (hpq : ∀ l, P l → Q l) :
    Returns spec w p xss Q := by
  unfold Returns at h ⊢
  revert h
  rcases p.exec (calmServer spec) xss w with ⟨_ | _, _, _⟩
  · exact id
  · exact hpq _

theorem previous_snapshot (st : PipelineStatus) :
    (st.deploy.getD .empty).previousAmiId = st.previous := by
  unfold PipelineStatus.previous
  cases st.deploy <;> rfl

theorem recordPlan_returns (w : World) (st : PipelineStatus) (status : TargetStatus)
    (hash : String) (xss : List (List Calm)) :
    Returns spec w (recordPlan debugText spec st status hash) xss (fun l =>
      ∃ phase, (phase = .applying ∨ phase = .awaitingApproval) ∧
        l = (w.ledger spec).recorded st.previous phase) := by
  unfold recordPlan
  cases validatePlan spec status with
  | error e => trivial
  | ok u =>
    refine returns_call fun w₁ h₁ => ?_
    have hrecorded : ∀ w₂ phase, w₂.ledger spec = (serve spec (.writeDeploy
        { st.deploy.getD .empty with planSummary := status.planSummary, planHash := some hash })
          w₁).2.ledger spec →
        (serve spec (.writePhase phase none) w₂).2.ledger spec =
          (w.ledger spec).recorded st.previous phase := by
      intro w₂ phase h₂
      rw [ledger_writePhase, h₂, ledger_writeDeploy, h₁, previous_snapshot]
      rfl
    cases spec.deploy.approval.kind debugText with
    | error message => trivial
    | ok kind =>
      cases kind with
      | auto =>
        exact returns_call fun w₂ h₂ => returns_pure _ ⟨.applying, .inl rfl, hrecorded w₂ _ h₂⟩
      | manual =>
        exact returns_call fun w₂ h₂ =>
          returns_pure _ ⟨.awaitingApproval, .inr rfl, hrecorded w₂ _ h₂⟩
      | webhook => trivial

/-- What a planning reconcile leaves: an error fails the pipeline, without a plan it stays, and
a plan is recorded. -/
inductive Planned (l : Ledger) : Ledger → Prop where
  | failed {l' : Ledger} (h : l'.phase = some .failed) : Planned l l'
  | waits {ami : String} (h : l.build.bind (·.amiId) = some ami) : Planned l (l.replaced ami)
  | records {ami : String} (h : l.build.bind (·.amiId) = some ami) {phase : PipelinePhase}
      (hp : phase = .applying ∨ phase = .awaitingApproval) :
      Planned l ((l.replaced ami).recorded l.previous phase)

theorem handlePlanning_returns (w : World) (xss : List (List Calm)) :
    Returns spec w (handlePlanning debugText spec w.status) xss (Planned (w.ledger spec)) := by
  unfold handlePlanning
  cases hami : w.status.build.bind (·.amiId) with
  | none => trivial
  | some ami =>
    refine returns_call fun w₁ h₁ => returns_call fun w₂ h₂ => returns_call fun w₃ h₃ => ?_
    refine returns_call fun w₄ h₄ => ?_
    have hreplaced : (serve spec .getTemplate w₄).2.ledger spec = (w.ledger spec).replaced ami := by
      rw [ledger_getTemplate, h₄, ledger_writeDeploy, h₃, ledger_setVariable, h₂,
        ledger_getTemplate, h₁]
      show Ledger.mk _ _ ((w₁.ledger spec).ami.or _) _ = _
      rw [h₁]
      rfl
    have hwaits : Planned (w.ledger spec) ((serve spec .getTemplate w₄).2.ledger spec) :=
      hreplaced ▸ .waits hami
    split
    · exact returns_pure _ hwaits
    · split
      · refine (recordPlan_returns debugText _ _ _ _ _).mono ?_
        rintro l ⟨phase, hphase, rfl⟩
        rw [hreplaced]
        exact .records hami hphase
      · exact returns_pure _ hwaits

/-- The ledger is the handler's, or the pipeline failed. -/
theorem ledger_tick (hs : spec.suspend = false) (w : World) (xss : List (List Calm)) :
    (tick debugText spec w xss).ledger spec =
        ((handlePhase debugText spec w.status (w.status.phase.getD .pending)).exec
          (calmServer spec) xss w).2.2.ledger spec ∨
      ((tick debugText spec w xss).ledger spec).phase = some .failed := by
  rw [tick_eq debugText hs]
  rcases Prog.exec (calmServer spec)
    (handlePhase debugText spec w.status (w.status.phase.getD .pending)) xss w with ⟨_ | _, _, _⟩
  · exact .inr rfl
  · exact .inl rfl

/-- A handler that leaves `P`, or a failed pipeline. -/
theorem tick_of_returns (hs : spec.suspend = false) {w : World} {xss : List (List Calm)}
    {P : Ledger → Prop}
    (h : Returns spec w
      (handlePhase debugText spec w.status (w.status.phase.getD .pending)) xss P) :
    P ((tick debugText spec w xss).ledger spec) ∨
      ((tick debugText spec w xss).ledger spec).phase = some .failed := by
  rw [tick_eq debugText hs]
  unfold Returns at h
  revert h
  rcases Prog.exec (calmServer spec)
    (handlePhase debugText spec w.status (w.status.phase.getD .pending)) xss w with ⟨_ | _, _, _⟩
  · exact fun _ => .inr rfl
  · exact .inl

theorem tick_planned (hs : spec.suspend = false) {w : World}
    (hp : w.status.phase = some .planning) (xss : List (List Calm)) :
    Planned (w.ledger spec) ((tick debugText spec w xss).ledger spec) := by
  have h : Returns spec w (handlePhase debugText spec w.status (w.status.phase.getD .pending)) xss
      (Planned (w.ledger spec)) := by
    rw [hp]
    exact handlePlanning_returns debugText w xss
  rcases tick_of_returns debugText hs h with h | h
  · exact h
  · exact .failed h

/-! ## The other reconciles -/

/-- Before planning only the pipeline's own status is written. -/
def Early (c : Call) : Prop :=
  match c with
  | .setVariable _ | .writeDeploy _ => False
  | .writePhase phase _ => phase ∈ [.building, .testing, .planning]
  | _ => True

/-- From the approval on the build is left alone as well. -/
def Late (c : Call) : Prop :=
  match c with
  | .setVariable _ | .writeDeploy _ | .writeBuild _ => False
  | .writePhase phase _ => phase ∉ [.pending, .building, .testing]
  | _ => True

theorem only_orFail {α : Type} {calls : Call → Prop} (message : String) (o : Option α) :
    (orFail message o).Only calls := by
  cases o <;> trivial

theorem only_handlePending : (handlePending spec).Only Early :=
  (Prog.only_perform trivial).bind fun _ => (Prog.only_perform trivial).bind fun _ =>
    (Prog.only_perform (by simp [Early])).bind fun _ => trivial

theorem only_handleBuilding (st : PipelineStatus) : (handleBuilding spec st).Only Early := by
  refine (only_orFail _ _).bind fun _ => (Prog.only_perform trivial).bind fun pb => ?_
  split
  · refine (only_orFail _ _).bind fun _ => (Prog.only_perform trivial).bind fun _ => ?_
    refine (Prog.only_perform ?_).bind fun _ => trivial
    split <;> simp [Early]
  · trivial
  · trivial

theorem only_handleTesting : (handleTesting spec).Only Early := by
  unfold handleTesting
  split
  · refine (Prog.only_perform trivial).bind fun test => ?_
    split
    · exact (Prog.only_perform trivial).bind fun _ => (Prog.only_perform trivial).bind fun _ =>
        trivial
    · split
      · exact (Prog.only_perform trivial).bind fun _ =>
          (Prog.only_perform (by simp [Early])).bind fun _ => trivial
      all_goals trivial
  · trivial

theorem only_handleAwaitingApproval (st : PipelineStatus) :
    (handleAwaitingApproval st).Only Late := by
  unfold handleAwaitingApproval
  split
  · exact (Prog.only_perform (by simp [Late])).bind fun _ => trivial
  · trivial

theorem only_handleApplying (st : PipelineStatus) : (handleApplying spec st).Only Late := by
  refine (Prog.only_perform trivial).bind fun t => ?_
  split
  · refine (Prog.only_perform ?_).bind fun _ => trivial
    split <;> simp [Late]
  · split
    · exact (Prog.only_perform (by simp [Late])).bind fun _ => trivial
    · trivial
  · split
    · trivial
    · split
      · trivial
      · unfold approveReviewed
        split
        · trivial
        · split
          · exact (Prog.only_perform trivial).bind fun _ => trivial
          · exact (Prog.only_perform (by simp [Late])).bind fun _ => trivial
  · trivial

theorem only_probe (check : HealthCheckType) : (probe check).Only Late := by
  unfold probe
  split
  · exact (Prog.only_perform trivial).bind fun _ => trivial
  · exact (Prog.only_perform trivial).bind fun _ => trivial
  · trivial

theorem only_attempts (check : HealthCheck) (left attempt : Nat) :
    (attempts check left attempt).Only Late := by
  induction left generalizing attempt with
  | zero => trivial
  | succ left ih =>
    refine ((only_probe _).rescue (by exact fun _ => trivial)).bind fun passed => ?_
    split
    · trivial
    · exact ih _

theorem only_runHealthChecks (checks : List HealthCheck) : (runHealthChecks checks).Only Late := by
  induction checks with
  | nil => trivial
  | cons check checks ih => exact (only_attempts _ _ _).bind fun _ => ih.bind fun _ => trivial

theorem only_handleVerifying : (handleVerifying spec).Only Late := by
  refine (only_runHealthChecks _).bind fun results => (Prog.only_perform trivial).bind fun _ => ?_
  split
  · exact (Prog.only_perform (by simp [Late])).bind fun _ => trivial
  · split
    · exact (Prog.only_perform (by simp [Late])).bind fun _ => trivial
    · exact (Prog.only_perform (by simp [Late])).bind fun _ => trivial

theorem exec_early (w : World) (xss : List (List Calm)) {α : Type} {p : Job α}
    (hp : p.Only Early) {l : Ledger}
    (hl : l = w.ledger spec) : let l' := (p.exec (calmServer spec) xss w).2.2.ledger spec
    l'.variable_ = l.variable_ ∧ l'.previous = l.previous ∧
      (l'.phase = l.phase ∨ l'.phase ∈ [some .building, some .testing, some .planning]) := by
  subst hl
  refine Prog.exec_invariant (S := calmServer spec) (I := fun v =>
    (v.ledger spec).variable_ = (w.ledger spec).variable_ ∧
    (v.ledger spec).previous = (w.ledger spec).previous ∧
    ((v.ledger spec).phase = (w.ledger spec).phase ∨
      (v.ledger spec).phase ∈ [some .building, some .testing, some .planning]))
    (fun v x h => ?_) (fun c v hc h => ?_) hp xss ⟨rfl, rfl, .inl rfl⟩
  · simpa using h
  · cases c with
    | setVariable ami => exact hc.elim
    | writeDeploy d => exact hc.elim
    | writePhase phase message =>
      refine ⟨h.1, h.2.1, .inr ?_⟩
      simpa [Early] using hc
    | _ => exact h

theorem exec_late (w : World) (xss : List (List Calm)) {α : Type} {p : Job α}
    (hp : p.Only Late) {l : Ledger}
    (hl : l = w.ledger spec) : let l' := (p.exec (calmServer spec) xss w).2.2.ledger spec
    l'.variable_ = l.variable_ ∧ l'.previous = l.previous ∧ l'.build = l.build ∧
      (l'.phase = l.phase ∨
        l'.phase ∉ [none, some .pending, some .building, some .testing]) := by
  subst hl
  refine Prog.exec_invariant (S := calmServer spec) (I := fun v =>
    (v.ledger spec).variable_ = (w.ledger spec).variable_ ∧
    (v.ledger spec).previous = (w.ledger spec).previous ∧
    (v.ledger spec).build = (w.ledger spec).build ∧
    ((v.ledger spec).phase = (w.ledger spec).phase ∨
      (v.ledger spec).phase ∉ [none, some .pending, some .building, some .testing]))
    (fun v x h => ?_) (fun c v hc h => ?_) hp xss ⟨rfl, rfl, rfl, .inl rfl⟩
  · simpa using h
  · cases c with
    | setVariable ami => exact hc.elim
    | writeDeploy d => exact hc.elim
    | writeBuild d => exact hc.elim
    | writePhase phase message =>
      refine ⟨h.1, h.2.1, h.2.2.1, .inr ?_⟩
      simpa [Late] using hc
    | _ => exact h

/-! ## Runs -/

/-- A reconcile, and for one that started in planning whether it ended there. -/
def logTick (debugText : String → String) (spec : Spec) (r : World × List Bool)
    (xss : List (List Calm)) : World × List Bool :=
  let w := tick debugText spec r.1 xss
  (w, if r.1.status.phase = some .planning then r.2 ++ [w.status.phase == some .planning] else r.2)

/-- Where the image to go back to is: still in the variable, or stored until a planning
reconcile after the first one waits. -/
inductive Custody (old : String) : Ledger → List Bool → Prop where
  | intact {l : Ledger}
      (hp : l.phase ∈ [none, some .pending, some .building, some .testing, some .planning])
      (ha : l.ami = some old) (hn : l.previous = none) : Custody old l []
  | held {l : Ledger} {log : List Bool} {new : String} (hlog : log ≠ [])
      (hp : l.phase ∉ [none, some .pending, some .building, some .testing])
      (hb : l.build.bind (·.amiId) = some new) (hv : l.variable_ = some (.str new))
      (hprev : l.previous = some (if true ∈ log.tail then new else old)) : Custody old l log
  | failed {l : Ledger} {log : List Bool} (hp : l.phase = some .failed) : Custody old l log

theorem custody_early {old : String} (hs : spec.suspend = false) {w : World}
    (hp : w.status.phase ∈ [none, some .pending, some .building, some .testing])
    (ha : (w.ledger spec).ami = some old) (hn : (w.ledger spec).previous = none)
    (xss : List (List Calm)) : Custody old ((tick debugText spec w xss).ledger spec) [] := by
  have honly : (handlePhase debugText spec w.status (w.status.phase.getD .pending)).Only Early := by
    simp only [List.mem_cons, List.not_mem_nil, or_false] at hp
    rcases hp with hp | hp | hp | hp <;> rw [hp]
    · exact only_handlePending
    · exact only_handlePending
    · exact only_handleBuilding _
    · exact only_handleTesting
  rcases ledger_tick debugText hs w xss with h | h
  · obtain ⟨hvar, hprev, hphase⟩ := exec_early w xss honly rfl
    rw [h]
    refine .intact ?_ ?_ (hprev.trans hn)
    · rcases hphase with hphase | hphase
      · rw [hphase]
        exact List.mem_append_left [_] hp
      · simp only [List.mem_cons, List.not_mem_nil, or_false] at hphase
        rcases hphase with hphase | hphase | hphase <;> simp [hphase]
    · unfold Ledger.ami at ha ⊢
      rw [hvar, ha]
  · exact .failed h

theorem custody_late {old : String} (hs : spec.suspend = false) {w : World} {log : List Bool}
    (hlate : (handlePhase debugText spec w.status (w.status.phase.getD .pending)).Only Late)
    (hp : w.status.phase ∉ [none, some .pending, some .building, some .testing, some .planning])
    (h : Custody old (w.ledger spec) log) (xss : List (List Calm)) :
    Custody old ((tick debugText spec w xss).ledger spec) log := by
  rcases ledger_tick debugText hs w xss with ht | ht
  · obtain ⟨hvar, hprev, hbuild, hphase⟩ := exec_late w xss hlate rfl
    rw [ht]
    cases h with
    | intact hearly => exact absurd hearly hp
    | held hlog hnot hb hv hpr =>
      refine .held hlog ?_ (hbuild ▸ hb) (hvar.trans hv) (hprev.trans hpr)
      rcases hphase with hphase | hphase
      · rw [hphase]
        exact hnot
      · exact hphase
    | failed hf =>
      have hf' : w.status.phase = some .failed := hf
      rw [hf']
      exact .failed hf
  · exact .failed ht

/-- The first planning reconcile stores the image it finds; a later one that waits stores the
new one over it. -/
theorem custody_planning {old : String} (hs : spec.suspend = false) {w : World} {log : List Bool}
    (hp : w.status.phase = some .planning) (h : Custody old (w.ledger spec) log)
    (xss : List (List Calm)) :
    Custody old ((tick debugText spec w xss).ledger spec)
      (log ++ [((tick debugText spec w xss).ledger spec).phase == some .planning]) := by
  have hphase : (w.ledger spec).phase = some .planning := hp
  have hplanned := tick_planned debugText hs hp xss
  generalize (tick debugText spec w xss).ledger spec = l at hplanned
  cases h with
  | failed hf => exact absurd (hphase.symm.trans hf) (by decide)
  | intact _ ha hn =>
    cases hplanned with
    | failed hf => exact .failed hf
    | waits hb =>
      refine .held (by simp) ?_ hb rfl ?_
      · simp [Ledger.replaced, hphase]
      · simp [Ledger.replaced, ha]
    | records hb hor =>
      refine .held (by simp) ?_ hb rfl ?_
      · rcases hor with rfl | rfl <;> simp [Ledger.recorded]
      · simp [Ledger.recorded, Ledger.replaced, ha, hn]
  | held hlog hnot hb hv hpr =>
    have htail : ∀ b, (log ++ [b]).tail = log.tail ++ [b] :=
      fun b => List.tail_append_of_ne_nil hlog
    have hami : (w.ledger spec).ami = (w.ledger spec).build.bind (·.amiId) := by
      unfold Ledger.ami
      rw [hv, hb]
    cases hplanned with
    | failed hf => exact .failed hf
    | waits hb' =>
      refine .held (by simp) ?_ hb' rfl ?_
      · simp [Ledger.replaced, hphase]
      · simp [Ledger.replaced, htail, hami, hb', hphase]
    | records hb' hor =>
      obtain rfl := Option.some.inj (hb.symm.trans hb')
      refine .held (by simp) ?_ hb rfl ?_
      · rcases hor with rfl | rfl <;> simp [Ledger.recorded]
      · rcases hor with rfl | rfl <;> simp [Ledger.recorded, htail, hpr]

/-- The rollback writes the stored image and ends in failure. -/
theorem tick_rollingBack (hs : spec.suspend = false) {w : World}
    (hp : w.status.phase = some .rollingBack) (xss : List (List Calm)) :
    ((tick debugText spec w xss).ledger spec).phase = some .failed ∧
      ∀ previous, w.status.previous = some previous →
        ((tick debugText spec w xss).ledger spec).ami = some previous := by
  rw [tick_eq debugText hs, hp]
  simp only [handlePhase, Option.getD_some, handleRollingBack]
  cases hprev : w.status.deploy.bind (·.previousAmiId) with
  | none =>
    refine ⟨rfl, fun previous h => ?_⟩
    rw [PipelineStatus.previous, hprev] at h
    cases h
  | some stored =>
    refine ⟨rfl, fun previous h => ?_⟩
    obtain rfl : stored = previous := Option.some.inj (hprev.symm.trans h)
    show (World.ledger spec (serve spec (.writePhase .failed _) (run calmly
      (serve spec (.setVariable stored) _).2 _)).2).ami = some stored
    rw [ledger_writePhase, ledger_run, ledger_setVariable]
    rfl

theorem custody_logTick {old : String} (hs : spec.suspend = false) (r : World × List Bool)
    (xss : List (List Calm)) (h : Custody old (r.1.ledger spec) r.2) :
    Custody old ((logTick debugText spec r xss).1.ledger spec)
      (logTick debugText spec r xss).2 := by
  obtain ⟨w, log⟩ := r
  have hlate : ∀ {phase : PipelinePhase}, w.status.phase = some phase →
      (handlePhase debugText spec w.status phase).Only Late →
      phase ∉ [.pending, .building, .testing, .planning] →
      Custody old ((logTick debugText spec (w, log) xss).1.ledger spec)
        (logTick debugText spec (w, log) xss).2 := by
    intro phase hp honly hnot
    simp only [List.mem_cons, List.not_mem_nil, or_false, not_or] at hnot
    simp only [logTick, hp, Option.some.injEq, hnot, if_false]
    refine custody_late debugText hs (by rw [hp]; exact honly) ?_ h xss
    simp [hp, hnot]
  have hearly : w.status.phase ∈ [none, some .pending, some .building, some .testing] →
      Custody old ((logTick debugText spec (w, log) xss).1.ledger spec)
        (logTick debugText spec (w, log) xss).2 := by
    intro hmem
    have hnot : w.status.phase ≠ some .planning := by
      intro hp
      simp [hp] at hmem
    simp only [logTick, hnot, if_false]
    cases h with
    | intact _ ha hn => exact custody_early debugText hs hmem ha hn xss
    | held _ hp => exact absurd hmem hp
    | failed hf =>
      have hf' : w.status.phase = some .failed := hf
      simp [hf'] at hmem
  cases hp : w.status.phase with
  | none => exact hearly (by simp [hp])
  | some phase =>
    cases phase with
    | pending => exact hearly (by simp [hp])
    | building => exact hearly (by simp [hp])
    | testing => exact hearly (by simp [hp])
    | planning =>
      simp only [logTick, hp, if_true]
      exact custody_planning debugText hs hp h xss
    | awaitingApproval => exact hlate hp (only_handleAwaitingApproval _) (by decide)
    | applying => exact hlate hp (only_handleApplying _) (by decide)
    | verifying => exact hlate hp only_handleVerifying (by decide)
    | completed => exact hlate hp trivial (by decide)
    | failed => exact hlate hp trivial (by decide)
    | rollingBack => exact .failed (tick_rollingBack debugText hs hp xss).1

/-- Where every reconcile works on the current status and all its calls are answered, and nobody
else writes the template's variables: a rollback goes back to the image that the template had before
the pipeline, unless a planning reconcile other than the first one found no plan: then it writes the
new image again. -/
theorem rolls_back_to (hs : spec.suspend = false) {w : World} (h : Fresh w) {old : String}
    (hold : w.target.ami spec.deploy.amiVariable = some old) (ticks : List (List (List Calm)))
    (xss : List (List Calm)) {r : World × List Bool}
    (hr : run (logTick debugText spec) (w, []) ticks = r)
    (hp : r.1.status.phase = some .rollingBack) {new : String}
    (hnew : r.1.status.build.bind (·.amiId) = some new) :
    (tick debugText spec r.1 xss).target.ami spec.deploy.amiVariable =
      some (if true ∈ r.2.tail then new else old) := by
  have hstart : Custody old (w.ledger spec) [] := by
    refine .intact ?_ hold ?_
    · simp [World.ledger, h.status, PipelineStatus.empty]
    · simp [World.ledger, h.status, PipelineStatus.empty, PipelineStatus.previous]
  have hcustody : Custody old (r.1.ledger spec) r.2 :=
    hr ▸ run_invariant (custody_logTick debugText hs) hstart ticks
  obtain ⟨u, log⟩ := r
  have hphase : (u.ledger spec).phase = some .rollingBack := hp
  cases hcustody with
  | failed hf => exact absurd (hphase.symm.trans hf) (by decide)
  | intact hmem =>
    rw [hphase] at hmem
    simp at hmem
  | held _ _ hb _ hprev =>
    obtain rfl := Option.some.inj (hb.symm.trans hnew)
    exact (tick_rollingBack debugText hs hp xss).2 _ hprev

/-- The first planning reconcile waits, the second one records, and the apply fails. -/
def failingTicks : List (List (List Calm)) :=
  [[], [], [[.status none]], [[.status (targetIn .planning (some "h1")).status, .approve "ops"]],
    [], [[.status (targetIn .failed none).status]]]

theorem rolls_back_to_failing :
    (tick id manualSpec (run (logTick id manualSpec) (builtWorld, []) failingTicks).1 []).target.ami
      "ami" = some "ami-1" := by
  have hs : manualSpec.suspend = false := rfl
  have hold : builtWorld.target.ami manualSpec.deploy.amiVariable = some "ami-1" := by
    decide +kernel
  have hnew : (run (logTick id manualSpec) (builtWorld, []) failingTicks).1.status.build.bind
      (·.amiId) = some "ami-2" := by
    decide +kernel
  have hlog : (run (logTick id manualSpec) (builtWorld, []) failingTicks).2 = [true, false] := by
    decide +kernel
  have h := rolls_back_to id hs fresh_builtWorld hold failingTicks [] rfl (by decide +kernel) hnew
  rw [hlog] at h
  exact h

end PangeaOperator.ImagePipeline
