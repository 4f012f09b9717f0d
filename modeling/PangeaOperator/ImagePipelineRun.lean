import PangeaOperator.ImagePipeline
import PangeaOperator.Lib.Yields

/-!
# The image pipeline among its neighbours

One pipeline's reconciles run call by call. In between, the template's controller replans
and applies, the build and the test move on, people set and clear `approvedBy`, any call
fails, the operator crashes, and a reconcile may start from an outdated snapshot. The
SAFETY note of `handle_applying` holds in every such run: an approval goes only to a plan
that the pipeline has read, within its assertions.
-/

namespace PangeaOperator.ImagePipeline

open Json

/-- The objects a pipeline meets, the versions its status has had, the template statuses it has
read, and who has approved. -/
structure World where
  status : PipelineStatus
  past : List PipelineStatus
  target : Target
  builds : String → PackerBuildStatus
  tests : String → Option AmiTestStatus
  http : String → Nat
  seen : List TargetStatus
  approvals : List String

namespace World

def versions (w : World) : List PipelineStatus := w.status :: w.past

def patch (w : World) (f : PipelineStatus → PipelineStatus) : World :=
  { w with status := f w.status, past := w.versions }

@[simp] theorem versions_patch (w : World) (f : PipelineStatus → PipelineStatus) :
    (w.patch f).versions = f w.status :: w.versions := rfl
@[simp] theorem seen_patch (w : World) (f : PipelineStatus → PipelineStatus) :
    (w.patch f).seen = w.seen := rfl
@[simp] theorem approvals_patch (w : World) (f : PipelineStatus → PipelineStatus) :
    (w.patch f).approvals = w.approvals := rfl

def patchTarget (w : World) (f : TargetStatus → TargetStatus) : World :=
  { w with target.status := some (f (w.target.status.getD ⟨none, none, none, none, none, none⟩)) }

end World

def PipelineStatus.planHash (st : PipelineStatus) : Option String := st.deploy.bind (·.planHash)
def PipelineStatus.approvedBy (st : PipelineStatus) : Option String :=
  st.deploy.bind (·.approvedBy)

def writePhase (phase : PipelinePhase) (message : Option String) (st : PipelineStatus) :
    PipelineStatus :=
  { st with
    phase := some phase
    condition := some ⟨phase == .completed, phase.name, message.getD phase.name⟩ }

def serve (spec : Spec) : (c : Call) → World → CallReply c × World
  | .createBuild _, w => ((), w)
  | .getBuild name, w => (w.builds name, w)
  | .createTest name, w =>
    ((), { w with
      tests := fun n => if n = name then (w.tests n).or (some ⟨none, none⟩) else w.tests n })
  | .getTest name, w => (w.tests name, w)
  | .getTemplate, w => (w.target, { w with seen := w.target.status.toList ++ w.seen })
  | .setVariable ami, w =>
    ((), { w with
      target.specVariables := Json.set spec.deploy.amiVariable (.str ami) w.target.specVariables })
  | .approvePlan hash, w =>
    ((), w.patchTarget (fun st => { st with approvedPlanHash := some hash }))
  | .httpGet endpoint, w => (w.http endpoint, w)
  | .tcpConnect _, w => ((), w)
  | .writeBuild d, w => ((), w.patch (fun st => { st with build := some (d.onto st.build) }))
  | .writeTest d, w => ((), w.patch (fun st => { st with test := some (d.onto st.test) }))
  | .writeDeploy d, w => ((), w.patch (fun st => { st with deploy := some (d.onto st.deploy) }))
  | .writeVerification d, w =>
    ((), w.patch (fun st => { st with verification := some (d.onto st.verification) }))
  | .writePhase phase message, w => ((), w.patch (writePhase phase message))

/-- What the others write. -/
inductive Disturbance where
  | template (target : Target)
  | builds (builds : String → PackerBuildStatus)
  | tests (tests : String → Option AmiTestStatus)
  | http (http : String → Nat)
  | approve (who : String)
  | disapprove

def disturb (w : World) : Disturbance → World
  | .template target => { w with target }
  | .builds builds => { w with builds }
  | .tests tests => { w with tests }
  | .http http => { w with http }
  | .approve who =>
    { w.patch (fun st => { st with deploy := some { st.deploy.getD .empty with
        approvedBy := some who } }) with
      approvals := who :: w.approvals }
  | .disapprove =>
    w.patch (fun st => { st with deploy := st.deploy.map ({ · with approvedBy := none }) })

def server (spec : Spec) : Server Call CallReply World Disturbance where
  serve := serve spec
  disturb := disturb

/-- A reconcile from the version that many writes back. -/
def job (debugText : String → String) (spec : Spec) (lag : Nat) (w : World) : Job Unit :=
  reconcileImagePipeline debugText spec (w.versions.getD lag w.status) >>= fun _ => pure ()

/-! ## What a call may rest on -/

/-- The pipeline has read a template status with that pending plan, and the counts next to it,
where it shows any, are within every assertion. -/
def Reviewed (spec : Spec) (w : World) (hash : String) : Prop :=
  ∃ st ∈ w.seen, st.pendingPlanHash = some hash ∧ ∀ r, st.resources = some r →
    ∀ a ∈ spec.deploy.planAssertions, validatePlanAssertion a r = .ok ()

/-- Unless the pipeline approves by itself, somebody has approved. -/
def Approved (spec : Spec) (w : World) : Prop :=
  spec.deploy.approval.mode ≠ "auto" → w.approvals ≠ []

/-- The apply has failed, or a health check has, and that is to be rolled back. -/
def Failing (spec : Spec) (w : World) : Prop :=
  (shouldRollback spec .applyFailure = true ∧ ∃ st ∈ w.seen, st.phase = some .failed) ∨
  (shouldRollback spec .healthCheckFailure = true ∧
    ∃ st ∈ w.versions, (st.verification.map (·.allPassed)) = some false)

/-- What one version of the status promises. -/
structure Vouched (spec : Spec) (st : PipelineStatus) (w : World) : Prop where
  known : st ∈ w.versions
  reviewed : ∀ hash, st.planHash = some hash → Reviewed spec w hash
  approved : st.approvedBy.isSome → w.approvals ≠ []
  applying : st.phase = some .applying → Approved spec w
  rollingBack : st.phase = some .rollingBack → Failing spec w

/-- The image of the build, for the plan of a pipeline in Planning. -/
def Deploys (ami : String) (w : World) : Prop :=
  ∃ st ∈ w.versions, st.phase = some .planning ∧ st.build.bind (·.amiId) = some ami

/-- The image that was there before, for a pipeline that rolls back. -/
def RollsBack (spec : Spec) (ami : String) (w : World) : Prop :=
  Failing spec w ∧ ∃ st ∈ w.versions, st.phase = some .rollingBack ∧
    st.deploy.bind (·.previousAmiId) = some ami

def Allowed (spec : Spec) : Call → World → Prop
  | .approvePlan hash, w => Reviewed spec w hash ∧ Approved spec w
  | .writeDeploy d, w =>
    (∀ hash, d.planHash = some hash → Reviewed spec w hash) ∧
    (d.approvedBy.isSome → w.approvals ≠ [])
  | .writePhase .applying _, w => Approved spec w
  | .writePhase .rollingBack _, w => Failing spec w
  | .setVariable ami, w => Deploys ami w ∨ RollsBack spec ami w
  | _, _ => True

/-- The versions of the status, the template statuses and the approvals are never forgotten. -/
structure Later (w w' : World) : Prop where
  seen : w.seen <:+ w'.seen
  approvals : w.approvals <:+ w'.approvals
  versions : w'.versions = w.versions ∨ w'.versions = w'.status :: w.versions

theorem later_disturb (w : World) (x : Disturbance) : Later w (disturb w x) := by
  cases x with
  | approve who => exact ⟨List.suffix_rfl, List.suffix_cons _ _, .inr rfl⟩
  | disapprove => exact ⟨List.suffix_rfl, List.suffix_rfl, .inr rfl⟩
  | _ => exact ⟨List.suffix_rfl, List.suffix_rfl, .inl rfl⟩

theorem later_serve (spec : Spec) (c : Call) (w : World) : Later w (serve spec c w).2 := by
  cases c with
  | getTemplate => exact ⟨List.suffix_append _ _, List.suffix_rfl, .inl rfl⟩
  | writeBuild | writeTest | writeDeploy | writeVerification | writePhase =>
    exact ⟨List.suffix_rfl, List.suffix_rfl, .inr rfl⟩
  | _ => exact ⟨List.suffix_rfl, List.suffix_rfl, .inl rfl⟩

variable {spec : Spec} {w w' : World}

theorem Reviewed.later {hash : String} (h : Reviewed spec w hash) (hl : Later w w') :
    Reviewed spec w' hash := by
  obtain ⟨st, hst, hrest⟩ := h
  exact ⟨st, hl.seen.subset hst, hrest⟩

theorem Later.mem_versions (hl : Later w w') {st : PipelineStatus} (h : st ∈ w.versions) :
    st ∈ w'.versions := by
  rcases hl.versions with hv | hv
  · exact hv ▸ h
  · exact hv ▸ List.mem_cons_of_mem _ h

theorem approvals_later (h : w.approvals ≠ []) (hl : Later w w') : w'.approvals ≠ [] := by
  intro hnil
  exact h (List.suffix_nil.mp (hnil ▸ hl.approvals))

theorem Approved.later (h : Approved spec w) (hl : Later w w') : Approved spec w' :=
  fun hmode => approvals_later (h hmode) hl

theorem Failing.later (h : Failing spec w) (hl : Later w w') : Failing spec w' := by
  rcases h with ⟨ht, st, hst, hfailed⟩ | ⟨ht, st, hst, hverdict⟩
  · exact .inl ⟨ht, st, hl.seen.subset hst, hfailed⟩
  · exact .inr ⟨ht, st, hl.mem_versions hst, hverdict⟩

theorem Vouched.later {st : PipelineStatus} (h : Vouched spec st w) (hl : Later w w') :
    Vouched spec st w' where
  known := hl.mem_versions h.known
  reviewed hash hh := (h.reviewed hash hh).later hl
  approved ha := approvals_later (h.approved ha) hl
  applying hp := (h.applying hp).later hl
  rollingBack hp := (h.rollingBack hp).later hl

/-- What later states keep lasts. -/
theorem lasting_of_later {G : World → Prop} (h : ∀ w w', Later w w' → G w → G w') :
    Prog.Lasting (server spec) G where
  disturb w x := h w _ (later_disturb w x)
  serve c w := h w _ (later_serve spec c w)

/-- Every version of the status is vouched for. -/
def Invariant (spec : Spec) (w : World) : Prop := ∀ st ∈ w.versions, Vouched spec st w

theorem Invariant.grow (h : Invariant spec w) (hl : Later w w')
    (hnew : Vouched spec w'.status w') : Invariant spec w' := by
  intro st hst
  rcases hl.versions with hv | hv
  · exact (h st (hv ▸ hst)).later hl
  · rw [hv] at hst
    rcases List.mem_cons.mp hst with rfl | hst
    · exact hnew
    · exact (h st hst).later hl

theorem Invariant.status (h : Invariant spec w) : Vouched spec w.status w :=
  h _ List.mem_cons_self

theorem vouched_disturb (h : Vouched spec w.status w) (x : Disturbance) :
    Vouched spec (disturb w x).status (disturb w x) := by
  have hl := later_disturb w x
  cases x with
  | approve who =>
    refine ⟨List.mem_cons_self, fun hash hh => ?_, fun _ => List.cons_ne_nil _ _,
      (h.later hl).applying, (h.later hl).rollingBack⟩
    cases hd : w.status.deploy with
    | none =>
      simp [PipelineStatus.planHash, disturb, World.patch, hd, PipelineDeployStatus.empty] at hh
    | some d =>
      refine (h.later hl).reviewed hash ?_
      simpa [PipelineStatus.planHash, disturb, World.patch, hd] using hh
  | disapprove =>
    refine ⟨List.mem_cons_self, fun hash hh => ?_, fun ha => ?_, (h.later hl).applying,
      (h.later hl).rollingBack⟩
    · refine (h.later hl).reviewed hash ?_
      cases hd : w.status.deploy with
      | none => simp [PipelineStatus.planHash, disturb, World.patch, hd] at hh
      | some d => simpa [PipelineStatus.planHash, disturb, World.patch, hd] using hh
    · cases hd : w.status.deploy <;>
        simp [PipelineStatus.approvedBy, disturb, World.patch, hd] at ha
  | _ => exact h.later hl

theorem vouched_serve {c : Call} (hc : Allowed spec c w) (h : Vouched spec w.status w) :
    Vouched spec (serve spec c w).2.status (serve spec c w).2 := by
  have hl := later_serve spec c w
  cases c with
  | writeDeploy d =>
    refine ⟨List.mem_cons_self, fun hash hh => ?_, fun ha => ?_, (h.later hl).applying,
      (h.later hl).rollingBack⟩
    · cases hd : d.planHash with
      | some hash' =>
        obtain rfl : hash' = hash := by
          simpa [PipelineStatus.planHash, serve, World.patch, PipelineDeployStatus.onto,
            hd] using hh
        exact (hc.1 _ hd).later hl
      | none =>
        refine (h.later hl).reviewed hash ?_
        simpa [PipelineStatus.planHash, serve, World.patch, PipelineDeployStatus.onto, hd] using hh
    · cases hd : d.approvedBy with
      | some who => exact approvals_later (hc.2 (by simp [hd])) hl
      | none =>
        refine (h.later hl).approved ?_
        simpa [PipelineStatus.approvedBy, serve, World.patch, PipelineDeployStatus.onto,
          hd] using ha
  | writePhase phase message =>
    refine ⟨List.mem_cons_self, (h.later hl).reviewed, (h.later hl).approved, fun hp => ?_,
      fun hp => ?_⟩
    · obtain rfl : phase = .applying := by simpa [serve, World.patch, writePhase] using hp
      exact Approved.later hc hl
    · obtain rfl : phase = .rollingBack := by simpa [serve, World.patch, writePhase] using hp
      exact Failing.later hc hl
  | _ =>
    exact ⟨List.mem_cons_self, (h.later hl).reviewed, (h.later hl).approved, (h.later hl).applying,
      (h.later hl).rollingBack⟩

/-! ## Handlers -/

section Handlers

variable {spec : Spec} {st : PipelineStatus} {G : World → Prop} {α β : Type}

/-- Facts that stay, the snapshot's vouching among them. -/
structure Basis (spec : Spec) (st : PipelineStatus) (G : World → Prop) : Prop where
  later : ∀ w w', Later w w' → G w → G w'
  vouched : ∀ w, G w → Vouched spec st w

theorem Basis.lasting (hG : Basis spec st G) : Prog.Lasting (server spec) G :=
  lasting_of_later hG.later

/-- Every call of the program is allowed. -/
def Keeps (spec : Spec) (st : PipelineStatus) (G : World → Prop) (p : Job α) : Prop :=
  Prog.Secures (server spec) (Allowed spec) (Vouched spec st) G p (fun _ => G)

theorem keeps_pure (hG : Basis spec st G) (a : α) : Keeps spec st G (pure a) :=
  Prog.secures_ret hG.lasting (fun _ h => h)

theorem keeps_raise (hG : Basis spec st G) (e : PipelineError) :
    Keeps spec st G (.raise e : Job α) :=
  Prog.secures_raise hG.lasting hG.vouched

theorem keeps_perform (hG : Basis spec st G) {c : Call} (h : ∀ w, G w → Allowed spec c w) :
    Keeps spec st G (perform c) :=
  Prog.secures_write hG.lasting hG.vouched h

theorem Keeps.bind {p : Job α} {f : α → Job β} (hp : Keeps spec st G p)
    (hf : ∀ a, Keeps spec st G (f a)) : Keeps spec st G (p >>= f) :=
  Prog.Secures.bind hp hf

theorem Keeps.rescue {p : Job α} {f : PipelineError → Job α}
    (hp : Keeps spec st (Vouched spec st) p) (hf : ∀ e, Keeps spec st (Vouched spec st) (f e)) :
    Keeps spec st (Vouched spec st) (p.rescue f) :=
  Prog.Secures.rescue hp hf

/-- A read of a field that fails where it is absent; what follows may rest on its value. -/
theorem Keeps.orFail (hG : Basis spec st G) (message : String) (o : Option α) {f : α → Job β}
    (hf : ∀ a, o = some a → Keeps spec st G (f a)) :
    Keeps spec st G (ImagePipeline.orFail message o >>= f) := by
  cases o with
  | none => exact keeps_raise hG _
  | some a => exact hf a rfl

/-- A phase that nothing is asked of. -/
theorem keeps_setPhase (hG : Basis spec st G) {phase : PipelinePhase} (message : Option String)
    (ha : phase ≠ .applying) (hr : phase ≠ .rollingBack) :
    Keeps spec st G (setPhase phase message) := by
  refine keeps_perform hG (fun w _ => ?_)
  cases phase <;> first | exact trivial | exact absurd rfl ha | exact absurd rfl hr

theorem keeps_setApplying (hG : Basis spec st G) (message : Option String)
    (h : ∀ w, G w → Approved spec w) : Keeps spec st G (setPhase .applying message) :=
  keeps_perform hG h

theorem basis_vouched : Basis spec st (Vouched spec st) where
  later _ _ hl h := h.later hl
  vouched _ h := h

theorem keeps_handlePending : Keeps spec st (Vouched spec st) (handlePending spec) :=
  (keeps_perform basis_vouched (by exact fun _ _ => trivial)).bind fun _ =>
    (keeps_perform basis_vouched (by exact fun _ _ => trivial)).bind fun _ =>
      (keeps_setPhase basis_vouched _ (by decide) (by decide)).bind fun _ =>
        keeps_pure basis_vouched _

theorem keeps_handleBuilding : Keeps spec st (Vouched spec st) (handleBuilding spec st) := by
  refine Keeps.orFail basis_vouched _ _ fun buildRef _ => ?_
  refine (keeps_perform basis_vouched (by exact fun _ _ => trivial)).bind fun pb => ?_
  split
  · refine Keeps.orFail basis_vouched _ _ fun ami _ => ?_
    refine (keeps_perform basis_vouched (by exact fun _ _ => trivial)).bind fun _ => ?_
    refine (keeps_setPhase basis_vouched _ ?_ ?_).bind fun _ => keeps_pure basis_vouched _
    · split <;> decide
    · split <;> decide
  · exact keeps_raise basis_vouched _
  · exact keeps_pure basis_vouched _

theorem keeps_handleTesting : Keeps spec st (Vouched spec st) (handleTesting spec) := by
  unfold handleTesting
  split
  · refine (keeps_perform basis_vouched (by exact fun _ _ => trivial)).bind fun test => ?_
    split
    · refine (keeps_perform basis_vouched (by exact fun _ _ => trivial)).bind fun _ => ?_
      exact (keeps_perform basis_vouched (by exact fun _ _ => trivial)).bind fun _ =>
        keeps_pure basis_vouched _
    · split
      · refine (keeps_perform basis_vouched (by exact fun _ _ => trivial)).bind fun _ => ?_
        exact (keeps_setPhase basis_vouched _ (by decide) (by decide)).bind fun _ =>
          keeps_pure basis_vouched _
      · exact keeps_raise basis_vouched _
      · exact keeps_raise basis_vouched _
      · exact keeps_pure basis_vouched _
  · exact keeps_raise basis_vouched _

theorem mode_of_auto {debugText : String → String} {a : ApprovalMode}
    (h : a.kind debugText = .ok .auto) : a.mode = "auto" := by
  unfold ApprovalMode.kind at h
  split at h
  · assumption
  all_goals cases h

theorem validatePlan_ok {status : TargetStatus} (h : validatePlan spec status = .ok ()) :
    ∀ r, status.resources = some r → ∀ a ∈ spec.deploy.planAssertions,
      validatePlanAssertion a r = .ok () := by
  intro r hr
  unfold validatePlan at h
  rw [hr] at h
  revert h
  generalize spec.deploy.planAssertions = as
  intro h
  induction as with
  | nil => simp
  | cons a as ih =>
    obtain ⟨u, ha, has⟩ := bind_eq_ok (show validatePlanAssertion a r >>= (fun _ =>
      as.forM (validatePlanAssertion · r)) = .ok () from h)
    rintro b (_ | ⟨_, hb⟩)
    · exact ha
    · exact ih has b hb

theorem keeps_recordPlan (debugText : String → String) {status : TargetStatus} {hash : String}
    (hpending : status.pendingPlanHash = some hash) :
    Keeps spec st (fun w => Vouched spec st w ∧ status ∈ w.seen)
      (recordPlan debugText spec st status hash) := by
  have hG : Basis spec st (fun w => Vouched spec st w ∧ status ∈ w.seen) :=
    ⟨fun _ _ hl h => ⟨h.1.later hl, hl.seen.subset h.2⟩, fun _ h => h.1⟩
  unfold recordPlan
  cases hv : validatePlan spec status with
  | error e => exact keeps_raise hG _
  | ok u =>
    have hchecked := validatePlan_ok hv
    refine (keeps_pure hG ()).bind fun _ => ?_
    refine (keeps_perform hG ?_).bind fun _ => ?_
    · refine fun w hw => ⟨fun h hh => ?_, fun ha => hw.1.approved ?_⟩
      · obtain rfl : hash = h := Option.some.inj hh
        exact ⟨status, hw.2, hpending, hchecked⟩
      · unfold PipelineStatus.approvedBy
        cases hd : st.deploy <;> simp_all [PipelineDeployStatus.empty]
    · split
      · next hk =>
        exact (keeps_setApplying hG _ (fun _ _ hmode => absurd (mode_of_auto hk) hmode)).bind
          fun _ => keeps_pure hG _
      · exact (keeps_setPhase hG _ (by decide) (by decide)).bind fun _ => keeps_pure hG _
      · exact keeps_raise hG _
      · exact keeps_raise hG _

/-- What was read of the template is not forgotten. -/
theorem secures_getTemplate :
    Prog.Secures (server spec) (Allowed spec) (Vouched spec st) (Vouched spec st)
      (perform .getTemplate)
      (fun t w => Vouched spec st w ∧ ∀ status, t.status = some status → status ∈ w.seen) := by
  refine Prog.secures_perform (c := Call.getTemplate)
    (K := fun t w => ∀ status, t.status = some status → status ∈ w.seen)
    basis_vouched.lasting (fun _ h => h) (fun _ _ => trivial) (fun t => ?_) ?_
  · exact lasting_of_later (fun _ _ hl h status hs => hl.seen.subset (h status hs))
  · intro w _ status hs
    simp only [server, serve] at hs ⊢
    simp [hs]

theorem keeps_handlePlanning (debugText : String → String) (hphase : st.phase = some .planning) :
    Keeps spec st (Vouched spec st) (handlePlanning debugText spec st) := by
  refine Keeps.orFail basis_vouched _ _ fun ami hami => ?_
  refine (keeps_perform basis_vouched (by exact fun _ _ => trivial)).bind fun before => ?_
  have hdeploys : ∀ w, Vouched spec st w → Allowed spec (.setVariable ami) w :=
    fun w hw => .inl ⟨st, hw.known, hphase, hami⟩
  refine (keeps_perform basis_vouched hdeploys).bind fun _ => ?_
  refine (keeps_perform basis_vouched (by exact fun _ _ => ⟨nofun, nofun⟩)).bind fun _ => ?_
  refine Prog.Secures.bind secures_getTemplate fun t => ?_
  have hret : Prog.Secures (server spec) (Allowed spec) (Vouched spec st)
        (fun w => Vouched spec st w ∧ ∀ status, t.status = some status → status ∈ w.seen)
        (pure (.requeue shortRequeueInterval) : Job ReconcileAction) (fun _ => Vouched spec st) :=
      (keeps_pure basis_vouched _).of_imp (fun _ h => h.1)
  cases ht : t.status with
  | none => simpa [ht] using hret
  | some status =>
    cases hp : status.pendingPlanHash with
    | none => simpa [ht, hp] using hret
    | some hash =>
      simp only [hp]
      refine ((keeps_recordPlan debugText hp).of_imp (fun w h => ?_)).mono (fun _ _ h => h.1)
      exact ⟨h.1, h.2 status rfl⟩

theorem keeps_handleAwaitingApproval :
    Keeps spec st (Vouched spec st) (handleAwaitingApproval st) := by
  unfold handleAwaitingApproval
  split
  · next ha =>
    exact (keeps_setApplying basis_vouched _ (fun w hw _ => hw.approved ha)).bind fun _ =>
      keeps_pure basis_vouched _
  · exact keeps_pure basis_vouched _

theorem keeps_approveReviewed (hp : st.phase = some .applying) (status : TargetStatus)
    (pending : String) : Keeps spec st (Vouched spec st) (approveReviewed st status pending) := by
  unfold approveReviewed
  split
  · exact keeps_pure basis_vouched _
  · split
    · next hm =>
      refine (keeps_perform basis_vouched ?_).bind fun _ => keeps_pure basis_vouched _
      have hplan : st.planHash = some pending := by
        simpa [planHashMatchesReviewed, PipelineStatus.planHash] using hm
      exact fun w hw => ⟨hw.reviewed _ hplan, hw.applying hp⟩
    · exact (keeps_setPhase basis_vouched _ (by decide) (by decide)).bind fun _ =>
        keeps_pure basis_vouched _

theorem keeps_handleApplying (hp : st.phase = some .applying) :
    Keeps spec st (Vouched spec st) (handleApplying spec st) := by
  refine Prog.Secures.bind secures_getTemplate fun t => ?_
  have hG : Basis spec st
      (fun w => Vouched spec st w ∧ ∀ status, t.status = some status → status ∈ w.seen) :=
    ⟨fun _ _ hl h => ⟨h.1.later hl, fun s hs => hl.seen.subset (h.2 s hs)⟩, fun _ h => h.1⟩
  have hdrop : ∀ {p : Job ReconcileAction}, Keeps spec st (Vouched spec st) p →
      Prog.Secures (server spec) (Allowed spec) (Vouched spec st)
        (fun w => Vouched spec st w ∧ ∀ status, t.status = some status → status ∈ w.seen) p
        (fun _ => Vouched spec st) := fun h => Prog.Secures.of_imp h (fun _ hw => hw.1)
  split
  · refine hdrop ((keeps_setPhase basis_vouched _ ?_ ?_).bind fun _ => keeps_pure basis_vouched _)
    · split <;> decide
    · split <;> decide
  · next hfailed =>
    split
    · next h =>
      refine Prog.Secures.mono (Keeps.bind (keeps_perform hG fun w hw => ?_)
        fun _ => keeps_pure hG _) (fun _ _ hw => hw.1)
      obtain ⟨status, hs, hphase⟩ : ∃ status, t.status = some status ∧
          status.phase = some .failed := by
        cases ht : t.status with
        | none => simp [ht] at hfailed
        | some status => cases hph : status.phase <;> simp_all
      exact .inl ⟨h, status, hw.2 status hs, hphase⟩
    · exact hdrop (keeps_raise basis_vouched _)
  · split
    · exact hdrop (keeps_pure basis_vouched _)
    · split
      · exact hdrop (keeps_pure basis_vouched _)
      · exact hdrop (keeps_approveReviewed hp _ _)
  · exact hdrop (keeps_pure basis_vouched _)

theorem keeps_probe (check : HealthCheckType) :
    Keeps spec st (Vouched spec st) (probe check) := by
  unfold probe
  split
  · exact (keeps_perform basis_vouched (by exact fun _ _ => trivial)).bind fun _ =>
      keeps_pure basis_vouched _
  · exact (keeps_perform basis_vouched (by exact fun _ _ => trivial)).bind fun _ =>
      keeps_pure basis_vouched _
  · exact keeps_pure basis_vouched _

theorem keeps_attempts (check : HealthCheck) (left attempt : Nat) :
    Keeps spec st (Vouched spec st) (attempts check left attempt) := by
  induction left generalizing attempt with
  | zero => exact keeps_pure basis_vouched _
  | succ left ih =>
    refine ((keeps_probe _).rescue fun _ => keeps_pure basis_vouched _).bind fun passed => ?_
    split
    · exact keeps_pure basis_vouched _
    · exact ih _

theorem keeps_runHealthChecks (checks : List HealthCheck) :
    Keeps spec st (Vouched spec st) (runHealthChecks checks) := by
  induction checks with
  | nil => exact keeps_pure basis_vouched _
  | cons check checks ih =>
    exact (keeps_attempts _ _ _).bind fun _ => ih.bind fun _ => keeps_pure basis_vouched _

/-- A version of the status has that verdict. -/
def Verified (spec : Spec) (st : PipelineStatus) (passed : Bool) (w : World) : Prop :=
  Vouched spec st w ∧ ∃ s ∈ w.versions, s.verification.map (·.allPassed) = some passed

theorem basis_verified {passed : Bool} : Basis spec st (Verified spec st passed) where
  later _ _ hl h := ⟨h.1.later hl, h.2.imp fun _ hs => ⟨hl.mem_versions hs.1, hs.2⟩⟩
  vouched _ h := h.1

theorem secures_writeVerification (d : PipelineVerificationStatus) :
    Prog.Secures (server spec) (Allowed spec) (Vouched spec st) (Vouched spec st)
      (perform (.writeVerification d)) (fun _ => Verified spec st d.allPassed) := by
  refine Prog.secures_perform (c := Call.writeVerification d)
    (K := fun _ w => ∃ s ∈ w.versions, s.verification.map (·.allPassed) = some d.allPassed)
    basis_vouched.lasting (fun _ h => h) (fun _ _ => trivial) (fun _ => ?_) (fun w _ => ?_)
  · exact lasting_of_later (fun _ _ hl h => h.imp fun _ hs => ⟨hl.mem_versions hs.1, hs.2⟩)
  · exact ⟨_, List.mem_cons_self, rfl⟩

theorem keeps_handleVerifying : Keeps spec st (Vouched spec st) (handleVerifying spec) := by
  refine (keeps_runHealthChecks _).bind fun results => ?_
  have hend : ∀ {passed : Bool} {p : Job Unit}, Keeps spec st (Verified spec st passed) p →
      Prog.Secures (server spec) (Allowed spec) (Vouched spec st) (Verified spec st passed)
        (p >>= fun _ => pure (ReconcileAction.requeue shortRequeueInterval))
        (fun _ => Vouched spec st) :=
    fun hp => Prog.Secures.mono (hp.bind fun _ => keeps_pure basis_verified _) (fun _ _ hw => hw.1)
  refine Prog.Secures.bind (secures_writeVerification _) fun _ => ?_
  split
  · exact hend (keeps_setPhase basis_verified _ (by decide) (by decide))
  · next hpassed =>
    split
    · next h =>
      refine hend (keeps_perform basis_verified fun w hw => .inr ⟨h, ?_⟩)
      simpa [Bool.eq_false_iff.mpr hpassed] using hw.2
    · exact hend (keeps_setPhase basis_verified _ (by decide) (by decide))

theorem keeps_handleRollingBack (hphase : st.phase = some .rollingBack) :
    Keeps spec st (Vouched spec st) (handleRollingBack st) := by
  refine Keeps.orFail basis_vouched _ _ fun previous hprevious => ?_
  have hback : ∀ w, Vouched spec st w → Allowed spec (.setVariable previous) w :=
    fun w hw => .inr ⟨hw.rollingBack hphase, st, hw.known, hphase, hprevious⟩
  refine (keeps_perform basis_vouched hback).bind fun _ => ?_
  exact (keeps_setPhase basis_vouched _ (by decide) (by decide)).bind fun _ =>
    keeps_pure basis_vouched _

theorem keeps_handlePhase (debugText : String → String) :
    Keeps spec st (Vouched spec st)
      (handlePhase debugText spec st (st.phase.getD .pending)) := by
  cases hp : st.phase.getD .pending with
  | pending => exact keeps_handlePending
  | building => exact keeps_handleBuilding
  | testing => exact keeps_handleTesting
  | planning =>
    refine keeps_handlePlanning debugText ?_
    cases hs : st.phase <;> simp_all
  | awaitingApproval => exact keeps_handleAwaitingApproval
  | applying =>
    refine keeps_handleApplying ?_
    cases hs : st.phase <;> simp_all
  | verifying => exact keeps_handleVerifying
  | completed => exact keeps_pure basis_vouched _
  | failed => exact keeps_pure basis_vouched _
  | rollingBack =>
    refine keeps_handleRollingBack ?_
    cases hs : st.phase <;> simp_all

theorem keeps_reconcileImagePipeline (debugText : String → String) :
    Keeps spec st (Vouched spec st) (reconcileImagePipeline debugText spec st) := by
  unfold reconcileImagePipeline
  split
  · exact keeps_pure basis_vouched _
  · refine (keeps_handlePhase debugText).rescue fun e => ?_
    refine ((keeps_setPhase basis_vouched _ (by decide) (by decide)).rescue fun _ =>
      keeps_pure basis_vouched _).bind fun _ => keeps_pure basis_vouched _

end Handlers

/-! ## Runs -/

abbrev PipelineMove := Move Disturbance Nat PipelineError

abbrev PipelineWorker := Worker Call CallReply PipelineError World

def pipelineMove (debugText : String → String) (spec : Spec) :
    PipelineWorker → PipelineMove → PipelineWorker :=
  Worker.move (server spec) (job debugText spec)

/-- Nothing of the pipeline is written yet, and nothing is in flight. -/
structure Fresh (w : World) : Prop where
  status : w.status = .empty
  past : w.past = []

theorem Fresh.invariant {spec : Spec} {w : World} (h : Fresh w) : Invariant spec w := by
  intro st hst
  obtain rfl : st = .empty := by simpa [World.versions, h.status, h.past] using hst
  exact ⟨hst, nofun, nofun, nofun, nofun⟩

theorem Invariant.versions_getD {spec : Spec} {w : World} (h : Invariant spec w) (lag : Nat) :
    Vouched spec (w.versions.getD lag w.status) w := by
  rw [List.getD_eq_getElem?_getD]
  cases hl : w.versions[lag]? with
  | none => exact h.status
  | some st => exact h st (List.mem_of_getElem? hl)

theorem safe_job (debugText : String → String) (spec : Spec) (lag : Nat) {w : World}
    (h : Invariant spec w) :
    (job debugText spec lag w).Safe (server spec) (Allowed spec) (fun _ _ => True)
      (fun _ _ => True) w :=
  (Keeps.bind (keeps_reconcileImagePipeline debugText) (fun _ => keeps_pure basis_vouched ()) w
    (h.versions_getD lag)).mono (fun _ _ _ => trivial) (fun _ _ _ => trivial)

theorem invariant_disturb {spec : Spec} (w : World) (x : Disturbance) (h : Invariant spec w) :
    Invariant spec (disturb w x) :=
  h.grow (later_disturb w x) (vouched_disturb h.status x)

theorem invariant_serve {spec : Spec} (c : Call) (w : World) (hc : Allowed spec c w)
    (h : Invariant spec w) : Invariant spec (serve spec c w).2 :=
  h.grow (later_serve spec c w) (vouched_serve hc h.status)

/-- Every call that takes effect in a run is allowed. -/
theorem along_allowed (debugText : String → String) (spec : Spec) {w : World} (h : Fresh w)
    (ms : List PipelineMove) :
    Along (pipelineMove debugText spec) ⟨w, none⟩ ms
      (fun u m => ∀ c, u.effect m = some c → Allowed spec c u.state) := by
  unfold pipelineMove
  exact Worker.along_ok invariant_disturb invariant_serve
    (fun lag _ => safe_job debugText spec lag) h.invariant ms

/-- Whatever the neighbours do: a plan that the pipeline approves is one it has read, with the
counts, where any were shown, within its assertions; and unless it approves by itself, somebody
has approved. -/
theorem approves_reviewed (debugText : String → String) (spec : Spec) {w : World} (h : Fresh w)
    (ms : List PipelineMove) :
    Along (pipelineMove debugText spec) ⟨w, none⟩ ms
      (fun u m => ∀ hash, u.effect m = some (.approvePlan hash) →
        Reviewed spec u.state hash ∧ Approved spec u.state) := by
  intro pre m post hms hash heffect
  exact along_allowed debugText spec h ms pre m post hms _ heffect

/-- A pipeline that waits for an approval, and whose plan may destroy nothing. -/
def manualSpec : Spec where
  name := "web"
  hasTest := false
  deploy := ⟨"ami", ⟨"manual", none⟩, [⟨"keeps", ⟨some 0, none, none⟩⟩], [],
    some ⟨true, [.applyFailure]⟩⟩
  suspend := false

def targetIn (phase : Phase) (pending : Option String) : Target where
  specVariables := [("ami", .str "ami-1")]
  status := some ⟨some phase, some "1 to change", pending, none, some ⟨1, 0, 1, 0⟩, none⟩

/-- The build is done and the plan `h1` waits. -/
def builtWorld : World where
  status := .empty
  past := []
  target := targetIn .planning (some "h1")
  builds := fun _ => ⟨some .ready, some "ami-2", some "eu-west-1", none⟩
  tests := fun _ => none
  http := fun _ => 0
  seen := []
  approvals := []

theorem fresh_builtWorld : Fresh builtWorld := ⟨rfl, rfl⟩

/-- A reconcile with so many calls, from the current snapshot. -/
def reconcileMoves (calls : Nat) : List PipelineMove :=
  .start 0 :: List.replicate (calls + 1) .reply

def awaitingMoves : List PipelineMove :=
  reconcileMoves 3 ++ (reconcileMoves 3 ++ reconcileMoves 6)

def approvedMoves : List PipelineMove :=
  awaitingMoves ++ (.disturb (.approve "ops") :: (reconcileMoves 1 ++ [.start 0, .reply]))

theorem approves_reviewed_manual :
    (run (pipelineMove id manualSpec) ⟨builtWorld, none⟩ approvedMoves).waiting =
        some (.approvePlan "h1") ∧
      Along (pipelineMove id manualSpec) ⟨builtWorld, none⟩ (approvedMoves ++ [.reply])
        (fun u m => ∀ hash, u.effect m = some (.approvePlan hash) →
          Reviewed manualSpec u.state hash ∧ Approved manualSpec u.state) :=
  ⟨by decide +kernel, approves_reviewed id manualSpec fresh_builtWorld _⟩

/-- A rollback follows a template read as failed, or a stored verification that did not pass,
with the trigger for it; the trigger for a failed plan assertion never rolls anything back. And
the image of the template is only replaced by the build's in Planning, or by the previous one in
a rollback. -/
theorem rolls_back_only_on (debugText : String → String) (spec : Spec) {w : World} (h : Fresh w)
    (ms : List PipelineMove) :
    Along (pipelineMove debugText spec) ⟨w, none⟩ ms
      (fun u m =>
        (∀ message, u.effect m = some (.writePhase .rollingBack message) →
          Failing spec u.state) ∧
        ∀ ami, u.effect m = some (.setVariable ami) →
          Deploys ami u.state ∨ RollsBack spec ami u.state) := by
  intro pre m post hms
  have hallowed := along_allowed debugText spec h ms pre m post hms
  exact ⟨fun message heffect => hallowed _ heffect, fun ami heffect => hallowed _ heffect⟩

def failedMoves : List PipelineMove :=
  awaitingMoves ++ (.disturb (.approve "ops") :: (reconcileMoves 1 ++
    [.disturb (.template (targetIn .failed none)), .start 0, .reply]))

theorem rolls_back_only_on_failed :
    (run (pipelineMove id manualSpec) ⟨builtWorld, none⟩ failedMoves).waiting =
        some (.writePhase .rollingBack none) ∧
      Along (pipelineMove id manualSpec) ⟨builtWorld, none⟩ (failedMoves ++ [.reply])
        (fun u m =>
          (∀ message, u.effect m = some (.writePhase .rollingBack message) →
            Failing manualSpec u.state) ∧
          ∀ ami, u.effect m = some (.setVariable ami) →
            Deploys ami u.state ∨ RollsBack manualSpec ami u.state) :=
  ⟨by decide +kernel, rolls_back_only_on id manualSpec fresh_builtWorld _⟩

end PangeaOperator.ImagePipeline
