import PangeaOperator.Dependency
import PangeaOperator.Lib.Run

/-!
# The render an apply executes

A compile resolves the references of a template and keeps its render; planning and
applying use what is kept, each behind the dispatch gate. Meanwhile the upstreams change
their outputs. A run is any interleaving of these.
-/

namespace PangeaOperator

open Json

/-- What a template's references are resolved from. -/
structure ReferringTemplate where
  name : String
  namespace_ : Option String
  refs : List (String × VariableRef)
  distinct : (refs.map Prod.fst).Nodup

namespace ReferringTemplate

/-- The namespace a reference without one is resolved in. -/
def own (t : ReferringTemplate) : String := t.namespace_.getD "default"

/-- The namespace the gate resolves it in. -/
def gateOwn (t : ReferringTemplate) : String := t.namespace_.getD ""

def blocked (t : ReferringTemplate) (read : TemplateKey → Option Members) (applying : Bool) :
    Bool :=
  !(blockedUpstreams read t.gateOwn t.name t.refs applying).isEmpty

end ReferringTemplate

/-- The outputs as they are read when some reads fail. -/
def readExcept (failed : List TemplateKey) (outputs : TemplateKey → Option Members)
    (key : TemplateKey) : Option Members :=
  if key ∈ failed then none else outputs key

/-- A reconcile in Compiling: the reads that fail at the gate and in the fetch, whether the body is
Terraform JSON already, and the other variables. -/
structure Compile where
  gateFailed : List TemplateKey := []
  failed : List TemplateKey := []
  json : Bool := false
  inherited : Members := []
  credentials : Members := []
  secrets : Members := []

/-- The values of the variables that a compile was given, with that compile and the outputs there
were. -/
structure Render where
  values : Members
  compile : Compile
  outputs : TemplateKey → Option Members

namespace Render

def secrets (r : Render) : List String := r.compile.secrets.map Prod.fst

/-- The outputs its compile read. -/
def read (r : Render) : TemplateKey → Option Members := readExcept r.compile.failed r.outputs

end Render

/-- Secret variables replace the others, references what is inherited, and a credential is only
added. JSON takes no variables, and a reference with neither output nor mock waits. -/
def handleCompiling (t : ReferringTemplate) (outputs : TemplateKey → Option Members) (c : Compile) :
    Option Render :=
  if c.json then some ⟨[], c, outputs⟩
  else
    let resolution := resolveTemplateDependencies (readExcept c.failed outputs) t.own t.refs
    if resolution.unresolvedTemplates = [] then
      some ⟨c.secrets ++ (resolution.allVariables ++ (c.inherited ++ c.credentials)), c, outputs⟩
    else none

/-- The outputs of all templates, the kept render, the render of the kept plan, and the renders
that were applied. -/
structure World where
  outputs : TemplateKey → Option Members
  render : Option Render := none
  plan : Option Render := none
  applied : List Render := []

/-- An upstream changes its outputs, a phase is dispatched, or the workspace is cleaned. An apply
takes the kept plan, where it is `cached`, or plans the render itself. -/
inductive RenderEvent where
  | upstream (key : TemplateKey) (outputs : Option Members)
  | compile (c : Compile)
  | plan (failed : List TemplateKey)
  | apply (failed : List TemplateKey) (cached : Bool)
  | clean

/-- The render an apply would execute. -/
def World.executes (w : World) (cached : Bool) : Option Render :=
  w.render.map (fun render => if cached then w.plan.getD render else render)

def renderStep (t : ReferringTemplate) (w : World) : RenderEvent → World
  | .upstream key outputs => { w with outputs := Function.update w.outputs key outputs }
  | .compile c =>
    if t.blocked (readExcept c.gateFailed w.outputs) false then w
    else { w with render := (handleCompiling t w.outputs c).or w.render }
  | .plan failed =>
    if t.blocked (readExcept failed w.outputs) false then w
    else { w with plan := w.render.or w.plan }
  | .apply failed cached =>
    if t.blocked (readExcept failed w.outputs) true then w
    else { w with applied := (w.executes cached).toList ++ w.applied }
  | .clean => { w with render := none, plan := none }

/-- Every reference has the output that the upstream it names had when the render was made. -/
def Render.Real (t : ReferringTemplate) (r : Render) : Prop :=
  ∀ entry ∈ t.refs, entry.1 ∉ r.secrets → ∀ v, lookup entry.1 r.values = some v →
    entry.2.output r.read t.own = some v

/-- Whatever output a reference with a mock has when an apply is dispatched, the compile that the
executed render comes from had read one. -/
def OutputsAtCompile (t : ReferringTemplate) (w : World) (e : RenderEvent) : Prop :=
  ∀ failed cached, e = .apply failed cached →
    t.blocked (readExcept failed w.outputs) true = false →
    ∀ r, w.executes cached = some r → r.compile.json = false →
      ∀ entry ∈ t.refs, entry.1 ∉ r.secrets → entry.2.mockOutput ≠ none →
        entry.2.output (readExcept failed w.outputs) t.gateOwn ≠ none →
        entry.2.output r.read t.own ≠ none

section Run

variable {t : ReferringTemplate}

/-- The render of some compile. -/
def Render.Compiled (t : ReferringTemplate) (r : Render) : Prop :=
  handleCompiling t r.outputs r.compile = some r

theorem compiled_of_handleCompiling {outputs : TemplateKey → Option Members} {c : Compile}
    {r : Render} (h : handleCompiling t outputs c = some r) : r.Compiled t := by
  have hsame : r.compile = c ∧ r.outputs = outputs := by
    unfold handleCompiling at h
    dsimp only at h
    split at h
    · cases h
      exact ⟨rfl, rfl⟩
    · split at h
      · cases h
        exact ⟨rfl, rfl⟩
      · cases h
  rwa [Render.Compiled, hsame.1, hsame.2]

/-- A compile that takes variables gives each reference its output, or else its mock. -/
theorem Render.Compiled.lookup_values {r : Render} (h : r.Compiled t)
    (hj : r.compile.json = false) (hn : NamesAgree t.own t.refs) {entry : String × VariableRef}
    (he : entry ∈ t.refs) (hs : entry.1 ∉ r.secrets) :
    (entry.2.output r.read t.own ≠ none ∨ entry.2.mockOutput ≠ none) ∧
      lookup entry.1 r.values = (entry.2.output r.read t.own).or entry.2.mockOutput := by
  unfold Render.Compiled handleCompiling at h
  simp only [hj, Bool.false_eq_true, if_false] at h
  split at h
  · next hresolved =>
    have hdep : (entry.1, entry.2.dep) ∈ t.refs.map (fun entry => (entry.1, entry.2.dep)) :=
      List.mem_map.mpr ⟨entry, he, rfl⟩
    have hout : entry.2.dep.output (fetchUpstreams r.read t.own [] t.refs) =
        entry.2.output r.read t.own := output_fetchUpstreams hn he
    have hkeys : ((t.refs.map (fun entry => (entry.1, entry.2.dep))).map Prod.fst).Nodup := by
      rw [List.map_map]
      exact t.distinct
    have hsome := (unresolvedTemplates_eq_nil_iff _ _).mp hresolved _ hdep
    change entry.2.dep.output (fetchUpstreams r.read t.own [] t.refs) ≠ none ∨
      entry.2.mockOutput ≠ none at hsome
    rw [hout] at hsome
    have hlookup := @lookup_allVariables _ hkeys (fetchUpstreams r.read t.own [] t.refs) _ _ hdep
    rw [hout] at hlookup
    refine ⟨hsome, ?_⟩
    have hvalues : r.values = r.compile.secrets ++
        ((resolveTemplateDependencies r.read t.own t.refs).allVariables ++
          (r.compile.inherited ++ r.compile.credentials)) :=
      (congrArg Render.values (Option.some.inj h)).symm
    rw [hvalues, lookup_append, lookup_eq_none_iff.mpr hs, Option.none_or, lookup_append,
      resolveTemplateDependencies, hlookup]
    cases hv : entry.2.output r.read t.own with
    | some v => rfl
    | none =>
      obtain ⟨mock, hmock⟩ := Option.ne_none_iff_exists'.mp (hsome.resolve_left (· hv))
      change (entry.2.mockOutput.or _) = entry.2.mockOutput
      rw [hmock, Option.some_or]
  · cases h

/-- A render is real exactly where its compile used no mock. -/
theorem Render.Compiled.real_iff {r : Render} (h : r.Compiled t) (hn : NamesAgree t.own t.refs) :
    r.Real t ↔ (r.compile.json = false → ∀ entry ∈ t.refs, entry.1 ∉ r.secrets →
      entry.2.mockOutput ≠ none → entry.2.output r.read t.own ≠ none) := by
  constructor
  · intro hreal hj entry he hs hmock hnone
    have hlookup := (h.lookup_values hj hn he hs).2
    rw [hnone, Option.none_or] at hlookup
    obtain ⟨mock, hsome⟩ := Option.ne_none_iff_exists'.mp hmock
    have hout := hreal entry he hs mock (hlookup.trans hsome)
    rw [hnone] at hout
    cases hout
  · intro hread entry he hs v hv
    cases hj : r.compile.json with
    | true =>
      have hvalues : r.values = [] := by
        unfold Render.Compiled handleCompiling at h
        rw [hj, if_pos rfl] at h
        exact (congrArg Render.values (Option.some.inj h)).symm
      rw [hvalues] at hv
      cases hv
    | false =>
      obtain ⟨hsome, hlookup⟩ := h.lookup_values hj hn he hs
      have hout : entry.2.output r.read t.own ≠ none := by
        rcases hsome with hout | hmock
        · exact hout
        · exact hread hj entry he hs hmock
      obtain ⟨v', hv'⟩ := Option.ne_none_iff_exists'.mp hout
      rw [hv', Option.some_or, hv] at hlookup
      rw [hv', Option.some.inj hlookup]

/-- Whatever is kept comes from a compile. -/
structure AllCompiled (t : ReferringTemplate) (w : World) : Prop where
  render : ∀ r, w.render = some r → r.Compiled t
  plan : ∀ r, w.plan = some r → r.Compiled t

theorem compiled_or {a b : Option Render} (ha : ∀ r, a = some r → r.Compiled t)
    (hb : ∀ r, b = some r → r.Compiled t) : ∀ r, a.or b = some r → r.Compiled t := by
  intro r hr
  cases a with
  | some x => exact ha r hr
  | none => exact hb r hr

theorem allCompiled_renderStep (w : World) (e : RenderEvent) (h : AllCompiled t w) :
    AllCompiled t (renderStep t w e) := by
  cases e with
  | upstream key outputs => exact ⟨h.render, h.plan⟩
  | clean => exact ⟨by simp [renderStep], by simp [renderStep]⟩
  | compile c =>
    simp only [renderStep]
    split
    · exact h
    · exact ⟨compiled_or (fun r hr => compiled_of_handleCompiling hr) h.render, h.plan⟩
  | plan failed =>
    simp only [renderStep]
    split
    · exact h
    · exact ⟨h.render, compiled_or h.render h.plan⟩
  | apply failed cached =>
    simp only [renderStep]
    split
    · exact h
    · exact ⟨h.render, h.plan⟩

theorem AllCompiled.executes {w : World} (h : AllCompiled t w) {cached : Bool} {r : Render}
    (hr : w.executes cached = some r) : r.Compiled t := by
  obtain ⟨render, hrender, rfl⟩ := Option.map_eq_some_iff.mp hr
  have hcompiled := h.render render hrender
  cases cached with
  | false => exact hcompiled
  | true =>
    cases hp : w.plan with
    | none => exact hcompiled
    | some plan => exact h.plan plan hp

/-- An apply that the gate lets through executes a real render exactly where no mocked reference
got its output since the compile. -/
theorem applied_renderStep_iff (hn : NamesAgree t.own t.refs) {w : World} (h : AllCompiled t w)
    (e : RenderEvent) :
    (∀ r ∈ (renderStep t w e).applied, r.Real t) ↔
      (∀ r ∈ w.applied, r.Real t) ∧ OutputsAtCompile t w e := by
  cases e with
  | upstream key outputs => simp [renderStep, OutputsAtCompile]
  | clean => simp [renderStep, OutputsAtCompile]
  | compile c =>
    simp only [renderStep]
    split <;> simp [OutputsAtCompile]
  | plan failed =>
    simp only [renderStep]
    split <;> simp [OutputsAtCompile]
  | apply failed cached =>
    cases hblocked : t.blocked (readExcept failed w.outputs) true with
    | true =>
      have hkept : renderStep t w (.apply failed cached) = w := if_pos hblocked
      rw [hkept]
      refine (and_iff_left ?_).symm
      rintro _ _ ⟨⟩ hfree
      rw [hblocked] at hfree
      cases hfree
    | false =>
      have hnow {entry : String × VariableRef} (he : entry ∈ t.refs) :
          entry.2.output (readExcept failed w.outputs) t.gateOwn ≠ none := by
        have hopen : blockedUpstreams (readExcept failed w.outputs) t.gateOwn t.name t.refs true =
            [] := by simpa [ReferringTemplate.blocked] using hblocked
        exact output_of_not_blocked hopen he
      have hreal {r : Render} (hr : w.executes cached = some r) := (h.executes hr).real_iff hn
      have hstep : renderStep t w (.apply failed cached) =
          { w with applied := (w.executes cached).toList ++ w.applied } :=
        if_neg (by simp [hblocked])
      rw [hstep, List.forall_mem_append, and_comm]
      refine and_congr_right fun _ => ⟨fun hall => ?_, fun hread r hr => ?_⟩
      · rintro _ _ ⟨⟩ _ r hr hj entry he hs hmock _
        exact (hreal hr).mp (hall r (Option.mem_toList.mpr hr)) hj entry he hs hmock
      · have hr' := Option.mem_toList.mp hr
        refine (hreal hr').mpr fun hj entry he hs hmock => ?_
        exact hread failed cached rfl hblocked r hr' hj entry he hs hmock (hnow he)

theorem applied_run_iff (hn : NamesAgree t.own t.refs) {w : World} (h : AllCompiled t w)
    (events : List RenderEvent) :
    (∀ r ∈ (run (renderStep t) w events).applied, r.Real t) ↔
      (∀ r ∈ w.applied, r.Real t) ∧ Along (renderStep t) w events (OutputsAtCompile t) := by
  induction events generalizing w with
  | nil => simp [along_nil]
  | cons e events ih =>
    rw [run_cons, ih (allCompiled_renderStep w e h), applied_renderStep_iff hn h, along_cons_iff,
      and_assoc]

/-- Where the references to one name agree on its namespace, the applied renders of a run are real
exactly if at each apply that the gate lets through, no mocked reference has an output by now that
the compile of the executed render did not read. -/
theorem applied_renders_are_real_iff (hn : NamesAgree t.own t.refs)
    (outputs : TemplateKey → Option Members) (events : List RenderEvent) :
    (∀ r ∈ (run (renderStep t) { outputs } events).applied, r.Real t) ↔
      Along (renderStep t) { outputs } events (OutputsAtCompile t) := by
  have hstart : AllCompiled t { outputs } := ⟨by simp, by simp⟩
  rw [applied_run_iff hn hstart]
  simp

end Run

/-- A template that takes the id of a network, with a mock for it. -/
def appTemplate : ReferringTemplate where
  name := "app"
  namespace_ := some "prod"
  refs := [("vpc_id", ⟨⟨"vpc", none⟩, "vpc_id", some (.str "vpc-mock")⟩)]
  distinct := by simp

def vpcApplies : RenderEvent := .upstream ("prod", "vpc") (some [("vpc_id", .str "vpc-1")])

def noOutputs : TemplateKey → Option Members := fun _ => none

/-- The template compiles and plans with the mock, the network applies, and it does so again. -/
def recompiled : List RenderEvent :=
  [.compile {}, .plan [], vpcApplies, .compile {}, .plan [], .apply [] true]

/-- With the network applied before the compile it comes from, the applied render is real. -/
theorem apply_after_recompile_is_real :
    (∀ r ∈ (run (renderStep appTemplate) { outputs := noOutputs } recompiled).applied,
        r.Real appTemplate) ∧
      (run (renderStep appTemplate) { outputs := noOutputs } recompiled).applied.length = 1 := by
  refine ⟨(applied_renders_are_real_iff ?_ noOutputs recompiled).mpr ?_, rfl⟩
  · intro a ha b hb _
    rw [List.mem_singleton.mp ha, List.mem_singleton.mp hb]
  · have hquiet (w : World) (e : RenderEvent) (he : ∀ failed cached, e ≠ .apply failed cached) :
        OutputsAtCompile appTemplate w e := fun failed cached h => absurd h (he failed cached)
    simp only [recompiled, along_cons_iff]
    refine ⟨hquiet _ _ (by simp), hquiet _ _ (by simp), hquiet _ _ (by simp [vpcApplies]),
      hquiet _ _ (by simp), hquiet _ _ (by simp), ?_, along_nil _ _ _⟩
    rintro _ _ ⟨⟩ _ r hr _ entry he _ _ _
    cases hr
    rw [List.mem_singleton.mp he]
    decide

/-- With the network applied between the plan and the apply, the apply has the mock. -/
theorem late_upstream_applies_mock :
    ¬∀ events, ∀ r ∈ (run (renderStep appTemplate) { outputs := noOutputs } events).applied,
      r.Real appTemplate := by
  intro h
  have happlied : (run (renderStep appTemplate) { outputs := noOutputs }
      [.compile {}, .plan [], vpcApplies, .apply [] true]).applied =
        [⟨[("vpc_id", .str "vpc-mock")], {}, noOutputs⟩] := rfl
  have hreal := h [.compile {}, .plan [], vpcApplies, .apply [] true]
  rw [happlied] at hreal
  have hout := hreal _ List.mem_cons_self _ List.mem_cons_self List.not_mem_nil _ rfl
  cases hout

end PangeaOperator
