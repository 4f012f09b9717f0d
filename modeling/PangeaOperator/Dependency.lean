import PangeaOperator.StatusRecord

/-!
# References to the outputs of other templates

`controller/template_dependency.rs`, the fetch around it in `template_controller.rs`, and
the dispatch gate of `template/leaf.rs` over `pangea-leaf`. Templates are read through a
function from namespace and name to the outputs in their status; a failed read is absent.
-/

namespace PangeaOperator

open Json

/-- Namespace and name of a template. -/
abbrev TemplateKey := String × String

structure TemplateObjectRef where
  name : String
  namespace_ : Option String
  deriving DecidableEq, Repr

structure VariableRef where
  templateRef : TemplateObjectRef
  outputKey : String
  mockOutput : Option Doc
  deriving DecidableEq, Repr

/-- The upstream a reference names, seen from a template in namespace `own`. -/
def VariableRef.upstream (r : VariableRef) (own : String) : TemplateKey :=
  (r.templateRef.namespace_.getD own, r.templateRef.name)

structure DepRef where
  template : String
  outputKey : String
  mock : Option Doc
  deriving DecidableEq, Repr

structure DependencyResolution where
  resolved : Members
  mocked : Members
  unresolvedTemplates : List String
  deriving DecidableEq, Repr

/-- Real outputs win over mocks. -/
def DependencyResolution.allVariables (d : DependencyResolution) : Members :=
  d.resolved ++ d.mocked

/-- Outputs by the name of the template. -/
abbrev UpstreamOutputs := List (String × Members)

def upstreamNamed (name : String) (upstream : UpstreamOutputs) : Option Members :=
  (upstream.find? (fun u => u.1 = name)).map Prod.snd

def DepRef.output (dep : DepRef) (upstream : UpstreamOutputs) : Option Doc :=
  (upstreamNamed dep.template upstream).bind (lookup dep.outputKey)

def resolveDependencyVars (refs : List (String × DepRef)) (upstream : UpstreamOutputs) :
    DependencyResolution where
  resolved := refs.filterMap (fun (var, dep) => (dep.output upstream).map (var, ·))
  mocked := refs.filterMap (fun (var, dep) =>
    match dep.output upstream with
    | some _ => none
    | none => dep.mock.map (var, ·))
  unresolvedTemplates :=
    ((refs.filter (fun (_, dep) => (dep.output upstream).isNone && dep.mock.isNone)).map
      (fun (_, dep) => dep.template)).insertionSort (· ≤ ·) |>.dedup

section Fetch

variable (read : TemplateKey → Option Members) (own : String)

/-- One turn of the fetch: a name that is there already is not read again. -/
def fetchUpstream (upstream : UpstreamOutputs) (r : VariableRef) : UpstreamOutputs :=
  match upstreamNamed r.templateRef.name upstream with
  | some _ => upstream
  | none => match read (r.upstream own) with
    | some outs => upstream ++ [(r.templateRef.name, outs)]
    | none => upstream

def fetchUpstreams (upstream : UpstreamOutputs) (refs : List (String × VariableRef)) :
    UpstreamOutputs :=
  refs.foldl (fun upstream entry => fetchUpstream read own upstream entry.2) upstream

def VariableRef.dep (r : VariableRef) : DepRef := ⟨r.templateRef.name, r.outputKey, r.mockOutput⟩

def resolveTemplateDependencies (refs : List (String × VariableRef)) : DependencyResolution :=
  resolveDependencyVars (refs.map (fun entry => (entry.1, entry.2.dep)))
    (fetchUpstreams read own [] refs)

/-- The output a reference names. -/
def VariableRef.output (r : VariableRef) : Option Doc :=
  (read (r.upstream own)).bind (lookup r.outputKey)

/-- The first reference to a name, in the order of the variables, whose template has outputs. -/
def firstNamed (refs : List (String × VariableRef)) (name : String) : Option VariableRef :=
  (refs.map Prod.snd).find?
    (fun r => r.templateRef.name = name && (read (r.upstream own)).isSome)

end Fetch

structure Upstream where
  template : String
  hasMock : Bool
  deriving DecidableEq, Repr

/-- The edges of a template graph, each from an upstream to the template that needs it. -/
structure TemplateDag where
  edges : List (String × String) := []
  deriving DecidableEq, Repr

namespace TemplateDag

def add (dag : TemplateDag) (template : String) (upstreams : List String) : TemplateDag :=
  ⟨dag.edges ++ upstreams.map (fun u => (u, template))⟩

def depsSatisfied (dag : TemplateDag) (template : String) (ready : List String) : Bool :=
  (dag.edges.filter (fun e => e.2 = template)).all (fun e => e.1 ∈ ready)

end TemplateDag

def blockedBy (template : String) (upstreams : List Upstream) (ready : List String)
    (applying : Bool) : List String :=
  let names := upstreams.map Upstream.template
  let dag := ({} : TemplateDag).add template names
  let effective := ready ++
    (if applying then [] else (upstreams.filter Upstream.hasMock).map Upstream.template)
  if dag.depsSatisfied template effective then []
  else (names.filter (· ∉ effective)).insertionSort (· ≤ ·) |>.dedup

/-- The gate before a phase is dispatched: an upstream is ready when it has every output that is
referenced under its name. -/
def blockedUpstreams (read : TemplateKey → Option Members) (own template : String)
    (refs : List (String × VariableRef)) (applying : Bool) : List String :=
  let hasOutput (r : VariableRef) : Bool := (r.output read own).isSome
  let named (p : VariableRef → Bool) : List String :=
    (refs.filter (fun entry => p entry.2)).map (fun entry => entry.2.templateRef.name)
  let missing := named (fun r => !hasOutput r)
  let ready := (named hasOutput).filter (· ∉ missing)
  blockedBy template (refs.map (fun entry => ⟨entry.2.templateRef.name, entry.2.mockOutput.isSome⟩))
    ready applying

section Resolve

variable {read : TemplateKey → Option Members} {own : String}

/-- The references to one name agree on the namespace. -/
def NamesAgree (own : String) (refs : List (String × VariableRef)) : Prop :=
  ∀ a ∈ refs, ∀ b ∈ refs, a.2.templateRef.name = b.2.templateRef.name →
    a.2.upstream own = b.2.upstream own

theorem upstreamNamed_append (name : String) (upstream : UpstreamOutputs) (u : String × Members) :
    upstreamNamed name (upstream ++ [u]) =
      (upstreamNamed name upstream).or (if u.1 = name then some u.2 else none) := by
  unfold upstreamNamed
  rw [List.find?_append]
  cases upstream.find? (fun u => u.1 = name) with
  | some v => simp
  | none =>
    by_cases hu : u.1 = name
    · simp [hu]
    · simp [hu]

theorem fetchUpstream_named (upstream : UpstreamOutputs) (r : VariableRef) (name : String) :
    upstreamNamed name (fetchUpstream read own upstream r) =
      (upstreamNamed name upstream).or
        (if r.templateRef.name = name then read (r.upstream own) else none) := by
  unfold fetchUpstream
  cases hu : upstreamNamed r.templateRef.name upstream with
  | some outs =>
    by_cases hn : r.templateRef.name = name
    · subst hn
      simp [hu]
    · simp [hn]
  | none =>
    cases hr : read (r.upstream own) with
    | none =>
      by_cases hn : r.templateRef.name = name
      · simp [hn]
      · simp [hn]
    | some outs => simp [upstreamNamed_append]

/-- What is kept under a name is what the first template of that name has. -/
theorem fetchUpstreams_first (upstream : UpstreamOutputs) (refs : List (String × VariableRef))
    (name : String) :
    upstreamNamed name (fetchUpstreams read own upstream refs) =
      (upstreamNamed name upstream).or
        ((firstNamed read own refs name).bind (fun r => read (r.upstream own))) := by
  induction refs generalizing upstream with
  | nil => simp [fetchUpstreams, firstNamed]
  | cons entry refs ih =>
    have hfold : fetchUpstreams read own upstream (entry :: refs) =
        fetchUpstreams read own (fetchUpstream read own upstream entry.2) refs := rfl
    rw [hfold, ih, fetchUpstream_named, Option.or_assoc]
    congr 1
    by_cases hn : entry.2.templateRef.name = name
    · cases hr : read (entry.2.upstream own) with
      | none => simp [firstNamed, hn, hr]
      | some outs => simp [firstNamed, hn, hr]
    · simp [firstNamed, hn]

theorem output_dep_fetched (refs : List (String × VariableRef)) (r : VariableRef) :
    r.dep.output (fetchUpstreams read own [] refs) =
      (firstNamed read own refs r.templateRef.name).bind
        (fun first => (read (first.upstream own)).bind (lookup r.outputKey)) := by
  have hnamed : upstreamNamed r.dep.template (fetchUpstreams read own [] refs) =
      (firstNamed read own refs r.templateRef.name).bind (fun first => read (first.upstream own)) :=
    fetchUpstreams_first [] refs r.templateRef.name
  rw [DepRef.output, hnamed, Option.bind_assoc]
  rfl

/-- Where no template of its name has outputs, the one it names has none either. -/
theorem output_of_firstNamed_none {refs : List (String × VariableRef)}
    {entry : String × VariableRef} (he : entry ∈ refs)
    (h : firstNamed read own refs entry.2.templateRef.name = none) :
    entry.2.output read own = none := by
  have hnot := List.find?_eq_none.mp h entry.2 (List.mem_map_of_mem he)
  have hread : read (entry.2.upstream own) = none := by simpa using hnot
  rw [VariableRef.output, hread]
  rfl

theorem output_dep_eq_iff {refs : List (String × VariableRef)} {entry : String × VariableRef}
    (he : entry ∈ refs) :
    entry.2.dep.output (fetchUpstreams read own [] refs) = entry.2.output read own ↔
      ∀ first, firstNamed read own refs entry.2.templateRef.name = some first →
        (read (first.upstream own)).bind (lookup entry.2.outputKey) = entry.2.output read own := by
  rw [output_dep_fetched]
  cases hfirst : firstNamed read own refs entry.2.templateRef.name with
  | none => simp [output_of_firstNamed_none he hfirst]
  | some first => simp

theorem mem_unresolvedTemplates {refs : List (String × DepRef)} {upstream : UpstreamOutputs}
    {name : String} : name ∈ (resolveDependencyVars refs upstream).unresolvedTemplates ↔
      ∃ entry ∈ refs, entry.2.output upstream = none ∧ entry.2.mock = none ∧
        entry.2.template = name := by
  simp only [resolveDependencyVars, List.mem_dedup, List.mem_insertionSort, List.mem_map,
    List.mem_filter, Bool.and_eq_true, Option.isNone_iff_eq_none, and_assoc]

theorem unresolvedTemplates_eq_nil_iff (refs : List (String × DepRef))
    (upstream : UpstreamOutputs) :
    (resolveDependencyVars refs upstream).unresolvedTemplates = [] ↔
      ∀ entry ∈ refs, entry.2.output upstream ≠ none ∨ entry.2.mock ≠ none := by
  rw [List.eq_nil_iff_forall_not_mem]
  constructor
  · intro h entry he
    by_contra hnone
    push Not at hnone
    exact h _ (mem_unresolvedTemplates.mpr ⟨entry, he, hnone.1, hnone.2, rfl⟩)
  · intro h name hname
    obtain ⟨entry, he, hout, hmock, -⟩ := mem_unresolvedTemplates.mp hname
    rcases h entry he with hsome | hsome
    · exact hsome hout
    · exact hsome hmock

/-- The values some variables have, each found under its own variable. -/
theorem lookup_filterMap {α : Type} {refs : List (String × α)} (hd : (refs.map Prod.fst).Nodup)
    (value : α → Option Doc) {var : String} {a : α} (h : (var, a) ∈ refs) :
    lookup var (refs.filterMap (fun entry => (value entry.2).map (entry.1, ·))) = value a := by
  have hkeys : ((refs.filterMap (fun entry => (value entry.2).map (entry.1, ·))).map
      Prod.fst).Sublist (refs.map Prod.fst) := by
    clear hd h
    induction refs with
    | nil => simp
    | cons r refs ih =>
      cases hr : value r.2 with
      | none => simpa [hr] using ih.cons r.1
      | some w => simpa [hr] using ih.cons_cons r.1
  cases hv : value a with
  | some v =>
    exact lookup_of_mem (hkeys.nodup hd) (List.mem_filterMap.mpr ⟨(var, a), h, by simp [hv]⟩)
  | none =>
    refine lookup_eq_none_iff.mpr fun hmem => ?_
    obtain ⟨found, hin, hvar⟩ := List.mem_map.mp hmem
    obtain ⟨r, hr, hrv⟩ := List.mem_filterMap.mp hin
    obtain ⟨w, hw, hpair⟩ := Option.map_eq_some_iff.mp hrv
    have hkey : r.1 = var := (congrArg Prod.fst hpair).trans hvar
    have hsame : r = (var, a) := List.inj_on_of_nodup_map hd hr h hkey
    rw [hsame, hv] at hw
    cases hw

theorem lookup_resolved {refs : List (String × DepRef)} (hd : (refs.map Prod.fst).Nodup)
    {upstream : UpstreamOutputs} {var : String} {dep : DepRef} (h : (var, dep) ∈ refs) :
    lookup var (resolveDependencyVars refs upstream).resolved = dep.output upstream :=
  lookup_filterMap hd (fun dep => dep.output upstream) h

/-- A variable has its real output, or else its mock. -/
theorem lookup_allVariables {refs : List (String × DepRef)} (hd : (refs.map Prod.fst).Nodup)
    {upstream : UpstreamOutputs} {var : String} {dep : DepRef} (h : (var, dep) ∈ refs) :
    lookup var (resolveDependencyVars refs upstream).allVariables =
      (dep.output upstream).or dep.mock := by
  have hmocked : (resolveDependencyVars refs upstream).mocked = refs.filterMap (fun entry =>
      (if (entry.2.output upstream).isSome then none else entry.2.mock).map (entry.1, ·)) := by
    refine List.filterMap_congr (fun ⟨_, dep⟩ _ => ?_)
    dsimp only
    cases dep.output upstream <;> rfl
  have hmock := lookup_filterMap hd
    (fun dep => if (dep.output upstream).isSome then none else dep.mock) h
  rw [DependencyResolution.allVariables, lookup_append, lookup_resolved hd h, hmocked, hmock]
  cases dep.output upstream <;> rfl

/-- When the references agree, each reads the template it names. -/
theorem output_fetchUpstreams {refs : List (String × VariableRef)} (hn : NamesAgree own refs)
    {entry : String × VariableRef} (he : entry ∈ refs) :
    entry.2.dep.output (fetchUpstreams read own [] refs) = entry.2.output read own := by
  refine (output_dep_eq_iff he).mpr fun first hfirst => ?_
  obtain ⟨e, hmem, rfl⟩ := List.mem_map.mp (List.mem_of_find?_eq_some hfirst)
  have hfound := List.find?_some (p := fun r : VariableRef =>
    r.templateRef.name = entry.2.templateRef.name && (read (r.upstream own)).isSome) hfirst
  have hname : e.2.templateRef.name = entry.2.templateRef.name := by
    simpa using (Bool.and_eq_true_iff.mp hfound).1
  rw [hn e hmem entry he hname]
  rfl

/-- A template that is not blocked has no upstream but those that count as ready. -/
theorem mem_of_blockedBy_eq_nil {template : String} {upstreams : List Upstream}
    {ready : List String} (h : blockedBy template upstreams ready true = []) {u : Upstream}
    (hu : u ∈ upstreams) : u.template ∈ ready := by
  have hname : u.template ∈ upstreams.map Upstream.template := List.mem_map_of_mem hu
  unfold blockedBy at h
  simp only [if_true, List.append_nil] at h
  split at h
  · next hsatisfied =>
    have hedge := List.all_eq_true.mp hsatisfied (u.template, template)
      (List.mem_filter.mpr ⟨List.mem_append_right _ (List.mem_map_of_mem hname), by simp⟩)
    exact of_decide_eq_true hedge
  · by_contra hnot
    have hblocked : u.template ∈ (((upstreams.map Upstream.template).filter
        (· ∉ ready)).insertionSort (· ≤ ·)).dedup := by
      rw [List.mem_dedup, List.mem_insertionSort]
      exact List.mem_filter.mpr ⟨hname, decide_eq_true hnot⟩
    rw [h] at hblocked
    cases hblocked

/-- The gate lets an apply through only where every reference has its output. -/
theorem output_of_not_blocked {template : String} {refs : List (String × VariableRef)}
    (h : blockedUpstreams read own template refs true = [])
    {entry : String × VariableRef} (he : entry ∈ refs) : entry.2.output read own ≠ none := by
  intro hnone
  have hready := mem_of_blockedBy_eq_nil h (List.mem_map_of_mem he)
  refine of_decide_eq_true (List.mem_filter.mp hready).2 (List.mem_map.mpr ⟨entry, ?_, rfl⟩)
  exact List.mem_filter.mpr ⟨he, by simp [hnone]⟩

end Resolve

end PangeaOperator
