import PangeaOperator.Dependency
import PangeaOperator.Lib.SortedMap

/-!
# The template a reference names

The fetch of `resolve_template_dependencies` keeps what it read under the name of the template
alone, and reads a name once. So a reference is answered by the first template of its name that
has outputs, in the order of the variables, whichever namespace that one was named in.
-/

namespace PangeaOperator

open Json

section Named

variable (read : TemplateKey → Option Members) (own : String)

/-- Each reference gets the output of the template it names in the namespace it names, whatever
the others are, or is reported without it: with its mock, or by the name of the template. -/
structure ReadsNamed (refs : SortedMap String VariableRef) : Prop where
  resolved : ∀ var r, refs.get? var = some r →
    lookup var (resolveTemplateDependencies read own refs.entries).resolved = r.output read own
  mocked : ∀ var r, refs.get? var = some r →
    lookup var (resolveTemplateDependencies read own refs.entries).mocked =
      if (r.output read own).isSome then none else r.mockOutput
  unresolved : ∀ name,
    name ∈ (resolveTemplateDependencies read own refs.entries).unresolvedTemplates ↔
      ∃ var r, refs.get? var = some r ∧ r.templateRef.name = name ∧ r.output read own = none ∧
        r.mockOutput = none

/-- The template of the first reference to the same name has the output of the named one. -/
def FirstAgrees (refs : SortedMap String VariableRef) : Prop :=
  ∀ var r, refs.get? var = some r → ∀ first,
    firstNamed read own refs.entries r.templateRef.name = some first →
      (read (first.upstream own)).bind (lookup r.outputKey) = r.output read own

end Named

section Resolution

variable {refs : List (String × DepRef)} {upstream : UpstreamOutputs}

theorem lookup_mocked (hd : (refs.map Prod.fst).Nodup) {var : String} {dep : DepRef}
    (h : (var, dep) ∈ refs) :
    lookup var (resolveDependencyVars refs upstream).mocked =
      if (dep.output upstream).isSome then none else dep.mock := by
  have hmocked : (resolveDependencyVars refs upstream).mocked = refs.filterMap fun entry =>
      (if (entry.2.output upstream).isSome then none else entry.2.mock).map (entry.1, ·) := by
    refine List.filterMap_congr fun entry _ => ?_
    cases hout : entry.2.output upstream with
    | some v => simp [hout]
    | none => simp [hout]
  rw [hmocked]
  exact lookup_filterMap hd
    (fun dep => if (dep.output upstream).isSome then none else dep.mock) h

end Resolution

section Reads

variable {read : TemplateKey → Option Members} {own : String} {refs : SortedMap String VariableRef}

/-- What the fetch kept answers every reference as its own template would. -/
def AnswersOwn (read : TemplateKey → Option Members) (own : String)
    (refs : SortedMap String VariableRef) : Prop :=
  ∀ var r, refs.get? var = some r →
    r.dep.output (fetchUpstreams read own [] refs.entries) = r.output read own

theorem answersOwn_iff_firstAgrees : AnswersOwn read own refs ↔ FirstAgrees read own refs := by
  refine forall₂_congr fun var r => forall_congr' fun h => ?_
  exact output_dep_eq_iff (SortedMap.get?_eq_some_iff.mp h)

/-- The references as the resolver is given them. -/
theorem mem_deps {var : String} {dep : DepRef} :
    (var, dep) ∈ refs.entries.map (fun entry => (entry.1, entry.2.dep)) ↔
      ∃ r, refs.get? var = some r ∧ r.dep = dep := by
  simp only [SortedMap.get?_eq_some_iff, List.mem_map, Prod.mk.injEq, Prod.exists]
  constructor
  · rintro ⟨_, r, hr, rfl, hdep⟩
    exact ⟨r, hr, hdep⟩
  · rintro ⟨r, hr, hdep⟩
    exact ⟨var, r, hr, rfl, hdep⟩

theorem deps_nodup :
    ((refs.entries.map (fun entry => (entry.1, entry.2.dep))).map Prod.fst).Nodup := by
  rw [List.map_map]
  exact refs.keys_nodup

theorem lookup_resolved_fetched {var : String} {r : VariableRef} (h : refs.get? var = some r) :
    lookup var (resolveTemplateDependencies read own refs.entries).resolved =
      r.dep.output (fetchUpstreams read own [] refs.entries) :=
  lookup_resolved deps_nodup (mem_deps.mpr ⟨r, h, rfl⟩)

theorem AnswersOwn.readsNamed (h : AnswersOwn read own refs) : ReadsNamed read own refs where
  resolved var r hr := (lookup_resolved_fetched hr).trans (h var r hr)
  mocked var r hr := by
    rw [← h var r hr]
    exact lookup_mocked deps_nodup (mem_deps.mpr ⟨r, hr, rfl⟩)
  unresolved name := by
    rw [resolveTemplateDependencies, mem_unresolvedTemplates]
    constructor
    · rintro ⟨⟨var, dep⟩, hmem, hout, hmock, hname⟩
      obtain ⟨r, hr, rfl⟩ := mem_deps.mp hmem
      exact ⟨var, r, hr, hname, (h var r hr).symm.trans hout, hmock⟩
    · rintro ⟨var, r, hr, hname, hout, hmock⟩
      exact ⟨(var, r.dep), mem_deps.mpr ⟨r, hr, rfl⟩, (h var r hr).trans hout, hmock, hname⟩

/-- Every reference reads the template it names exactly where the first template of the same name
that has outputs has, for the key it reads, what the named one has. -/
theorem reads_named_iff (read : TemplateKey → Option Members) (own : String)
    (refs : SortedMap String VariableRef) :
    ReadsNamed read own refs ↔ FirstAgrees read own refs := by
  rw [← answersOwn_iff_firstAgrees]
  constructor
  · intro h var r hr
    exact (lookup_resolved_fetched hr).symm.trans (h.resolved var r hr)
  · exact AnswersOwn.readsNamed

/-- Both namespaces have a template `vpc`, each with an id of its own. -/
def vpcs (key : TemplateKey) : Option Members :=
  if key.2 = "vpc" then some [("id", .str key.1)] else none

def bothVpcs : SortedMap String VariableRef where
  entries := [("blue_id", ⟨⟨"vpc", some "blue"⟩, "id", none⟩),
    ("green_id", ⟨⟨"vpc", some "green"⟩, "id", none⟩)]
  sorted := by decide

/-- The reference to the second namespace gets the id of the first. -/
theorem second_namespace_reads_first : ¬ ReadsNamed vpcs "prod" bothVpcs := by
  intro h
  have hgreen := h.resolved "green_id" ⟨⟨"vpc", some "green"⟩, "id", none⟩ (by decide)
  have hgot : lookup "green_id"
      (resolveTemplateDependencies vpcs "prod" bothVpcs.entries).resolved =
      some (.str "blue") := by decide +kernel
  have hnamed : (VariableRef.mk ⟨"vpc", some "green"⟩ "id" none).output vpcs "prod" =
      some (.str "green") := by decide +kernel
  rw [hgot, hnamed] at hgreen
  exact absurd hgreen (by decide +kernel)

end Reads

end PangeaOperator
