import Mathlib
import PangeaOperator.Dependency
import PangeaOperator.LeafPlan

/-!
# What a leaf waits for

`pangea-leaf`, `schedule.rs`. The references of a leaf are collapsed to the names of the templates
they read, and for a plan one reference with a mock makes its template as good as ready, for the
other references to it as well.
-/

namespace PangeaOperator.LeafSchedule

open Migrate

section Gate

variable {δ ι : Type} (g : ShigotoDag δ ι)

/-- The names that count as ready. -/
def effective (upstreams : List Upstream) (ready : List String) (applying : Bool) : List String :=
  if applying then ready else ready ++ (upstreams.filter Upstream.hasMock).map Upstream.template

def blockedBy (template : String) (upstreams : List Upstream) (ready : List String)
    (applying : Bool) : List String :=
  let names := upstreams.map Upstream.template
  let dag := (Migrate.TemplateDag.new g).add g template names
  if dag.depsSatisfied g template (effective upstreams ready applying) then []
  else (names.filter (· ∉ effective upstreams ready applying)).insertionSort (· ≤ ·) |>.dedup

/-- What the gate needs of the graph: it starts empty, an edge is kept with its direction, and a
node has the name it was made of. -/
structure KeepsEdges : Prop where
  nodeName : ∀ s, g.nodeName (g.nodeId s) = some s
  new : ∀ t, g.predecessors g.new t = []
  ensureNode : ∀ d n t p, p ∈ g.predecessors (g.ensureNode d n) t ↔ p ∈ g.predecessors d t
  addEdge : ∀ d u t p, p ∈ g.predecessors (g.addEdge d u t) t ↔ p ∈ g.predecessors d t ∨ p = u

end Gate

section Graph

variable {δ ι : Type} {g : ShigotoDag δ ι} {template : String}

theorem predecessors_foldl (hg : KeepsEdges g) (names : List String)
    (d : Migrate.TemplateDag δ) (p : ι) :
    p ∈ g.predecessors (names.foldl (Migrate.TemplateDag.addUpstream g template) d).dag
        (g.nodeId template) ↔
      p ∈ g.predecessors d.dag (g.nodeId template) ∨ ∃ n ∈ names, p = g.nodeId n := by
  induction names generalizing d with
  | nil => simp
  | cons n names ih =>
    rw [List.foldl_cons, ih, Migrate.TemplateDag.addUpstream, hg.addEdge, or_assoc,
      List.exists_mem_cons_iff]

/-- In a new graph a template waits for what it was added with. -/
theorem depsSatisfied_iff (hg : KeepsEdges g) (names ready : List String) :
    ((Migrate.TemplateDag.new g).add g template names).depsSatisfied g template ready = true ↔
      ∀ n ∈ names, n ∈ ready := by
  have hedge (p : ι) : p ∈ g.predecessors ((Migrate.TemplateDag.new g).add g template names).dag
      (g.nodeId template) ↔ ∃ n ∈ names, p = g.nodeId n := by
    rw [Migrate.TemplateDag.add, predecessors_foldl hg, hg.ensureNode, Migrate.TemplateDag.new,
      hg.new]
    exact or_iff_right List.not_mem_nil
  rw [Migrate.TemplateDag.depsSatisfied, List.all_eq_true]
  constructor
  · intro h n hn
    have hready := h _ ((hedge _).mpr ⟨n, hn, rfl⟩)
    simpa [hg.nodeName] using hready
  · intro h p hp
    obtain ⟨n, hn, rfl⟩ := (hedge p).mp hp
    simpa [hg.nodeName] using h n hn

end Graph

section Blocked

variable {δ ι : Type} {g : ShigotoDag δ ι} {template : String} {upstreams : List Upstream}
  {ready : List String} {applying : Bool}

/-- The test of one reference: its upstream is ready, or a plan has the mock of the reference. -/
def Passes (ready : List String) (applying : Bool) (u : Upstream) : Prop :=
  u.template ∈ ready ∨ applying = false ∧ u.hasMock = true

theorem mem_effective {n : String} : n ∈ effective upstreams ready applying ↔
    n ∈ ready ∨ applying = false ∧ ∃ u ∈ upstreams, u.hasMock = true ∧ u.template = n := by
  cases applying <;> simp [effective, and_assoc]

theorem blockedBy_eq (hg : KeepsEdges g) : blockedBy g template upstreams ready applying =
    (((upstreams.map Upstream.template).filter
      (· ∉ effective upstreams ready applying)).insertionSort (· ≤ ·)).dedup := by
  rw [blockedBy]
  split
  · next h =>
    have hall := (depsSatisfied_iff hg _ _).mp h
    rw [List.filter_eq_nil_iff.mpr fun n hn => by simpa using hall n hn]
    rfl
  · rfl

/-- The gate here is the one the references of a template meet. -/
theorem blockedBy_eq_gate (hg : KeepsEdges g) : blockedBy g template upstreams ready applying =
    PangeaOperator.blockedBy template upstreams ready applying := by
  have hready : ready ++ (if applying = true then [] else (upstreams.filter
      Upstream.hasMock).map Upstream.template) = effective upstreams ready applying := by
    cases applying <;> simp [effective]
  have hdeps : (({} : PangeaOperator.TemplateDag).add template (upstreams.map
      Upstream.template)).depsSatisfied template (effective upstreams ready applying) =
      ((Migrate.TemplateDag.new g).add g template (upstreams.map
        Upstream.template)).depsSatisfied g template (effective upstreams ready applying) := by
    rw [Bool.eq_iff_iff, depsSatisfied_iff hg]
    simp [PangeaOperator.TemplateDag.add, PangeaOperator.TemplateDag.depsSatisfied]
  simp only [PangeaOperator.blockedBy, blockedBy, hready, hdeps]

theorem mem_blockedBy (hg : KeepsEdges g) {n : String} :
    n ∈ blockedBy g template upstreams ready applying ↔
      ∃ u ∈ upstreams, u.template = n ∧ n ∉ effective upstreams ready applying := by
  rw [blockedBy_eq hg, List.mem_dedup, List.mem_insertionSort, List.mem_filter, List.mem_map,
    decide_eq_true_eq]
  simp only [← and_assoc, exists_and_right]

theorem blockedBy_sorted (hg : KeepsEdges g) :
    (blockedBy g template upstreams ready applying).Pairwise (· < ·) := by
  rw [blockedBy_eq hg]
  have hle := (List.pairwise_insertionSort (· ≤ ·) ((upstreams.map Upstream.template).filter
    (· ∉ effective upstreams ready applying))).sublist (List.dedup_sublist _)
  exact (hle.sortedLE.sortedLT_of_nodup (List.nodup_dedup _)).pairwise

theorem blockedBy_eq_nil_iff (hg : KeepsEdges g) :
    blockedBy g template upstreams ready applying = [] ↔
      ∀ u ∈ upstreams, u.template ∈ effective upstreams ready applying := by
  rw [List.eq_nil_iff_forall_not_mem]
  simp only [mem_blockedBy hg]
  grind

/-- Of the references to a template that is not ready all have a mock or none. -/
def MocksAgree (upstreams : List Upstream) (ready : List String) : Prop :=
  ∀ u ∈ upstreams, ∀ v ∈ upstreams, u.template = v.template → u.template ∉ ready →
    u.hasMock = v.hasMock

/-- The gate honours each reference: it opens when every one passes, and else names the templates
of those that do not, in order. -/
structure HonoursEach (g : ShigotoDag δ ι) (template : String) (upstreams : List Upstream)
    (ready : List String) (applying : Bool) : Prop where
  opens : blockedBy g template upstreams ready applying = [] ↔
    ∀ u ∈ upstreams, Passes ready applying u
  sorted : blockedBy g template upstreams ready applying ≠ [] →
    (blockedBy g template upstreams ready applying).Pairwise (· < ·)
  named : blockedBy g template upstreams ready applying ≠ [] →
    ∀ n, n ∈ blockedBy g template upstreams ready applying ↔
      ∃ u ∈ upstreams, u.template = n ∧ ¬Passes ready applying u

/-- A reference passes with its template, unless only another reference to it has a mock. -/
theorem passes_iff_effective (h : applying = true ∨ MocksAgree upstreams ready) {u : Upstream}
    (hu : u ∈ upstreams) :
    Passes ready applying u ↔ u.template ∈ effective upstreams ready applying := by
  rw [mem_effective, Passes]
  constructor
  · rintro (hr | ⟨hplan, hmock⟩)
    · exact Or.inl hr
    · exact Or.inr ⟨hplan, u, hu, hmock, rfl⟩
  · rintro (hr | ⟨hplan, v, hv, hmock, hname⟩)
    · exact Or.inl hr
    · rcases h with h | hagree
      · rw [h] at hplan
        cases hplan
      · by_cases hr : u.template ∈ ready
        · exact Or.inl hr
        · exact Or.inr ⟨hplan, (hagree u hu v hv hname.symm hr).trans hmock⟩

theorem mixed_of_not_mocksAgree (h : ¬MocksAgree upstreams ready) :
    ∃ m ∈ upstreams, ∃ u ∈ upstreams, m.template = u.template ∧ u.template ∉ ready ∧
      m.hasMock = true ∧ u.hasMock = false := by
  simp only [MocksAgree, not_forall] at h
  obtain ⟨u, hu, v, hv, hname, hready, hmocks⟩ := h
  cases hum : u.hasMock with
  | true =>
    exact ⟨u, hu, v, hv, hname, hname ▸ hready, hum, by simpa [hum] using hmocks⟩
  | false =>
    exact ⟨v, hv, u, hu, hname.symm, hready, by simpa [hum] using hmocks, hum⟩

/-- The dispatch gate honours each reference in an apply, and in a plan exactly when no template
that is not ready is referenced both with a mock and without one. -/
theorem gate_honours_each_iff (hg : KeepsEdges g) :
    HonoursEach g template upstreams ready applying ↔
      applying = true ∨ MocksAgree upstreams ready := by
  constructor
  · intro h
    by_contra hnot
    rw [not_or, Bool.not_eq_true] at hnot
    obtain ⟨m, hm, u, hu, hname, hready, hmock, hnone⟩ := mixed_of_not_mocksAgree hnot.2
    -- `u` does not pass, but its template counts as ready for the mock of `m`
    have hfails : ¬Passes ready applying u := by
      rw [Passes, hnone]
      simpa using hready
    have heffective : u.template ∈ effective upstreams ready applying :=
      mem_effective.mpr (Or.inr ⟨hnot.1, m, hm, hmock, hname⟩)
    by_cases hempty : blockedBy g template upstreams ready applying = []
    · exact hfails (h.opens.mp hempty u hu)
    · obtain ⟨v, -, -, hblocked⟩ :=
        (mem_blockedBy hg).mp ((h.named hempty u.template).mpr ⟨u, hu, rfl, hfails⟩)
      exact hblocked heffective
  · intro h
    have hpasses := fun u hu => passes_iff_effective (u := u) h hu
    refine ⟨?_, fun _ => blockedBy_sorted hg, fun _ n => ?_⟩
    · rw [blockedBy_eq_nil_iff hg]
      exact forall₂_congr fun u hu => (hpasses u hu).symm
    · rw [mem_blockedBy hg]
      refine exists_congr fun u => and_congr_right fun hu => and_congr_right fun hname => ?_
      rw [hpasses u hu, hname]

end Blocked

section Mocks

theorem keepsEdges_nameGraph : KeepsEdges nameGraph where
  nodeName _ := rfl
  new _ := rfl
  ensureNode _ _ _ _ := Iff.rfl
  addEdge d u t p := by simp [nameGraph]

theorem mocked_plan_honours_each :
    HonoursEach nameGraph "app" [⟨"vpc", true⟩, ⟨"dns", false⟩] ["dns"] false := by
  refine (gate_honours_each_iff keepsEdges_nameGraph).mpr (.inr ?_)
  unfold MocksAgree
  decide

/-- Two outputs of one template, of which only one has a mock. -/
def halfMocked : List (String × VariableRef) :=
  [("vpc_id", ⟨⟨"vpc", none⟩, "vpc_id", some (.str "vpc-mock")⟩),
    ("cidr", ⟨⟨"vpc", none⟩, "cidr", none⟩)]

/-- The mock of one output lets the plan start, and the resolver then has no value for the
other. -/
theorem half_mocked_plan_starts :
    ¬HonoursEach nameGraph "app" [⟨"vpc", true⟩, ⟨"vpc", false⟩] [] false ∧
      blockedUpstreams (fun _ => none) "prod" "app" halfMocked false = [] ∧
      (resolveTemplateDependencies (fun _ => none) "prod" halfMocked).unresolvedTemplates =
        ["vpc"] := by
  refine ⟨fun h => ?_, by decide +kernel, by decide +kernel⟩
  have hopen : blockedBy nameGraph "app" [⟨"vpc", true⟩, ⟨"vpc", false⟩] [] false = [] := by
    decide +kernel
  have hpass := h.opens.mp hopen ⟨"vpc", false⟩ (by simp)
  simp [Passes] at hpass

end Mocks

end PangeaOperator.LeafSchedule
