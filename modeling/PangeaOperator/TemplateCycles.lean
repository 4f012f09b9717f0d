import Mathlib
import PangeaOperator.LeafPlan
import PangeaOperator.Lib.Grounded

/-!
# Cycles of the template DAG

`pangea-leaf`, `dag.rs`. A graph is what the calls of `add` made of it. The templates reported for a
cycle are those whose upstreams lead to one, and every other template is dispatched when its turn
comes.
-/

namespace PangeaOperator.Migrate

open Relation

namespace TemplateDag

/-- The calls of `add`, in order, on a new graph. -/
def ofCalls {δ ι : Type} (g : ShigotoDag δ ι) (calls : List (String × List String)) :
    TemplateDag δ :=
  calls.foldl (fun d call => d.add g call.1 call.2) (new g)

/-- What the scheduler has dispatched when all that is eligible has become ready. -/
def dispatched {δ ι : Type} (g : ShigotoDag δ ι) (d : TemplateDag δ) (ready : List String) :
    List String := ready ++ d.eligible g ready

end TemplateDag

open PangeaOperator.Migrate.TemplateDag

/-- Some call names `u` as an upstream of `t`. -/
def Waits (calls : List (String × List String)) (t u : String) : Prop :=
  ∃ call ∈ calls, call.1 = t ∧ u ∈ call.2

/-- `t` is a template of some call, or an upstream of one. -/
def Named (calls : List (String × List String)) (t : String) : Prop :=
  ∃ call ∈ calls, call.1 = t ∨ t ∈ call.2

/-- `predecessors` gives the upstreams that were added, and nothing else. -/
structure RecordsEdges {δ ι : Type} (g : ShigotoDag δ ι) : Prop where
  nodeName : ∀ s, g.nodeName (g.nodeId s) = some s
  new : ∀ t, g.predecessors g.new t = []
  ensureNode : ∀ d n t p, p ∈ g.predecessors (g.ensureNode d n) t ↔ p ∈ g.predecessors d t
  addEdge : ∀ d u t t' p,
    p ∈ g.predecessors (g.addEdge d u t) t' ↔ p ∈ g.predecessors d t' ∨ t' = t ∧ p = u

/-- `waves` fails exactly on a cycle. -/
def WavesFailOnCycle {δ ι : Type} (g : ShigotoDag δ ι) (calls : List (String × List String)) :
    Prop :=
  g.waves (ofCalls g calls).dag = none ↔ ∃ t, TransGen (Waits calls) t t

/-- The report of a cycle names the templates that are stuck, and those alone. -/
structure ReportsStuck {δ ι : Type} (g : ShigotoDag δ ι) (calls : List (String × List String)) :
    Prop where
  stops : ∃ n, readyPass g (ofCalls g calls) ((readyPass g (ofCalls g calls))^[n] []) =
      (readyPass g (ofCalls g calls))^[n] [] ∧
    unresolvableNodes g (ofCalls g calls) = (ofCalls g calls).names.keys.filter
      fun t => !((readyPass g (ofCalls g calls))^[n] []).contains t
  sorted : (unresolvableNodes g (ofCalls g calls)).Pairwise (· < ·)
  stuck : ∀ t, t ∈ unresolvableNodes g (ofCalls g calls) ↔ ReachesCycle (Waits calls) t
  acyclic : unresolvableNodes g (ofCalls g calls) = [] ↔ ¬∃ t, TransGen (Waits calls) t t
  reported : applyOrder g (ofCalls g calls) =
      .error (.cycle (unresolvableNodes g (ofCalls g calls))) ↔ ∃ t, TransGen (Waits calls) t t
  reached : ∀ t, Named calls t → t ∉ unresolvableNodes g (ofCalls g calls) →
    ∃ n, t ∈ (dispatched g (ofCalls g calls))^[n] []

section Edges

variable {δ ι : Type} {g : ShigotoDag δ ι} {d : TemplateDag δ} {template t u : String}
  {calls : List (String × List String)}

theorem RecordsEdges.nodeId_inj (hg : RecordsEdges g) (h : g.nodeId t = g.nodeId u) : t = u := by
  have hname := congrArg g.nodeName h
  rw [hg.nodeName, hg.nodeName] at hname
  exact Option.some.inj hname

theorem predecessors_addUpstreams (hg : RecordsEdges g) (us : List String) (p : ι) :
    p ∈ g.predecessors (us.foldl (addUpstream g template) d).dag (g.nodeId t) ↔
      p ∈ g.predecessors d.dag (g.nodeId t) ∨ template = t ∧ ∃ u ∈ us, p = g.nodeId u := by
  induction us generalizing d with
  | nil => simp
  | cons u us ih =>
    have hnode : g.nodeId t = g.nodeId template ↔ template = t :=
      ⟨fun h => (hg.nodeId_inj h).symm, fun h => by rw [h]⟩
    rw [List.foldl_cons, ih, addUpstream, hg.addEdge, hnode, or_assoc, ← and_or_left,
      List.exists_mem_cons_iff]

theorem predecessors_foldl_add (hg : RecordsEdges g) (p : ι) :
    p ∈ g.predecessors (calls.foldl (fun d call => d.add g call.1 call.2) d).dag (g.nodeId t) ↔
      p ∈ g.predecessors d.dag (g.nodeId t) ∨ ∃ u, Waits calls t u ∧ p = g.nodeId u := by
  induction calls generalizing d with
  | nil => simp [Waits]
  | cons call calls ih =>
    have hcons (u : String) : Waits (call :: calls) t u ↔
        call.1 = t ∧ u ∈ call.2 ∨ Waits calls t u := List.exists_mem_cons_iff _ _ _
    rw [List.foldl_cons, ih, add, predecessors_addUpstreams hg, hg.ensureNode, or_assoc]
    simp only [hcons, or_and_right, exists_or, and_assoc, exists_and_left]

theorem predecessors_ofCalls (hg : RecordsEdges g) (p : ι) :
    p ∈ g.predecessors (ofCalls g calls).dag (g.nodeId t) ↔
      ∃ u, Waits calls t u ∧ p = g.nodeId u := by
  rw [ofCalls, predecessors_foldl_add hg, new, hg.new]
  exact or_iff_right List.not_mem_nil

theorem depsSatisfied_ofCalls (hg : RecordsEdges g) {ready : List String} :
    depsSatisfied g (ofCalls g calls) t ready = true ↔ ∀ u, Waits calls t u → u ∈ ready := by
  rw [depsSatisfied, List.all_eq_true]
  constructor
  · intro h u hu
    have hready := h _ ((predecessors_ofCalls hg _).mpr ⟨u, hu, rfl⟩)
    simpa [hg.nodeName] using hready
  · intro h p hp
    obtain ⟨u, hu, rfl⟩ := (predecessors_ofCalls hg p).mp hp
    simpa [hg.nodeName] using h u hu

theorem mem_names_addUpstreams (us : List String) :
    t ∈ (us.foldl (addUpstream g template) d).names.keys ↔ t ∈ d.names.keys ∨ t ∈ us := by
  induction us generalizing d with
  | nil => simp
  | cons u us ih =>
    rw [List.foldl_cons, ih, addUpstream, SortedMap.insert, SortedMap.mem_keys_upsert,
      List.mem_cons]
    tauto

theorem mem_names_foldl_add :
    t ∈ (calls.foldl (fun d call => d.add g call.1 call.2) d).names.keys ↔
      t ∈ d.names.keys ∨ Named calls t := by
  induction calls generalizing d with
  | nil => simp [Named]
  | cons call calls ih =>
    have hcons : Named (call :: calls) t ↔ (call.1 = t ∨ t ∈ call.2) ∨ Named calls t :=
      List.exists_mem_cons_iff _ _ _
    rw [List.foldl_cons, ih, add, mem_names_addUpstreams, SortedMap.insert,
      SortedMap.mem_keys_upsert, hcons, eq_comm (a := t)]
    tauto

theorem mem_names_ofCalls : t ∈ (ofCalls g calls).names.keys ↔ Named calls t := by
  rw [ofCalls, mem_names_foldl_add]
  exact or_iff_right List.not_mem_nil

theorem waits_mem_names (h : Waits calls t u) : u ∈ (ofCalls g calls).names.keys := by
  obtain ⟨call, hcall, -, hu⟩ := h
  exact mem_names_ofCalls.mpr ⟨call, hcall, .inr hu⟩

/-- What is stuck waits for something, so it is a name. -/
theorem named_of_reachesCycle (h : ReachesCycle (Waits calls) t) : Named calls t := by
  obtain ⟨u, ⟨call, hcall, ht, -⟩, -⟩ := h.next
  exact ⟨call, hcall, .inl ht⟩

end Edges

section Sweeps

variable {δ ι : Type} {g : ShigotoDag δ ι} {d : TemplateDag δ} {ready : List String} {n : Nat}
  {calls : List (String × List String)}

theorem mem_eligible {t : String} : t ∈ eligible g d ready ↔
    t ∈ d.names.keys ∧ t ∉ ready ∧ depsSatisfied g d t ready = true := by
  simp [eligible]

theorem dispatched_sweep (hg : RecordsEdges g) :
    Sweep (Waits calls) (ofCalls g calls).names.keys (dispatched g (ofCalls g calls)) where
  keeps ready := List.subset_append_left ready _
  sound ready hready t ht := by
    rcases List.mem_append.mp ht with hold | hnew
    · exact hready t hold
    · have hdeps := (depsSatisfied_ofCalls hg).mp (mem_eligible.mp hnew).2.2
      exact .intro t fun u hu => hready u (hdeps u hu)
  takes ready t ht hdeps := by
    by_cases hold : t ∈ ready
    · exact List.mem_append_left _ hold
    · exact List.mem_append_right _
        (mem_eligible.mpr ⟨ht, hold, (depsSatisfied_ofCalls hg).mpr hdeps⟩)

/-- One name of a pass. -/
def readyStep (g : ShigotoDag δ ι) (d : TemplateDag δ) (ready : List String) (name : String) :
    List String :=
  if !ready.contains name && depsSatisfied g d name ready then name :: ready else ready

theorem readyPass_eq : readyPass g d ready = d.names.keys.foldl (readyStep g d) ready := rfl

theorem suffix_readyStep (name : String) : ready <:+ readyStep g d ready name := by
  rw [readyStep]
  split
  · exact List.suffix_cons name ready
  · exact List.suffix_refl ready

theorem suffix_foldl (names : List String) : ready <:+ names.foldl (readyStep g d) ready := by
  induction names generalizing ready with
  | nil => exact List.suffix_refl ready
  | cons name names ih => exact (suffix_readyStep name).trans ih

/-- A name whose turn comes with all upstreams ready is ready then. -/
theorem mem_readyStep (hg : RecordsEdges g) {name : String}
    (h : ∀ u, Waits calls name u → u ∈ ready) :
    name ∈ readyStep g (ofCalls g calls) ready name := by
  rw [readyStep, (depsSatisfied_ofCalls hg).mpr h, Bool.and_true]
  split
  · exact List.mem_cons_self
  · next hold => simpa using hold

theorem readyPass_sweep (hg : RecordsEdges g) :
    Sweep (Waits calls) (ofCalls g calls).names.keys (readyPass g (ofCalls g calls)) where
  keeps ready := (suffix_foldl _).subset
  sound ready hready := by
    rw [readyPass_eq]
    generalize (ofCalls g calls).names.keys = names
    induction names generalizing ready with
    | nil => exact hready
    | cons name names ih =>
      refine ih _ fun t ht => ?_
      rw [readyStep] at ht
      split at ht
      · next hnew =>
        rcases List.mem_cons.mp ht with rfl | hold
        · have hdeps := (depsSatisfied_ofCalls hg).mp (Bool.and_eq_true_iff.mp hnew).2
          exact .intro t fun u hu => hready u (hdeps u hu)
        · exact hready t hold
      · exact hready t ht
  takes ready := by
    rw [readyPass_eq]
    generalize (ofCalls g calls).names.keys = names
    induction names generalizing ready with
    | nil => simp
    | cons name names ih =>
      intro t ht hdeps
      rcases List.mem_cons.mp ht with rfl | hrest
      · exact (suffix_foldl names).subset (mem_readyStep hg hdeps)
      · exact ih _ t hrest fun u hu => (suffix_readyStep name).subset (hdeps u hu)

/-- The loop leaves with a list that a further pass does not change. -/
theorem readyFrom_eq_iterate (h : Listed d ready) (hn : d.names.keys.length < n + ready.length) :
    ∃ k, readyPass g d ((readyPass g d)^[k] ready) = (readyPass g d)^[k] ready ∧
      readyFrom g d n ready = (readyPass g d)^[k] ready := by
  induction n generalizing ready with
  | zero =>
    have hfew := (h.1.subperm h.2).length_le
    omega
  | succ n ih =>
    rw [readyFrom]
    split
    · next hsame => exact ⟨0, ((suffix_foldl _).eq_of_length hsame.symm).symm, rfl⟩
    · next hgrew =>
      obtain ⟨hlisted, hgrown⟩ := listed_readyPass (g := g) h
      obtain ⟨k, hfixed, hresult⟩ := ih hlisted (by omega)
      exact ⟨k + 1, hfixed, hresult⟩

theorem unresolvableNodes_stops :
    ∃ n, readyPass g d ((readyPass g d)^[n] []) = (readyPass g d)^[n] [] ∧
      unresolvableNodes g d =
        d.names.keys.filter fun t => !((readyPass g d)^[n] []).contains t := by
  have hstart : Listed d [] := ⟨.nil, fun _ h => absurd h List.not_mem_nil⟩
  obtain ⟨k, hfixed, hresult⟩ :=
    readyFrom_eq_iterate (g := g) (n := d.names.keys.length + 1) hstart (by simp)
  exact ⟨k, hfixed, by rw [unresolvableNodes, hresult]⟩

theorem unresolvableNodes_sorted : (unresolvableNodes g d).Pairwise (· < ·) :=
  d.names.sorted.sublist List.filter_sublist

theorem mem_unresolvableNodes (hg : RecordsEdges g) {t : String} :
    t ∈ unresolvableNodes g (ofCalls g calls) ↔ ReachesCycle (Waits calls) t := by
  obtain ⟨n, hfixed, hstuck⟩ := unresolvableNodes_stops (g := g) (d := ofCalls g calls)
  have hsweep : Sweep (Waits calls) (ofCalls g calls).names.keys _ := readyPass_sweep hg
  rw [hstuck, List.mem_filter, Bool.not_eq_true', List.contains_eq_mem, decide_eq_false_iff_not,
    hsweep.mem_fixed_iff hfixed]
  constructor
  · rintro ⟨ht, hnot⟩
    rwa [hsweep.found_iff (fun _ _ => waits_mem_names) ht, not_not] at hnot
  · intro hcycle
    have ht := (mem_names_ofCalls (g := g)).mpr (named_of_reachesCycle hcycle)
    rw [hsweep.found_iff (fun _ _ => waits_mem_names) ht, not_not]
    exact ⟨ht, hcycle⟩

theorem unresolvableNodes_eq_nil_iff (hg : RecordsEdges g) :
    unresolvableNodes g (ofCalls g calls) = [] ↔ ¬∃ t, TransGen (Waits calls) t t := by
  rw [← exists_reachesCycle_iff, List.eq_nil_iff_forall_not_mem, not_exists]
  simp only [mem_unresolvableNodes hg]

theorem applyOrder_eq_cycle_iff : applyOrder g d = .error (.cycle (unresolvableNodes g d)) ↔
    g.waves d.dag = none := by
  rw [applyOrder]
  split <;> simp_all

end Sweeps

/-- A name is dispatched in the end unless its upstreams lead to a cycle. -/
theorem unresolvable_are_stuck {δ ι : Type} (g : ShigotoDag δ ι) (hg : RecordsEdges g)
    (calls : List (String × List String)) (hwaves : WavesFailOnCycle g calls) :
    ReportsStuck g calls where
  stops := unresolvableNodes_stops
  sorted := unresolvableNodes_sorted
  stuck t := mem_unresolvableNodes hg
  acyclic := unresolvableNodes_eq_nil_iff hg
  reported := applyOrder_eq_cycle_iff.trans hwaves
  reached t ht hfree := by
    rw [mem_unresolvableNodes hg] at hfree
    exact ((dispatched_sweep hg).found_iff (fun _ _ => waits_mem_names)
      (mem_names_ofCalls.mpr ht)).mpr hfree

theorem nameGraph_records : RecordsEdges nameGraph where
  nodeName _ := rfl
  new _ := rfl
  ensureNode _ _ _ _ := Iff.rfl
  addEdge d u t t' p := by
    change p ∈ ((d.2 ++ [(u, t)]).filter (·.2 = t')).map Prod.fst ↔
      p ∈ (d.2.filter (·.2 = t')).map Prod.fst ∨ t' = t ∧ p = u
    rw [List.filter_append, List.map_append, List.mem_append, List.filter_singleton]
    by_cases ht : t = t'
    · simp [ht]
    · simp [ht, Ne.symm ht]

/-- `x` and `y` wait for each other, `z` for itself, and `app` for `y`. -/
def knottedCalls : List (String × List String) :=
  [("root", []), ("x", ["root", "y"]), ("y", ["root", "x"]), ("z", ["z"]), ("app", ["vpc", "y"])]

example : unresolvableNodes nameGraph (ofCalls nameGraph knottedCalls) =
    ["app", "x", "y", "z"] := by
  decide +kernel

theorem unresolvable_are_stuck_knotted : ReportsStuck nameGraph knottedCalls :=
  unresolvable_are_stuck nameGraph nameGraph_records knottedCalls
    ⟨fun _ => ⟨"z", .single ⟨("z", ["z"]), by decide +kernel, rfl, by decide +kernel⟩⟩,
      fun _ => by decide +kernel⟩

end PangeaOperator.Migrate
