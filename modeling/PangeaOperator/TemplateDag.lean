import Mathlib
import PangeaOperator.Lib.SortedMap

/-!
# The template DAG

`pangea-leaf`, `dag.rs`. The graph itself is `shigoto_dag`'s and stays a parameter, with the names
of its nodes beside it. A cycle is reported as the templates that can never become ready.
-/

namespace PangeaOperator.Migrate

/-- What is used of `shigoto_dag` and `shigoto_types`; `waves` fails on a graph without an order. -/
structure ShigotoDag (δ ι : Type) where
  new : δ
  nodeId : String → ι
  nodeName : ι → Option String
  ensureNode : δ → ι → δ
  addEdge : δ → ι → ι → δ
  predecessors : δ → ι → List ι
  waves : δ → Option (List (List ι))

structure TemplateDag (δ : Type) where
  dag : δ
  names : SortedMap String Unit

inductive DagError where
  | cycle (stuck : List String)
  deriving Repr, DecidableEq

namespace TemplateDag

variable {δ ι : Type} (g : ShigotoDag δ ι)

def new : TemplateDag δ := ⟨g.new, SortedMap.empty⟩

def addUpstream (template : String) (d : TemplateDag δ) (u : String) : TemplateDag δ where
  dag := g.addEdge d.dag (g.nodeId u) (g.nodeId template)
  names := d.names.insert u ()

def add (d : TemplateDag δ) (template : String) (upstreams : List String) : TemplateDag δ :=
  upstreams.foldl (addUpstream g template)
    ⟨g.ensureNode d.dag (g.nodeId template), d.names.insert template ()⟩

def depsSatisfied (d : TemplateDag δ) (template : String) (ready : List String) : Bool :=
  (g.predecessors d.dag (g.nodeId template)).all fun p =>
    (g.nodeName p).any fun n => ready.contains n

def eligible (d : TemplateDag δ) (ready : List String) : List String :=
  d.names.keys.filter fun t => !ready.contains t && depsSatisfied g d t ready

/-- A name becomes ready while the names are gone through. -/
def readyPass (d : TemplateDag δ) (ready : List String) : List String :=
  d.names.keys.foldl (fun ready name =>
    if !ready.contains name && depsSatisfied g d name ready then name :: ready else ready) ready

/-- Passes until one brings nothing; every other one brings a name. -/
def readyFrom (d : TemplateDag δ) : Nat → List String → List String
  | 0, ready => ready
  | n + 1, ready =>
    let next := readyPass g d ready
    if next.length = ready.length then ready else readyFrom d n next

def unresolvableNodes (d : TemplateDag δ) : List String :=
  let ready := readyFrom g d (d.names.keys.length + 1) []
  d.names.keys.filter fun n => !ready.contains n

def applyOrder (d : TemplateDag δ) : Except DagError (List String) :=
  match g.waves d.dag with
  | some waves => .ok (waves.flatten.filterMap g.nodeName)
  | none => .error (.cycle (unresolvableNodes g d))

section Passes

variable {g} {d : TemplateDag δ} {ready : List String}

/-- Names that are ready: each once, and no others. -/
def Listed (d : TemplateDag δ) (ready : List String) : Prop :=
  ready.Nodup ∧ ∀ n ∈ ready, n ∈ d.names.keys

theorem listed_foldl {names : List String} (hnames : ∀ n ∈ names, n ∈ d.names.keys)
    (h : Listed d ready) :
    Listed d (names.foldl (fun ready name =>
      if !ready.contains name && depsSatisfied g d name ready then name :: ready else ready)
      ready) ∧
    ready.length ≤ (names.foldl (fun ready name =>
      if !ready.contains name && depsSatisfied g d name ready then name :: ready else ready)
      ready).length := by
  induction names generalizing ready with
  | nil => exact ⟨h, le_refl _⟩
  | cons name names ih =>
    have hrest : ∀ n ∈ names, n ∈ d.names.keys := fun n hn => hnames n (List.mem_cons_of_mem _ hn)
    rw [List.foldl_cons]
    split
    · next hnew =>
      have hfresh : name ∉ ready := by
        simp only [Bool.and_eq_true, Bool.not_eq_true', List.contains_eq_mem,
          decide_eq_false_iff_not] at hnew
        exact hnew.1
      have hadd : Listed d (name :: ready) :=
        ⟨List.nodup_cons.mpr ⟨hfresh, h.1⟩,
          List.forall_mem_cons.mpr ⟨hnames name List.mem_cons_self, h.2⟩⟩
      exact ⟨(ih hrest hadd).1, (Nat.le_succ _).trans (ih hrest hadd).2⟩
    · exact ih hrest h

theorem listed_readyPass (h : Listed d ready) :
    Listed d (readyPass g d ready) ∧ ready.length ≤ (readyPass g d ready).length :=
  listed_foldl (fun _ hn => hn) h

end Passes

end TemplateDag

end PangeaOperator.Migrate
