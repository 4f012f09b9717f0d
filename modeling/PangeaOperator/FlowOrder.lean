import PangeaOperator.Lib.CountedOrder
import PangeaOperator.Lib.Codec
import PangeaOperator.Lib.SortedMap

/-!
# The order of a flow's steps

`toposort` of `controller/flow_controller.rs`: count the dependencies of each step, and place one
step after the other whose count is zero. The maps are keyed by name, so steps that share a name
share a count.
-/

namespace PangeaOperator

open Json

/-- `FlowStep`, with what the order, the scheduler and the creation of templates read of it. -/
structure FlowStep where
  name : String
  dependsOn : List String
  variables' : Option (SortedMap String Doc)
  source : Option Doc

/-- Why a loop does not come to its end: a counter below zero, or no steps left to take. -/
inductive Halt where
  | underflow
  | outOfFuel
  deriving DecidableEq, Repr

namespace FlowOrder

/-- The two maps that `toposort` builds. -/
structure Degrees where
  inDegree : SortedMap String Nat
  adj : SortedMap String (List String)

/-- A step gets its entries, before its dependencies are counted. -/
def touch (g : Degrees) (step : FlowStep) : Degrees where
  inDegree := g.inDegree.upsert step.name (fun o => o.getD 0)
  adj := g.adj.upsert step.name (fun o => o.getD [])

def countDep (step : FlowStep) (g : Degrees) (dep : String) : Degrees where
  adj := g.adj.upsert dep (fun o => o.getD [] ++ [step.name])
  inDegree := g.inDegree.upsert step.name (fun o => o.getD 0 + 1)

def unknownStepMessage (step dep : String) : String :=
  s!"Step '{step}' depends on unknown step '{dep}'"

def cycleMessage : String := "Cycle detected in flow step dependencies"

def addDep (stepNames : List String) (step : FlowStep) (g : Degrees) (dep : String) :
    Except String Degrees :=
  if dep ∈ stepNames then .ok (countDep step g dep)
  else .error (unknownStepMessage step.name dep)

def addStep (stepNames : List String) (g : Degrees) (step : FlowStep) : Except String Degrees :=
  step.dependsOn.foldlM (addDep stepNames step) (touch g step)

def degreesOf (steps : List FlowStep) : Except String Degrees :=
  steps.foldlM (addStep (steps.map FlowStep.name)) ⟨.empty, .empty⟩

/-- The counters, the queue in its order, and the steps that are placed. -/
structure State where
  inDegree : SortedMap String Nat
  queue : List String
  order : List String

/-- The count of a neighbour goes down by one; at zero it joins the queue. -/
def relax (st : State) (neighbor : String) : Except Halt State :=
  match st.inDegree.get? neighbor with
  | none => .ok st
  | some 0 => .error .underflow
  | some (deg + 1) => .ok
    { st with
      inDegree := st.inDegree.insert neighbor deg
      queue := if deg = 0 then (st.queue ++ [neighbor]).insertionSort (· ≤ ·) else st.queue }

/-- The last of the queue is placed, and its neighbours are relaxed. -/
def place (adj : SortedMap String (List String)) (st : State) (node : String) :
    Except Halt State :=
  ((adj.get? node).getD []).foldlM relax
    { st with queue := st.queue.dropLast, order := st.order ++ [node] }

def run (adj : SortedMap String (List String)) : Nat → State → Except Halt State
  | 0, _ => .error .outOfFuel
  | fuel + 1, st =>
    match st.queue.getLast? with
    | none => .ok st
    | some node => do
      let st ← place adj st node
      run adj fuel st

def start (inDegree : SortedMap String Nat) : State where
  inDegree
  queue := ((inDegree.entries.filter (fun e => e.2 = 0)).map Prod.fst).insertionSort (· ≤ ·)
  order := []

end FlowOrder

open FlowOrder in
/-- `toposort`: the order or the error that it returns, if it returns. -/
def toposort (steps : List FlowStep) : Except Halt (Except String (List String)) :=
  match degreesOf steps with
  | .error message => .ok (.error message)
  | .ok g => do
    let st ← FlowOrder.run g.adj (steps.length + 1) (FlowOrder.start g.inDegree)
    .ok (if st.order.length ≠ steps.length then .error cycleMessage else .ok st.order)

namespace FlowOrder

/-- The dependencies of some steps, as edges from a step to one that waits for it. -/
def edges (steps : List FlowStep) : List (String × String) :=
  steps.flatMap (fun step => step.dependsOn.map (fun dep => (dep, step.name)))

/-- A step of this name depends on the other. -/
def DependsOn (steps : List FlowStep) (name dep : String) : Prop :=
  ∃ step ∈ steps, step.name = name ∧ dep ∈ step.dependsOn

theorem waits_edges_iff {steps : List FlowStep} {name dep : String} :
    CountedOrder.Waits (edges steps) name dep ↔ DependsOn steps name dep := by
  simp only [CountedOrder.Waits, edges, List.mem_flatMap, List.mem_map, Prod.mk.injEq, DependsOn]
  constructor
  · rintro ⟨step, hstep, _, hdep, rfl, hname⟩
    exact ⟨step, hstep, hname, hdep⟩
  · rintro ⟨step, hstep, hname, hdep⟩
    exact ⟨step, hstep, dep, hdep, rfl, hname⟩

section Build

/-- The maps that these edges between these names give. -/
structure Reads (g : Degrees) (es : List (String × String)) (names : List String) : Prop where
  inDegree : ∀ v, g.inDegree.get? v =
    if v ∈ names then some (es.countP (fun e => e.2 = v)) else none
  adj : ∀ u, (g.adj.get? u).getD [] = CountedOrder.targets es u
  named : ∀ e ∈ es, e.2 ∈ names

theorem Reads.touch {g : Degrees} {es : List (String × String)} {names : List String}
    (h : Reads g es names) (step : FlowStep) :
    Reads (touch g step) es (names ++ [step.name]) := by
  refine ⟨fun v => ?_, fun u => ?_, fun e he => List.mem_append_left _ (h.named e he)⟩
  · rw [FlowOrder.touch, SortedMap.get?_upsert]
    by_cases hv : v = step.name
    · subst hv
      rw [if_pos rfl, if_pos (by simp), h.inDegree]
      by_cases hmem : step.name ∈ names
      · simp [hmem]
      · -- no edge goes to a step that was not met before
        have hnone : es.countP (fun e => e.2 = step.name) = 0 := by
          rw [List.countP_eq_zero]
          intro e he
          have hne : e.2 ≠ step.name := fun heq => hmem (heq ▸ h.named e he)
          simpa using hne
        simp [hmem, hnone]
    · rw [if_neg hv, h.inDegree]
      simp [hv]
  · rw [FlowOrder.touch, SortedMap.get?_upsert]
    split
    · next hu => rw [Option.getD_some, hu, h.adj]
    · exact h.adj u

theorem Reads.countDep {g : Degrees} {es : List (String × String)} {names : List String}
    (h : Reads g es names) (step : FlowStep) (hstep : step.name ∈ names) (dep : String) :
    Reads (countDep step g dep) (es ++ [(dep, step.name)]) names := by
  refine ⟨fun v => ?_, fun u => ?_, fun e he => ?_⟩
  · rw [FlowOrder.countDep, SortedMap.get?_upsert]
    by_cases hv : v = step.name
    · subst hv
      rw [if_pos rfl, h.inDegree, if_pos hstep, if_pos hstep]
      simp [List.countP_append]
    · rw [if_neg hv, h.inDegree]
      simp [List.countP_append, Ne.symm hv]
  · rw [FlowOrder.countDep, SortedMap.get?_upsert]
    by_cases hu : u = dep
    · subst hu
      rw [if_pos rfl, Option.getD_some, h.adj]
      simp [CountedOrder.targets]
    · rw [if_neg hu, h.adj]
      simp [CountedOrder.targets, Ne.symm hu]
  · rcases List.mem_append.mp he with he | he
    · exact h.named e he
    · rw [List.mem_singleton.mp he]
      exact hstep

/-- A step whose dependencies are known adds its edges; else its error names the first that is
not. -/
theorem addStep_spec (stepNames : List String) {g : Degrees} {es : List (String × String)}
    {names : List String} (h : Reads g es names) (step : FlowStep) :
    (∃ g', addStep stepNames g step = .ok g' ∧ (∀ dep ∈ step.dependsOn, dep ∈ stepNames) ∧
      Reads g' (es ++ edges [step]) (names ++ [step.name])) ∨
    (∃ message, addStep stepNames g step = .error message ∧
      ∃ dep ∈ step.dependsOn, dep ∉ stepNames) := by
  have hstep : step.name ∈ names ++ [step.name] := by simp
  have hfold (deps : List String) {g : Degrees} {es : List (String × String)}
      (h : Reads g es (names ++ [step.name])) :
      (∃ g', deps.foldlM (addDep stepNames step) g = .ok g' ∧ (∀ dep ∈ deps, dep ∈ stepNames) ∧
        Reads g' (es ++ deps.map (fun dep => (dep, step.name))) (names ++ [step.name])) ∨
      (∃ message, deps.foldlM (addDep stepNames step) g = .error message ∧
        ∃ dep ∈ deps, dep ∉ stepNames) := by
    induction deps generalizing g es with
    | nil => exact .inl ⟨g, rfl, by simp, by simpa using h⟩
    | cons dep deps ih =>
      by_cases hdep : dep ∈ stepNames
      · have hadd : addDep stepNames step g dep = .ok (countDep step g dep) := if_pos hdep
        rw [List.foldlM_cons, hadd]
        rcases ih (h.countDep step hstep dep) with ⟨g', hg, hall, hreads⟩ | ⟨message, hm, hbad⟩
        · exact .inl ⟨g', hg, by simpa [hdep] using hall, by simpa using hreads⟩
        · obtain ⟨d, hd, hnot⟩ := hbad
          exact .inr ⟨message, hm, d, List.mem_cons_of_mem _ hd, hnot⟩
      · have hadd : addDep stepNames step g dep =
            .error (unknownStepMessage step.name dep) := if_neg hdep
        rw [List.foldlM_cons, hadd]
        exact .inr ⟨_, rfl, dep, List.mem_cons_self, hdep⟩
  simpa [addStep, edges] using hfold step.dependsOn (h.touch step)

theorem degreesOf_spec (steps : List FlowStep) :
    (∃ g, degreesOf steps = .ok g ∧
      (∀ step ∈ steps, ∀ dep ∈ step.dependsOn, dep ∈ steps.map FlowStep.name) ∧
      Reads g (edges steps) (steps.map FlowStep.name)) ∨
    (∃ message, degreesOf steps = .error message ∧
      ∃ step ∈ steps, ∃ dep ∈ step.dependsOn, dep ∉ steps.map FlowStep.name) := by
  have hfold (stepNames : List String) (rest : List FlowStep) {g : Degrees}
      {es : List (String × String)} {names : List String} (h : Reads g es names) :
      (∃ g', rest.foldlM (addStep stepNames) g = .ok g' ∧
        (∀ step ∈ rest, ∀ dep ∈ step.dependsOn, dep ∈ stepNames) ∧
        Reads g' (es ++ edges rest) (names ++ rest.map FlowStep.name)) ∨
      (∃ message, rest.foldlM (addStep stepNames) g = .error message ∧
        ∃ step ∈ rest, ∃ dep ∈ step.dependsOn, dep ∉ stepNames) := by
    induction rest generalizing g es names with
    | nil => exact .inl ⟨g, rfl, by simp, by simpa [edges] using h⟩
    | cons step rest ih =>
      rcases addStep_spec stepNames h step with
        ⟨g', hg, hknown, hreads⟩ | ⟨message, hm, hbad⟩
      · rw [List.foldlM_cons, hg]
        rcases ih hreads with ⟨g'', hg', hall, hreads'⟩ | ⟨message, hm, s, hs, hbad⟩
        · exact .inl ⟨g'', hg', List.forall_mem_cons.mpr ⟨hknown, hall⟩,
            by simpa [edges] using hreads'⟩
        · exact .inr ⟨message, hm, s, List.mem_cons_of_mem _ hs, hbad⟩
      · rw [List.foldlM_cons, hm]
        exact .inr ⟨message, rfl, step, List.mem_cons_self, hbad⟩
  have hempty : Reads ⟨.empty, .empty⟩ [] [] := ⟨fun _ => rfl, fun _ => rfl, by simp⟩
  simpa [degreesOf] using hfold (steps.map FlowStep.name) steps hempty

end Build

section Run

open CountedOrder (Inv targets Follows Waits)

variable {steps : List FlowStep}

/-- The count of a name as the map has it. -/
def State.degree (st : State) (v : String) : Nat := (st.inDegree.get? v).getD 0

/-- A state in which the names still to be counted down are these. -/
structure Good (steps : List FlowStep) (st : State) (rest : List String) : Prop where
  inv : Inv (edges steps) (steps.map FlowStep.name) st.degree rest st.queue st.order
  counted : ∀ v ∈ steps.map FlowStep.name, (st.inDegree.get? v).isSome

/-- No counter is taken below zero: a name that is still to be counted down has one to lose. -/
theorem good_relax {st : State} {v : String} {rest : List String} (h : Good steps st (v :: rest))
    (hv : v ∈ steps.map FlowStep.name) :
    ∃ st', relax st v = .ok st' ∧ Good steps st' rest ∧ st'.order = st.order := by
  obtain ⟨deg, hdeg⟩ := Option.isSome_iff_exists.mp (h.counted v hv)
  have hdegree : st.degree v = deg := by rw [State.degree, hdeg, Option.getD_some]
  have hpos := h.inv.degree_pos hv
  rw [hdegree] at hpos
  obtain ⟨n, rfl⟩ : ∃ n, deg = n + 1 := ⟨deg - 1, by omega⟩
  have hrelax : relax st v = .ok
      { st with
        inDegree := st.inDegree.insert v n
        queue := if n = 0 then (st.queue ++ [v]).insertionSort (· ≤ ·) else st.queue } := by
    rw [relax, hdeg]
  refine ⟨_, hrelax, ⟨?_, ?_⟩, rfl⟩
  · refine h.inv.relax hv (fun w => ?_) ?_
    · rw [State.degree, SortedMap.insert, SortedMap.get?_upsert]
      by_cases hw : w = v
      · rw [if_pos hw, if_pos hw, hdegree]
        rfl
      · rw [if_neg hw, if_neg hw]
        rfl
    · rw [hdegree]
      simp only [Nat.add_sub_cancel]
      split
      · exact (List.perm_insertionSort _ _).trans (List.perm_append_singleton v st.queue)
      · exact .refl _
  · intro w hw
    rw [SortedMap.insert, SortedMap.get?_upsert]
    split
    · rfl
    · exact h.counted w hw

theorem good_foldlM_relax {st : State} {rest : List String} (h : Good steps st rest)
    (hrest : ∀ v ∈ rest, v ∈ steps.map FlowStep.name) :
    ∃ st', rest.foldlM relax st = .ok st' ∧ Good steps st' [] ∧ st'.order = st.order := by
  induction rest generalizing st with
  | nil => exact ⟨st, rfl, h, rfl⟩
  | cons v rest ih =>
    obtain ⟨st', hrelax, hgood, horder⟩ := good_relax h (hrest v List.mem_cons_self)
    obtain ⟨st'', hfold, hgood', horder'⟩ :=
      ih hgood fun w hw => hrest w (List.mem_cons_of_mem _ hw)
    refine ⟨st'', ?_, hgood', horder'.trans horder⟩
    rw [List.foldlM_cons, hrelax]
    exact hfold

theorem good_place {g : Degrees} (hg : Reads g (edges steps) (steps.map FlowStep.name))
    {st : State} (h : Good steps st []) {node : String} (hlast : st.queue.getLast? = some node) :
    ∃ st', place g.adj st node = .ok st' ∧ Good steps st' [] ∧ st'.order = st.order ++ [node] := by
  have hqueue : st.queue.Perm (node :: st.queue.dropLast) := by
    obtain ⟨init, hinit⟩ := List.getLast?_eq_some_iff.mp hlast
    rw [hinit, List.dropLast_concat]
    exact List.perm_append_singleton node init
  have hplaced := (h.inv.queue_perm hqueue).place
  rw [place, hg.adj]
  have hgood : Good steps { st with queue := st.queue.dropLast, order := st.order ++ [node] }
      (CountedOrder.targets (edges steps) node) := ⟨hplaced, h.counted⟩
  refine good_foldlM_relax hgood fun v hv => ?_
  exact hg.named _ (CountedOrder.mem_targets_iff.mp hv)

/-- With more fuel than there are steps to place, the loop ends with an empty queue. -/
theorem good_run {g : Degrees} (hg : Reads g (edges steps) (steps.map FlowStep.name)) (fuel : Nat)
    {st : State} (h : Good steps st []) (hfuel : steps.length < fuel + st.order.length) :
    ∃ st', run g.adj fuel st = .ok st' ∧ Good steps st' [] ∧ st'.queue = [] := by
  induction fuel generalizing st with
  | zero =>
    have hnodup : st.order.Nodup := (List.nodup_append'.mp h.inv.nodup).1
    have hle := (hnodup.subperm fun v hv => h.inv.mem v (List.mem_append_left _ hv)).length_le
    rw [List.length_map] at hle
    omega
  | succ fuel ih =>
    rw [run]
    split
    · next hnone => exact ⟨st, rfl, h, List.getLast?_eq_none_iff.mp hnone⟩
    · next node hlast =>
      obtain ⟨st', hplace, hgood, horder⟩ := good_place hg h hlast
      have hlength : st'.order.length = st.order.length + 1 := by
        rw [horder, List.length_append, List.length_singleton]
      obtain ⟨st'', hrun, hgood', hempty⟩ := ih hgood (by omega)
      refine ⟨st'', ?_, hgood', hempty⟩
      rw [hplace]
      exact hrun

theorem good_start {g : Degrees} (hg : Reads g (edges steps) (steps.map FlowStep.name)) :
    Good steps (start g.inDegree) [] := by
  have hmem (v : String) (hv : v ∈ steps.map FlowStep.name) :
      v ∈ (start g.inDegree).queue ↔ (edges steps).countP (fun e => e.2 = v) = 0 := by
    rw [start, (List.perm_insertionSort _ _).mem_iff]
    have hzero : v ∈ (g.inDegree.entries.filter (fun e => e.2 = 0)).map Prod.fst ↔
        g.inDegree.get? v = some 0 := by
      rw [SortedMap.get?_eq_some_iff]
      simp
    rw [hzero, hg.inDegree, if_pos hv, Option.some.injEq]
  have hnames : ∀ v ∈ (start g.inDegree).queue, v ∈ steps.map FlowStep.name := by
    intro v hv
    rw [start, (List.perm_insertionSort _ _).mem_iff] at hv
    obtain ⟨e, he, rfl⟩ := List.mem_map.mp hv
    have hget := SortedMap.get?_of_mem (List.mem_of_mem_filter he)
    rw [hg.inDegree] at hget
    by_contra hnot
    rw [if_neg hnot] at hget
    cases hget
  have hdegree (v : String) (hv : v ∈ steps.map FlowStep.name) :
      (start g.inDegree).degree v = (edges steps).countP (fun e => e.2 = v) := by
    rw [State.degree, start, hg.inDegree, if_pos hv, Option.getD_some]
  refine ⟨⟨?_, hnames, fun v hv => ?_, fun v hv => ?_, ?_⟩, fun v hv => ?_⟩
  · have hkeys : ((g.inDegree.entries.filter (fun e => e.2 = 0)).map Prod.fst).Nodup :=
      g.inDegree.keys_nodup.sublist (List.filter_sublist.map Prod.fst)
    exact (List.perm_insertionSort _ _).nodup_iff.mpr hkeys
  · rw [hdegree v hv]
    simp [CountedOrder.awaited, start]
  · rw [hdegree v hv, ← hmem v hv]
    rfl
  · intro before v after h
    cases before <;> cases h
  · rw [start, hg.inDegree, if_pos hv]
    rfl

end Run

/-- The order holds each step once, behind all that it depends on. -/
structure Sorts (steps : List FlowStep) (order : List String) : Prop where
  perm : order.Perm (steps.map FlowStep.name)
  follows : ∀ before name after, order = before ++ name :: after →
    ∀ dep, DependsOn steps name dep → dep ∈ before

/-- What the sort asks of the steps. -/
structure Sortable (steps : List FlowStep) : Prop where
  distinct : (steps.map FlowStep.name).Nodup
  known : ∀ step ∈ steps, ∀ dep ∈ step.dependsOn, dep ∈ steps.map FlowStep.name
  acyclic : ¬∃ name, Relation.TransGen (DependsOn steps) name name

theorem toposort_cases (steps : List FlowStep) :
    (∃ order, toposort steps = .ok (.ok order) ∧ Sortable steps ∧ Sorts steps order) ∨
    (∃ message, toposort steps = .ok (.error message) ∧ ¬Sortable steps) := by
  have hwaits : CountedOrder.Waits (edges steps) = DependsOn steps := by
    funext name dep
    exact propext waits_edges_iff
  rcases degreesOf_spec steps with ⟨g, hg, hknown, hreads⟩ | ⟨message, hm, s, hs, dep, hdep, hnot⟩
  · obtain ⟨st, hrun, hgood, hempty⟩ := good_run hreads (steps.length + 1) (good_start hreads)
      (by simp [start])
    have hinv := hgood.inv
    rw [hempty] at hinv
    have hnodes (v u : String) (hvu : CountedOrder.Waits (edges steps) v u) :
        u ∈ steps.map FlowStep.name ∧ v ∈ steps.map FlowStep.name := by
      obtain ⟨step, hstep, rfl, hdep⟩ := waits_edges_iff.mp hvu
      exact ⟨hknown step hstep u hdep, List.mem_map_of_mem hstep⟩
    have hlength := hinv.length_order_iff hnodes
    rw [List.length_map, hwaits] at hlength
    have hresult : toposort steps =
        .ok (if st.order.length ≠ steps.length then .error cycleMessage else .ok st.order) := by
      rw [toposort, hg]
      dsimp only
      rw [hrun]
      rfl
    by_cases hall : st.order.length = steps.length
    · left
      obtain ⟨hdistinct, hacyclic⟩ := hlength.mp hall
      refine ⟨st.order, by rw [hresult, if_neg (not_not.mpr hall)], ⟨hdistinct, hknown, hacyclic⟩,
        ?_, fun before name after hsplit dep hdep => ?_⟩
      · have hnodup : st.order.Nodup := by simpa using hinv.nodup
        have hsub := hnodup.subperm fun v hv => hinv.mem v (List.mem_append_left _ hv)
        exact hsub.perm_of_length_le (by rw [List.length_map, hall])
      · exact hinv.follows before name after hsplit dep (waits_edges_iff.mpr hdep)
    · right
      refine ⟨cycleMessage, by rw [hresult, if_pos hall], fun h => hall ?_⟩
      exact hlength.mpr ⟨h.distinct, h.acyclic⟩
  · right
    refine ⟨message, by rw [toposort, hm], fun h => ?_⟩
    exact hnot (h.known s hs dep hdep)

theorem toposort_of_sortable {steps : List FlowStep} (h : Sortable steps) :
    ∃ order, toposort steps = .ok (.ok order) ∧ Sorts steps order := by
  rcases toposort_cases steps with ⟨order, horder, -, hsorts⟩ | ⟨_, -, hnot⟩
  · exact ⟨order, horder, hsorts⟩
  · exact absurd h hnot

/-- The sort always comes to its end, with no counter below zero. It succeeds just in case the
names are distinct, all dependencies are known and there is no cycle, and then it sorts. -/
theorem toposort_spec (steps : List FlowStep) :
    ∃ result, toposort steps = .ok result ∧
      ((∃ order, result = .ok order) ↔ (steps.map FlowStep.name).Nodup ∧
        (∀ step ∈ steps, ∀ dep ∈ step.dependsOn, dep ∈ steps.map FlowStep.name) ∧
        ¬∃ name, Relation.TransGen (DependsOn steps) name name) ∧
      ∀ order, result = .ok order → Sorts steps order := by
  rcases toposort_cases steps with ⟨order, horder, h, hsorts⟩ | ⟨message, hmessage, hnot⟩
  · refine ⟨.ok order, horder, ?_, fun order' heq => ?_⟩
    · exact iff_of_true ⟨order, rfl⟩ ⟨h.distinct, h.known, h.acyclic⟩
    · cases heq
      exact hsorts
  · refine ⟨.error message, hmessage, ?_, fun order heq => by cases heq⟩
    constructor
    · rintro ⟨order, heq⟩
      cases heq
    · rintro ⟨hdistinct, hknown, hacyclic⟩
      exact absurd ⟨hdistinct, hknown, hacyclic⟩ hnot

end FlowOrder

end PangeaOperator
