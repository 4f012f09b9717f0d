import PangeaOperator.Lib.Grounded

/-!
# Orders by counting what is awaited

Points with edges from what is awaited to what waits. Each point has a count of the edges into it
whose source is not placed yet. A point is queued when its count is zero; placing it takes one
off the count of every point behind its edges. However the queue is served, the points that are
placed are those without a cycle behind them, each after all that it waits for.
-/

namespace PangeaOperator

namespace CountedOrder

variable {κ : Type}

section Graph

variable (edges : List (κ × κ))

def Waits (v u : κ) : Prop := (u, v) ∈ edges

/-- Each point of an order stands behind all that it waits for. -/
def Follows (order : List κ) : Prop :=
  ∀ before v after, order = before ++ v :: after → ∀ u, Waits edges v u → u ∈ before

theorem Follows.snoc {edges : List (κ × κ)} {order : List κ} {v : κ} (h : Follows edges order)
    (hv : ∀ u, Waits edges v u → u ∈ order) : Follows edges (order ++ [v]) := by
  intro before w after hsplit u hu
  rcases List.eq_nil_or_concat after with rfl | ⟨after, x, rfl⟩
  · obtain ⟨rfl, hw⟩ := List.append_inj' hsplit rfl
    exact hv u ((List.singleton_inj.mp hw) ▸ hu)
  · rw [List.concat_eq_append, ← List.cons_append, ← List.append_assoc] at hsplit
    obtain ⟨rfl, -⟩ := List.append_inj' hsplit rfl
    exact h before w after rfl u hu

end Graph

variable [DecidableEq κ]

/-- The edges into a point from points that are not placed. -/
def awaited (edges : List (κ × κ)) (order : List κ) (v : κ) : Nat :=
  edges.countP (fun e => e.2 = v ∧ e.1 ∉ order)

/-- The points behind the edges of a point, with repetitions. -/
def targets (edges : List (κ × κ)) (u : κ) : List κ :=
  (edges.filter (fun e => e.1 = u)).map Prod.snd

/-- Counts, queue and order in the middle of placing a point: `rest` are the points whose count
has still to go down by one. -/
structure Inv (edges : List (κ × κ)) (nodes : List κ) (degree : κ → Nat)
    (rest queue order : List κ) : Prop where
  nodup : (order ++ queue).Nodup
  mem : ∀ v ∈ order ++ queue, v ∈ nodes
  counted : ∀ v ∈ nodes, degree v = awaited edges order v + rest.count v
  queued : ∀ v ∈ nodes, degree v = 0 ↔ v ∈ order ++ queue
  follows : Follows edges order

section Lemmas

variable {edges : List (κ × κ)} {nodes rest queue queue' order : List κ} {degree degree' : κ → Nat}
  {u v : κ}

theorem awaited_eq_zero_iff : awaited edges order v = 0 ↔ ∀ u, Waits edges v u → u ∈ order := by
  simp only [awaited, List.countP_eq_zero, Waits, decide_eq_true_eq, not_and, not_not, Prod.forall]
  constructor
  · intro h u hu
    exact h u v hu rfl
  · intro h a b hab hb
    exact h a (hb ▸ hab)

theorem awaited_cons (e : κ × κ) (w : κ) : awaited (e :: edges) order w =
    awaited edges order w + if e.2 = w ∧ e.1 ∉ order then 1 else 0 := by
  simp [awaited, List.countP_cons]

theorem count_targets_cons (e : κ × κ) (w : κ) : (targets (e :: edges) v).count w =
    (targets edges v).count w + if e.1 = v ∧ e.2 = w then 1 else 0 := by
  by_cases hsource : e.1 = v <;> simp [targets, hsource, List.count_cons]

/-- Placing a point turns its edges from awaited ones into ones to be counted down. -/
theorem awaited_snoc (hv : v ∉ order) (w : κ) :
    awaited edges order w = awaited edges (order ++ [v]) w + (targets edges v).count w := by
  induction edges with
  | nil => rfl
  | cons e edges ih =>
    rw [awaited_cons, awaited_cons, count_targets_cons, ih]
    by_cases hsource : e.1 = v
    · have hplaced : e.1 ∉ order := hsource ▸ hv
      by_cases htarget : e.2 = w
      · simp [hsource, htarget, hv]
        omega
      · simp [htarget]
    · simp [hsource]
      omega

theorem mem_targets_iff : v ∈ targets edges u ↔ Waits edges v u := by
  rw [targets, List.mem_map, Waits]
  constructor
  · rintro ⟨e, he, rfl⟩
    obtain ⟨hmem, hsource⟩ := List.mem_filter.mp he
    rw [← of_decide_eq_true hsource]
    exact hmem
  · intro h
    exact ⟨(u, v), List.mem_filter.mpr ⟨h, decide_eq_true rfl⟩, rfl⟩

/-- The targets of distinct points, one after the other, are those of all edges out of them. -/
theorem flatMap_targets_perm (edges : List (κ × κ)) (horder : order.Nodup) :
    (order.flatMap (targets edges)).Perm ((edges.filter (fun e => e.1 ∈ order)).map Prod.snd) := by
  induction order with
  | nil => simp
  | cons u rest ih =>
    obtain ⟨hu, hrest⟩ := List.nodup_cons.mp horder
    have hsplit := List.filter_append_perm (fun e : κ × κ => decide (e.1 = u))
      (edges.filter (fun e => e.1 ∈ u :: rest))
    rw [List.filter_filter, List.filter_filter] at hsplit
    have hfirst : (fun e : κ × κ => decide (e.1 = u) && decide (e.1 ∈ u :: rest)) =
        fun e => decide (e.1 = u) := by
      funext e
      by_cases he : e.1 = u <;> simp [he]
    have hlater : (fun e : κ × κ => !decide (e.1 = u) && decide (e.1 ∈ u :: rest)) =
        fun e => decide (e.1 ∈ rest) := by
      funext e
      by_cases he : e.1 = u <;> simp [he, hu]
    rw [hfirst, hlater] at hsplit
    rw [List.flatMap_cons]
    refine ((ih hrest).append_left _).trans ?_
    rw [targets, ← List.map_append]
    exact hsplit.map Prod.snd

namespace Inv

theorem queue_perm (h : Inv edges nodes degree rest queue order) (hperm : queue.Perm queue') :
    Inv edges nodes degree rest queue' order := by
  have hall : (order ++ queue).Perm (order ++ queue') := hperm.append_left order
  exact ⟨hall.nodup_iff.mp h.nodup, fun v hv => h.mem v (hall.mem_iff.mpr hv), h.counted,
    fun v hv => (h.queued v hv).trans hall.mem_iff, h.follows⟩

/-- A point of the queue waits for placed points only, so it can be placed. -/
theorem place (h : Inv edges nodes degree [] (v :: queue) order) :
    Inv edges nodes degree (targets edges v) queue (order ++ [v]) := by
  have hv : v ∈ nodes := h.mem v (by simp)
  have hnew : v ∉ order := by
    have hnodup := h.nodup
    rw [List.nodup_append'] at hnodup
    exact fun hmem => hnodup.2.2 hmem List.mem_cons_self
  have hzero : awaited edges order v = 0 := by
    have hdegree := h.counted v hv
    rw [(h.queued v hv).mpr (by simp)] at hdegree
    simpa using hdegree.symm
  refine ⟨by simpa using h.nodup, ?_, ?_, ?_, h.follows.snoc (awaited_eq_zero_iff.mp hzero)⟩
  · intro w hw
    exact h.mem w (by simpa using hw)
  · intro w hw
    rw [h.counted w hw, awaited_snoc hnew, List.count_nil, Nat.add_zero]
  · intro w hw
    rw [h.queued w hw]
    simp

/-- A count that has still to go down is not zero. -/
theorem degree_pos (h : Inv edges nodes degree (v :: rest) queue order) (hv : v ∈ nodes) :
    0 < degree v := by
  rw [h.counted v hv, List.count_cons_self]
  omega

/-- It goes down by one, and its point joins the queue at zero. -/
theorem relax (h : Inv edges nodes degree (v :: rest) queue order) (hv : v ∈ nodes)
    (hdegree : ∀ w, degree' w = if w = v then degree v - 1 else degree w)
    (hqueue : queue'.Perm (if degree v - 1 = 0 then v :: queue else queue)) :
    Inv edges nodes degree' rest queue' order := by
  have hpos := h.degree_pos hv
  have hout : v ∉ order ++ queue := by
    rw [← h.queued v hv]
    omega
  refine Inv.queue_perm ?_ hqueue.symm
  refine ⟨?_, ?_, ?_, ?_, h.follows⟩
  · split
    · exact List.nodup_middle.mpr (List.nodup_cons.mpr ⟨hout, h.nodup⟩)
    · exact h.nodup
  · intro w hw
    split at hw
    · rcases List.mem_cons.mp (List.perm_middle.mem_iff.mp hw) with rfl | hw
      · exact hv
      · exact h.mem w hw
    · exact h.mem w hw
  · intro w hw
    have hcount := h.counted w hw
    rw [hdegree]
    split
    · next hwv =>
      subst hwv
      rw [hcount, List.count_cons_self]
      omega
    · next hne =>
      rw [hcount, List.count_cons_of_ne (Ne.symm hne)]
  · intro w hw
    rw [hdegree]
    by_cases hwv : w = v
    · subst hwv
      rw [if_pos rfl]
      split
      · next hzero => simp [hzero]
      · next hzero => simp [hzero, hout]
    · rw [if_neg hwv, h.queued w hw]
      split
      · rw [List.perm_middle.mem_iff, List.mem_cons]
        exact (or_iff_right hwv).symm
      · exact Iff.rfl

/-- When the queue is empty the points that are placed are those without a cycle behind them. -/
theorem mem_order_iff (h : Inv edges nodes degree [] [] order)
    (hnodes : ∀ v u, Waits edges v u → u ∈ nodes) (hv : v ∈ nodes) :
    v ∈ order ↔ ¬ReachesCycle (Waits edges) v := by
  rw [← grounded_iff hnodes]
  constructor
  · intro hmem
    obtain ⟨before, after, rfl⟩ := List.append_of_mem hmem
    clear hmem
    -- along the order: what a point waits for stands further ahead
    induction hlength : before.length using Nat.strong_induction_on generalizing before v after with
    | _ n ih =>
      refine Acc.intro v fun u hu => ?_
      have hbefore := h.follows before v after rfl u hu
      obtain ⟨front, back, rfl⟩ := List.append_of_mem hbefore
      have hsplit : front ++ u :: back ++ v :: after = front ++ u :: (back ++ v :: after) := by simp
      have hlt : front.length < n := by
        rw [← hlength, List.length_append, List.length_cons]
        omega
      exact ih front.length hlt (hnodes v u hu) front (back ++ v :: after) (hsplit ▸ h) rfl
  · intro hground
    induction hground with
    | intro v _ ih =>
      have hzero : degree v = 0 := by
        rw [h.counted v hv, awaited_eq_zero_iff.mpr fun u hu => ih u hu (hnodes v u hu)]
        rfl
      simpa using (h.queued v hv).mp hzero

/-- Every point is placed, once, just in case the points are distinct and there is no cycle. -/
theorem length_order_iff (h : Inv edges nodes degree [] [] order)
    (hnodes : ∀ v u, Waits edges v u → u ∈ nodes ∧ v ∈ nodes) :
    order.length = nodes.length ↔ nodes.Nodup ∧ ¬∃ c, Relation.TransGen (Waits edges) c c := by
  have hsubset : order ⊆ nodes := fun v hv => h.mem v (by simpa using hv)
  have hnodup : order.Nodup := by simpa using h.nodup
  have hmem (v : κ) (hv : v ∈ nodes) := h.mem_order_iff (fun v u hu => (hnodes v u hu).1) hv
  rw [← exists_reachesCycle_iff]
  constructor
  · intro hlength
    have hperm : order.Perm nodes := (hnodup.subperm hsubset).perm_of_length_le hlength.ge
    refine ⟨hperm.nodup_iff.mp hnodup, ?_⟩
    rintro ⟨v, hcycle⟩
    obtain ⟨u, hu, -⟩ := hcycle.next
    have hv := (hnodes v u hu).2
    exact (hmem v hv).mp (hperm.mem_iff.mpr hv) hcycle
  · rintro ⟨hdistinct, hacyclic⟩
    have hall : nodes ⊆ order := fun v hv => (hmem v hv).mpr fun hcycle => hacyclic ⟨v, hcycle⟩
    exact ((hnodup.subperm hsubset).antisymm (hdistinct.subperm hall)).length_eq

end Inv

end Lemmas

end CountedOrder

end PangeaOperator
