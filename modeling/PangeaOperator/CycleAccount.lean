import PangeaOperator.CycleRecord

/-!
# What a cycle's counts account for

The counts of a receipt against the drift list it was built from. Outcomes are kept for the
first hundred drifts and counted while they are made, whereas the resources no drift touches
are told by the length of the whole list.
-/

namespace PangeaOperator

namespace CycleSummary

/-- The count that stands for an outcome. -/
def count (s : CycleSummary) : Outcome → Nat
  | .matched => s.matched
  | .updated => s.updated
  | .created => s.created
  | .destroyed => s.destroyed
  | .imported => s.imported
  | .drifted => s.driftedUncorrected
  | .failed => s.failed

def sum (s : CycleSummary) : Nat :=
  s.matched + s.updated + s.created + s.destroyed + s.imported + s.driftedUncorrected + s.failed

theorem changedNothing_iff (s : CycleSummary) :
    s.changedNothing = true ↔ ∀ o, o ≠ Outcome.matched → s.count o = 0 := by
  simp only [changedNothing, Bool.and_eq_true, decide_eq_true_eq]
  constructor
  · intro h o ho
    cases o <;> simp_all [count]
  · intro h
    have hcreated := h .created (by decide)
    have hupdated := h .updated (by decide)
    have hdestroyed := h .destroyed (by decide)
    have himported := h .imported (by decide)
    have hdrifted := h .drifted (by decide)
    have hfailed := h .failed (by decide)
    simp_all [count]

end CycleSummary

/-- The drifts of a list that a cycle's result gives this outcome. -/
def CycleResult.countOf (result : CycleResult) (ds : List DriftDetail) (o : Outcome) : Nat :=
  ds.countP (fun d => (result.outcome d).1 = o)

namespace CycleResult

variable (result : CycleResult)

/-- Each drift has one outcome, so the counts of all outcomes make up the list. -/
theorem countOf_sum (ds : List DriftDetail) :
    result.countOf ds .matched + result.countOf ds .updated + result.countOf ds .created +
      result.countOf ds .destroyed + result.countOf ds .imported + result.countOf ds .drifted +
      result.countOf ds .failed = ds.length := by
  induction ds with
  | nil => simp [countOf]
  | cons d ds ih =>
    simp only [countOf, List.countP_cons, List.length_cons, decide_eq_true_eq] at ih ⊢
    cases (result.outcome d).1 <;> simp <;> omega

theorem countOf_le (ds : List DriftDetail) (o : Outcome) : result.countOf ds o ≤ ds.length :=
  List.countP_le_length

theorem countOf_eq_zero_iff (ds : List DriftDetail) (o : Outcome) :
    result.countOf ds o = 0 ↔ ∀ d ∈ ds, (result.outcome d).1 ≠ o := by
  simp [countOf]

theorem countP_resourceOutcome (ds : List DriftDetail) (o : Outcome) :
    (ds.map result.resourceOutcome).countP (fun r => r.outcome = o) = result.countOf ds o := by
  rw [List.countP_map]
  rfl

/-- Below the limit of a `u32` no count saturates. -/
theorem count_cycleSummary (ds : List DriftDetail) (untouched : Nat)
    (h : ds.length + untouched < 2 ^ 32) (o : Outcome) :
    (cycleSummary (ds.map result.resourceOutcome) untouched).count o =
      result.countOf ds o + if o = .matched then untouched else 0 := by
  have hle := result.countOf_le ds .matched
  have hcount := result.countP_resourceOutcome ds
  cases o <;> simp only [cycleSummary, CycleSummary.count, hcount, saturatingAdd, reduceCtorEq,
    if_true, if_false, Nat.add_zero]
  omega

theorem sum_cycleSummary (ds : List DriftDetail) (untouched : Nat)
    (h : ds.length + untouched < 2 ^ 32) :
    (cycleSummary (ds.map result.resourceOutcome) untouched).sum = ds.length + untouched := by
  have hcount := result.count_cycleSummary ds untouched h
  have hmatched := hcount .matched
  have hupdated := hcount .updated
  have hcreated := hcount .created
  have hdestroyed := hcount .destroyed
  have himported := hcount .imported
  have hdrifted := hcount .drifted
  have hfailed := hcount .failed
  have hsum := result.countOf_sum ds
  simp only [CycleSummary.count, reduceCtorEq, if_false, if_true] at *
  simp only [CycleSummary.sum]
  omega

theorem changedNothing_cycleSummary (ds : List DriftDetail) (untouched : Nat)
    (h : ds.length + untouched < 2 ^ 32) :
    (cycleSummary (ds.map result.resourceOutcome) untouched).changedNothing = true ↔
      ∀ d ∈ ds, (result.outcome d).1 = .matched := by
  rw [CycleSummary.changedNothing_iff]
  constructor
  · intro hzero d hd
    by_contra hne
    have hcount := hzero _ hne
    rw [result.count_cycleSummary ds untouched h, if_neg hne, Nat.add_zero,
      countOf_eq_zero_iff] at hcount
    exact hcount d hd rfl
  · intro hmatched o ho
    rw [result.count_cycleSummary ds untouched h, if_neg ho, Nat.add_zero, countOf_eq_zero_iff]
    intro d hd he
    exact ho (he.symm.trans (hmatched d hd))

end CycleResult

/-- A receipt counts the first hundred drifts, each under its outcome, and the resources that
no drift touches as matched, so the counts sum to the total less the drifts it does not list.
Where it lists them all, "No changes" stands for a succeeded cycle none of whose drifts was
changed. -/
theorem buildReconcileCycle_accounts (nextCycle : Nat) (startedAt completedAt : Time)
    (drifts : List DriftDetail) (total : Nat)
    (planSummary sourceRevision executorName : Option String) (artifact : Option PlanArtifact)
    (result : CycleResult) (htotal : drifts.length ≤ total) (hu32 : total < 2 ^ 32) :
    let c := buildReconcileCycle nextCycle startedAt completedAt drifts total planSummary
      sourceRevision executorName artifact result
    (∀ o, c.summary.count o = result.countOf (drifts.take 100) o +
      if o = .matched then total - drifts.length else 0) ∧
    c.summary.sum + (drifts.length - 100) = total ∧
    (drifts.length ≤ 100 → c.planSummary =
      if result.succeeded = true ∧ ∀ d ∈ drifts, (result.outcome d).1 = .matched then
        some "No changes"
      else planSummary) := by
  have hlength : (drifts.take 100).length = min 100 drifts.length := List.length_take
  have huntouched : total - drifts.length % 2 ^ 32 = total - drifts.length := by
    rw [Nat.mod_eq_of_lt (Nat.lt_of_le_of_lt htotal hu32)]
  have hlt : (drifts.take 100).length + (total - drifts.length) < 2 ^ 32 := by
    rw [hlength]
    omega
  have hsum := result.sum_cycleSummary (drifts.take 100) (total - drifts.length) hlt
  have hnothing := result.changedNothing_cycleSummary (drifts.take 100) (total - drifts.length) hlt
  simp only [buildReconcileCycle, huntouched, Bool.and_eq_true, hnothing, hsum]
  refine ⟨result.count_cycleSummary _ _ hlt, ?_, fun hall => ?_⟩
  · rw [hlength]
    omega
  · rw [List.take_of_length_le hall]

/-- One deleted resource beside one that the plan left alone; its summary is kept. -/
theorem buildReconcileCycle_accounts_delete :
    let c := buildReconcileCycle 1 0 0 [⟨"dns.a", "delete", "high", [], none, none⟩] 2 (some "-1")
      none none none (.appliedSuccess [])
    c.summary.sum = 2 ∧ c.planSummary = some "-1" := by
  have h := buildReconcileCycle_accounts 1 0 0 [⟨"dns.a", "delete", "high", [], none, none⟩] 2
    (some "-1") none none none (.appliedSuccess []) (by decide) (by decide)
  exact ⟨h.2.1, (h.2.2 (by decide)).trans (if_neg (by decide))⟩

/-- A hundred resources the plan keeps as they are, and after them one that it deletes. -/
def deleteAtTheEnd : List DriftDetail :=
  List.replicate 100 ⟨"dns.a", "no-op", "low", [], none, none⟩ ++
    [⟨"dns.b", "delete", "high", [], none, none⟩]

/-- The deleted resource is counted nowhere, and the receipt says that nothing changed. -/
theorem deleteAtTheEnd_not_counted :
    let result := CycleResult.appliedSuccess []
    let c := buildReconcileCycle 1 0 0 deleteAtTheEnd 101 (some "-1") none none none result
    deleteAtTheEnd.length = 101 ∧ result.countOf deleteAtTheEnd .destroyed = 1 ∧
      c.summary.destroyed = 0 ∧ c.summary.sum = 100 ∧ c.planSummary = some "No changes" := by
  decide +kernel

end PangeaOperator
