import Mathlib
import PangeaOperator.Lib.Run

/-!
# The ratchet of a template's leaves

`pangea-leaf`, `ratchet.rs`. The lowest number of leaf keys and the lowest cycle time seen are the
floor, and an observation above it is reported as a regression. Times are in milliseconds, taken up
to the next second.
-/

namespace PangeaOperator.Ratchet

def u64Max : Nat := 2 ^ 64 - 1

def saturatingAdd (a b : UInt64) : UInt64 := UInt64.ofNat (min (a.toNat + b.toNat) u64Max)

def saturatingMul (a b : UInt64) : UInt64 := UInt64.ofNat (min (a.toNat * b.toNat) u64Max)

def divCeil (a b : UInt64) : UInt64 := if a % b = 0 then a / b else a / b + 1

structure Floor where
  leafKeys : UInt32
  cycleP95Ms : Option UInt64
  deriving DecidableEq, Repr

inductive Metric where
  | leafKeys
  | cycleP95Ms
  deriving DecidableEq, Repr

structure Regression where
  metric : Metric
  floor : UInt64
  now : UInt64
  tolerancePercent : Option UInt32
  deriving DecidableEq, Repr

structure Verdict where
  floor : Floor
  regressions : List Regression
  deriving DecidableEq, Repr

/-- The most a time may be without being a regression. -/
def allowed (f : UInt64) (tolerancePercent : UInt32) : UInt64 :=
  saturatingAdd f (saturatingMul f tolerancePercent.toUInt64 / 100)

def leafKeysRegression (prev : Floor) (leafKeys : UInt32) : List Regression :=
  if leafKeys > prev.leafKeys then
    [⟨.leafKeys, prev.leafKeys.toUInt64, leafKeys.toUInt64, none⟩]
  else []

def cycleRegression (prev : Floor) (cycleP95Ms : Option UInt64) (tolerancePercent : UInt32) :
    List Regression :=
  match prev.cycleP95Ms, cycleP95Ms with
  | some f, some n =>
    if n > allowed f tolerancePercent then [⟨.cycleP95Ms, f, n, some tolerancePercent⟩] else []
  | _, _ => []

def nextP95 : Option UInt64 → Option UInt64 → Option UInt64
  | some f, some n => some (min f n)
  | none, n => n
  | f, none => f

def evaluate (floor : Option Floor) (leafKeys : UInt32) (cycleP95Ms : Option UInt64)
    (tolerancePercent : UInt32) : Verdict :=
  match floor with
  | none => ⟨⟨leafKeys, cycleP95Ms⟩, []⟩
  | some prev =>
    { floor := ⟨min prev.leafKeys leafKeys, nextP95 prev.cycleP95Ms cycleP95Ms⟩
      regressions := leafKeysRegression prev leafKeys ++
        cycleRegression prev cycleP95Ms tolerancePercent }

structure Refusal where
  inputs : String
  reason : String
  deriving DecidableEq, Repr

structure LeafStatus where
  leafKeys : UInt32
  fat : Bool
  cycleP95Ms : Option UInt64
  floor : Option Floor
  regressions : List Regression
  skipReason : Option String
  inputsDigest : Option String
  peakRssBytes : Option UInt64
  refusal : Option Refusal
  deriving DecidableEq, Repr

def p95BucketMs : UInt64 := 1000

def bucketUp (ms : UInt64) : UInt64 := saturatingMul (divCeil ms p95BucketMs) p95BucketMs

def nextStatus (prev : Option LeafStatus) (leafKeys : UInt32) (fat : Bool) (p95Ms : Option UInt64)
    (tolerancePercent : UInt32) (skipReason inputsDigest : Option String) : LeafStatus :=
  let p95 := p95Ms.map bucketUp
  let v := evaluate (prev.bind (·.floor)) leafKeys p95 tolerancePercent
  { leafKeys := leafKeys
    fat := fat
    cycleP95Ms := p95
    floor := some v.floor
    regressions := v.regressions
    skipReason := skipReason
    inputsDigest := inputsDigest
    peakRssBytes := prev.bind (·.peakRssBytes)
    refusal := none }

/-- What one reconcile observes. -/
structure Observation where
  leafKeys : UInt32
  fat : Bool
  p95Ms : Option UInt64
  tolerancePercent : UInt32
  skipReason : Option String
  inputsDigest : Option String

def Observation.bucketed (o : Observation) : Option UInt64 := o.p95Ms.map bucketUp

def observe (prev : Option LeafStatus) (o : Observation) : LeafStatus :=
  nextStatus prev o.leafKeys o.fat o.p95Ms o.tolerancePercent o.skipReason o.inputsDigest

/-- The status after a sequence of observations, from no status at all. -/
def observed (os : List Observation) : Option LeafStatus :=
  run (fun prev o => some (observe prev o)) none os

/-- `n` is over `f` by more than the percentage. -/
def Exceeds (tolerancePercent : UInt32) (f n : UInt64) : Prop :=
  100 * f.toNat + f.toNat * tolerancePercent.toNat < 100 * n.toNat

/-- The same with a product that stays at the last number of 64 bits. -/
def ExceedsSaturated (tolerancePercent : UInt32) (f n : UInt64) : Prop :=
  100 * f.toNat + min (f.toNat * tolerancePercent.toNat) u64Max < 100 * n.toNat

/-- The floor is the minimum of what was seen, and what exceeds the floor of what was seen before
is reported. -/
structure RunningMinimum (exceeds : UInt32 → UInt64 → UInt64 → Prop) (seen : List Observation)
    (o : Observation) (status : LeafStatus) : Prop where
  leafKeys : ∃ floor, status.floor = some floor ∧
    ((seen ++ [o]).map Observation.leafKeys).min? = some floor.leafKeys ∧
    ((seen ++ [o]).filterMap Observation.bucketed).min? = floor.cycleP95Ms
  leafKeysReported : (∃ r ∈ status.regressions, r.metric = .leafKeys) ↔
    ∃ f, (seen.map Observation.leafKeys).min? = some f ∧ f < o.leafKeys
  cycleReported : (∃ r ∈ status.regressions, r.metric = .cycleP95Ms) ↔
    ∃ f n, (seen.filterMap Observation.bucketed).min? = some f ∧ o.bucketed = some n ∧
      exceeds o.tolerancePercent f n

/-- The ratchet over every sequence of observations, and an observation made again. -/
structure Ratchets (exceeds : UInt32 → UInt64 → UInt64 → Prop) : Prop where
  minimum : ∀ seen o, RunningMinimum exceeds seen o (observe (observed seen) o)
  settles : ∀ prev o, observe (some (observe prev o)) o = observe prev o

section Arithmetic

variable {f n : UInt64} {tolerancePercent : UInt32}

theorem toNat_ofNat_min (m : Nat) : (UInt64.ofNat (min m u64Max)).toNat = min m u64Max := by
  apply UInt64.toNat_ofNat_of_lt
  change min m u64Max < 2 ^ 64
  rw [u64Max]
  omega

theorem toNat_le_u64Max (n : UInt64) : n.toNat ≤ u64Max := Nat.le_pred_of_lt n.toNat_lt

theorem toNat_allowed : (allowed f tolerancePercent).toNat =
    min (f.toNat + min (f.toNat * tolerancePercent.toNat) u64Max / 100) u64Max := by
  have hhundred : (100 : UInt64).toNat = 100 := rfl
  rw [allowed, saturatingAdd, toNat_ofNat_min, UInt64.toNat_div, saturatingMul, toNat_ofNat_min,
    UInt32.toNat_toUInt64, hhundred]

/-- The sum may stay at the last number too, but no time is above that. -/
theorem allowed_lt_iff : allowed f tolerancePercent < n ↔
    ExceedsSaturated tolerancePercent f n := by
  have hn := toNat_le_u64Max n
  rw [UInt64.lt_iff_toNat_lt, toNat_allowed, ExceedsSaturated]
  generalize min (f.toNat * tolerancePercent.toNat) u64Max = product
  omega

theorem le_allowed : f ≤ allowed f tolerancePercent := by
  have hf := toNat_le_u64Max f
  rw [UInt64.le_iff_toNat_le, toNat_allowed]
  exact le_min (Nat.le_add_right _ _) hf

end Arithmetic

section Minimum

/-- The minimum of a list with one more item. -/
theorem min?_concat {α : Type} [Min α] (xs : List α) (x : α) :
    (xs ++ [x]).min? = some (xs.min?.elim x (min · x)) := by
  cases xs with
  | nil => rfl
  | cons y ys =>
    rw [List.cons_append, List.min?_cons', List.min?_cons', List.foldl_append]
    rfl

/-- The floor of a sequence of observations. -/
def floorOf (seen : List Observation) : Option Floor :=
  (seen.map Observation.leafKeys).min?.map fun leafKeys =>
    ⟨leafKeys, (seen.filterMap Observation.bucketed).min?⟩

variable {seen : List Observation} {o : Observation}

theorem observed_concat : observed (seen ++ [o]) = some (observe (observed seen) o) :=
  run_append _ _ _ _

theorem floor_observe (prev : Option LeafStatus) (o : Observation) :
    (observe prev o).floor = some (evaluate (prev.bind (·.floor)) o.leafKeys o.bucketed
      o.tolerancePercent).floor := rfl

theorem regressions_observe (prev : Option LeafStatus) (o : Observation) :
    (observe prev o).regressions = (evaluate (prev.bind (·.floor)) o.leafKeys o.bucketed
      o.tolerancePercent).regressions := rfl

theorem nextP95_min? (xs : List UInt64) (n : Option UInt64) :
    nextP95 xs.min? n = (xs ++ n.toList).min? := by
  cases n with
  | none =>
    rw [Option.toList_none, List.append_nil]
    cases xs.min? <;> rfl
  | some n =>
    rw [Option.toList_some, min?_concat]
    cases xs.min? <;> rfl

/-- The floor after one more observation. -/
theorem floorOf_concat (seen : List Observation) (o : Observation) : floorOf (seen ++ [o]) =
    some (evaluate (floorOf seen) o.leafKeys o.bucketed o.tolerancePercent).floor := by
  have hp95 : (seen ++ [o]).filterMap Observation.bucketed =
      seen.filterMap Observation.bucketed ++ o.bucketed.toList := by
    rw [List.filterMap_append]
    cases h : o.bucketed <;> simp [h]
  rw [floorOf, hp95, List.map_append, List.map_singleton, min?_concat, Option.map_some,
    ← nextP95_min?, floorOf]
  cases hkeys : (seen.map Observation.leafKeys).min? with
  | some leafKeys => rfl
  | none =>
    have hnil : seen = [] := by simpa [List.min?_eq_none_iff] using hkeys
    rw [hnil]
    rfl

/-- The floor of the status is that of all that was observed. -/
theorem floor_observed (seen : List Observation) :
    (observed seen).bind (·.floor) = floorOf seen := by
  induction seen using List.reverseRecOn with
  | nil => rfl
  | append_singleton seen o ih =>
    rw [observed_concat, floorOf_concat, Option.bind_some, floor_observe, ih]

theorem leafKeys_reported_iff (floor : Option Floor) (leafKeys : UInt32) (p95 : Option UInt64)
    (tolerancePercent : UInt32) :
    (∃ r ∈ (evaluate floor leafKeys p95 tolerancePercent).regressions, r.metric = .leafKeys) ↔
      ∃ f, floor.map Floor.leafKeys = some f ∧ f < leafKeys := by
  cases floor with
  | none => simp [evaluate]
  | some prev =>
    have hcycle : ∀ r ∈ cycleRegression prev p95 tolerancePercent, r.metric = .cycleP95Ms := by
      intro r hr
      unfold cycleRegression at hr
      split at hr
      · split at hr
        · rw [List.mem_singleton.mp hr]
        · cases hr
      · cases hr
    rw [evaluate, leafKeysRegression]
    by_cases h : prev.leafKeys < leafKeys
    · simp [h]
    · simp only [gt_iff_lt, h, if_false, List.nil_append, Option.map_some, Option.some.injEq,
        exists_eq_left', iff_false, not_exists, not_and]
      intro r hr hmetric
      exact absurd ((hcycle r hr).symm.trans hmetric) (by decide)

theorem cycle_reported_iff (floor : Option Floor) (leafKeys : UInt32) (p95 : Option UInt64)
    (tolerancePercent : UInt32) :
    (∃ r ∈ (evaluate floor leafKeys p95 tolerancePercent).regressions, r.metric = .cycleP95Ms) ↔
      ∃ f n, floor.bind Floor.cycleP95Ms = some f ∧ p95 = some n ∧
        ExceedsSaturated tolerancePercent f n := by
  cases floor with
  | none => simp [evaluate]
  | some prev =>
    have hkeys : ∀ r ∈ leafKeysRegression prev leafKeys, r.metric = .leafKeys := by
      intro r hr
      unfold leafKeysRegression at hr
      split at hr
      · rw [List.mem_singleton.mp hr]
      · cases hr
    have hsplit : (∃ r ∈ leafKeysRegression prev leafKeys ++
          cycleRegression prev p95 tolerancePercent, r.metric = .cycleP95Ms) ↔
        ∃ r ∈ cycleRegression prev p95 tolerancePercent, r.metric = .cycleP95Ms := by
      simp only [List.mem_append, or_and_right, exists_or]
      refine or_iff_right ?_
      rintro ⟨r, hr, hmetric⟩
      exact absurd ((hkeys r hr).symm.trans hmetric) (by decide)
    change (∃ r ∈ leafKeysRegression prev leafKeys ++
      cycleRegression prev p95 tolerancePercent, r.metric = .cycleP95Ms) ↔ _
    rw [hsplit, Option.bind_some]
    unfold cycleRegression
    cases prev.cycleP95Ms with
    | none => simp
    | some f =>
      cases p95 with
      | none => simp
      | some n =>
        by_cases h : ExceedsSaturated tolerancePercent f n
        · simp [h, allowed_lt_iff.mpr h]
        · simp [h, UInt64.not_lt.mp (mt allowed_lt_iff.mp h)]

theorem floorOf_leafKeys (seen : List Observation) :
    (floorOf seen).map Floor.leafKeys = (seen.map Observation.leafKeys).min? := by
  rw [floorOf, Option.map_map]
  exact Option.map_id'

theorem floorOf_cycleP95Ms (seen : List Observation) :
    (floorOf seen).bind Floor.cycleP95Ms = (seen.filterMap Observation.bucketed).min? := by
  cases seen with
  | nil => rfl
  | cons o seen => rfl

theorem running_minimum (seen : List Observation) (o : Observation) :
    RunningMinimum ExceedsSaturated seen o (observe (observed seen) o) where
  leafKeys := by
    refine ⟨_, floor_observe _ _, ?_⟩
    rw [floor_observed]
    have hfloor := floorOf_concat seen o
    obtain ⟨leafKeys, hkeys, hp95⟩ := Option.map_eq_some_iff.mp hfloor
    rw [← hp95]
    exact ⟨hkeys, rfl⟩
  leafKeysReported := by
    rw [regressions_observe, floor_observed, leafKeys_reported_iff, floorOf_leafKeys]
  cycleReported := by
    rw [regressions_observe, floor_observed, cycle_reported_iff, floorOf_cycleP95Ms]

end Minimum

section Again

theorem leafKeysRegression_again (prev : Floor) (leafKeys : UInt32) (p95 : Option UInt64) :
    leafKeysRegression ⟨min prev.leafKeys leafKeys, p95⟩ leafKeys =
      leafKeysRegression prev leafKeys := by
  by_cases h : prev.leafKeys ≤ leafKeys
  · have hmin : min prev.leafKeys leafKeys = prev.leafKeys := if_pos h
    rw [hmin]
    rfl
  · have hmin : min prev.leafKeys leafKeys = leafKeys := if_neg h
    have hlt : ¬leafKeys > prev.leafKeys := fun hgt => h (UInt32.le_of_lt hgt)
    rw [hmin, leafKeysRegression, leafKeysRegression, if_neg hlt, if_neg (UInt32.lt_irrefl _)]

/-- A time that lowers the floor is no regression of the one before, nor of itself. -/
theorem cycleRegression_again (prev : Floor) (leafKeys : UInt32) (p95 : Option UInt64)
    (tolerancePercent : UInt32) :
    cycleRegression ⟨leafKeys, nextP95 prev.cycleP95Ms p95⟩ p95 tolerancePercent =
      cycleRegression prev p95 tolerancePercent := by
  have hself (n : UInt64) : ¬n > allowed n tolerancePercent := UInt64.not_lt.mpr le_allowed
  unfold cycleRegression
  cases prev.cycleP95Ms with
  | none =>
    cases p95 with
    | none => rfl
    | some n => exact if_neg (hself n)
  | some f =>
    cases p95 with
    | none => rfl
    | some n =>
      by_cases h : f ≤ n
      · have hmin : min f n = f := if_pos h
        rw [nextP95, hmin]
      · have hmin : min f n = n := if_neg h
        have hbelow : ¬n > allowed f tolerancePercent := by
          intro hgt
          exact h (UInt64.le_of_lt (UInt64.lt_of_le_of_lt le_allowed hgt))
        rw [nextP95, hmin]
        exact (if_neg (hself n)).trans (if_neg hbelow).symm

theorem nextP95_again (f n : Option UInt64) : nextP95 (nextP95 f n) n = nextP95 f n := by
  cases f with
  | none =>
    cases n with
    | none => rfl
    | some n => exact congrArg some (ite_self n)
  | some f =>
    cases n with
    | none => rfl
    | some n =>
      by_cases h : f ≤ n
      · have hmin : min f n = f := if_pos h
        rw [nextP95, hmin, nextP95, hmin]
      · have hmin : min f n = n := if_neg h
        rw [nextP95, hmin]
        exact congrArg some (ite_self n)

theorem min_again (k n : UInt32) : min (min k n) n = min k n := by
  by_cases h : k ≤ n
  · have hmin : min k n = k := if_pos h
    rw [hmin, hmin]
  · have hmin : min k n = n := if_neg h
    rw [hmin]
    exact ite_self n

theorem evaluate_again (floor : Option Floor) (leafKeys : UInt32) (p95 : Option UInt64)
    (tolerancePercent : UInt32) :
    evaluate (some (evaluate floor leafKeys p95 tolerancePercent).floor) leafKeys p95
      tolerancePercent = evaluate floor leafKeys p95 tolerancePercent := by
  cases floor with
  | none =>
    have hkeys : leafKeysRegression ⟨leafKeys, p95⟩ leafKeys = [] := if_neg (UInt32.lt_irrefl _)
    have hmin : min leafKeys leafKeys = leafKeys := ite_self leafKeys
    have hcycle := cycleRegression_again ⟨leafKeys, none⟩ leafKeys p95 tolerancePercent
    have hp95 := nextP95_again none p95
    change cycleRegression ⟨leafKeys, p95⟩ p95 tolerancePercent = [] at hcycle
    change nextP95 p95 p95 = p95 at hp95
    simp only [evaluate, hkeys, hcycle, hmin, hp95, List.append_nil]
  | some prev =>
    simp only [evaluate, leafKeysRegression_again, cycleRegression_again, nextP95_again, min_again]

theorem observe_again (prev : Option LeafStatus) (o : Observation) :
    observe (some (observe prev o)) o = observe prev o := by
  have hagain := evaluate_again (prev.bind (·.floor)) o.leafKeys o.bucketed o.tolerancePercent
  change evaluate (observe prev o).floor o.leafKeys o.bucketed o.tolerancePercent = _ at hagain
  have hsame : observe (some (observe prev o)) o =
      { observe prev o with
        floor := some (evaluate (observe prev o).floor o.leafKeys o.bucketed
          o.tolerancePercent).floor
        regressions := (evaluate (observe prev o).floor o.leafKeys o.bucketed
          o.tolerancePercent).regressions } := rfl
  rw [hsame, hagain]
  rfl

end Again

theorem ratchets_saturated : Ratchets ExceedsSaturated where
  minimum := running_minimum
  settles := observe_again

/-- A floor of 2 ^ 60 ms, a tolerance of 100 percent and a time half above: the product of the
floor and the percentage does not fit, so not even a fifth of the floor is allowed on top. -/
theorem tolerance_saturates : ¬Ratchets Exceeds := by
  intro h
  let first : Observation := ⟨1, true, some 1152921504606847000, 100, none, none⟩
  let later : Observation := ⟨1, true, some 1729382256910271000, 100, none, none⟩
  have hreported := (h.minimum [first] later).cycleReported.mp
    ⟨⟨.cycleP95Ms, 1152921504606847000, 1729382256910271000, some 100⟩, by decide +kernel, rfl⟩
  obtain ⟨f, n, hf, hn, hexceeds⟩ := hreported
  have hfloor : f = 1152921504606847000 := Option.some.inj (hf.symm.trans (by decide +kernel))
  have hnow : n = 1729382256910271000 := Option.some.inj (hn.symm.trans (by decide +kernel))
  rw [hfloor, hnow] at hexceeds
  exact absurd hexceeds (by unfold Exceeds; decide +kernel)

end PangeaOperator.Ratchet
