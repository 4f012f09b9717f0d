import PangeaOperator.Lib.SortedMap

/-!
# Contested keys

Results by their keys, each of which claims keys of another kind where it is a value. The owners of
a key are those that claim it, as often as they do; where there is more than one of them, the key is
contested, and all of them are refused. A value stays when it claims no key twice and no other value
claims one of its keys.
-/

namespace PangeaOperator

namespace Contested

variable {κ ι ω α ε : Type}

section Definitions

variable [LinearOrder κ] [LinearOrder ι]

/-- What a result claims. -/
def claimsOfResult (claimed : α → List ι) (owner : α → ω) : Except ε α → List (ι × ω)
  | .ok a => (claimed a).map (fun n => (n, owner a))
  | .error _ => []

/-- The claims of all values, one after the other. -/
def claimsOf (claimed : α → List ι) (owner : α → ω) (results : SortedMap κ (Except ε α)) :
    List (ι × ω) :=
  results.values.flatMap (claimsOfResult claimed owner)

/-- The owners of each key that is claimed. -/
def owners (claims : List (ι × ω)) : SortedMap ι (List ω) :=
  SortedMap.gather .empty Prod.fst (fun claim found => found.getD [] ++ [claim.2]) claims

/-- What is refused, and why: `key` tells where an owner has its result. -/
def refusals (key : ι → ω → κ) (refusal : ι → List ω → ε) (owned : SortedMap ι (List ω)) :
    List (κ × ε) :=
  (owned.entries.filter (fun e => 1 < e.2.length)).flatMap fun e =>
    e.2.map (fun o => (key e.1 o, refusal e.1 e.2))

def refuse (results : SortedMap κ (Except ε α)) (refused : List (κ × ε)) :
    SortedMap κ (Except ε α) :=
  refused.foldl (fun results r => results.insert r.1 (.error r.2)) results

/-- The results without those that are contested. -/
def settle (claimed : α → List ι) (owner : α → ω) (key : ι → ω → κ) (refusal : ι → List ω → ε)
    (results : SortedMap κ (Except ε α)) : SortedMap κ (Except ε α) :=
  refuse results (refusals key refusal (owners (claimsOf claimed owner results)))

/-- The owners of a key lead back to their results. -/
def Keyed (claimed : α → List ι) (owner : α → ω) (key : ι → ω → κ)
    (results : SortedMap κ (Except ε α)) : Prop :=
  ∀ k a, results.get? k = some (.ok a) → ∀ n ∈ claimed a, key n (owner a) = k

end Definitions

section Owners

variable [LinearOrder ι]

theorem get?_owners (claims : List (ι × ω)) (n : ι) : ((owners claims).get? n).getD [] =
    (claims.filter (fun claim => claim.1 = n)).map Prod.snd := by
  have hfold (xs : List (ι × ω)) (found : Option (List ω)) :
      (xs.foldl (fun o x => some (o.getD [] ++ [x.2])) found).getD [] =
        found.getD [] ++ xs.map Prod.snd := by
    induction xs generalizing found with
    | nil => simp
    | cons x xs ih => simp [ih]
  rw [owners, SortedMap.get?_gather, hfold]
  rfl

theorem mem_refusals {key : ι → ω → κ} {refusal : ι → List ω → ε} {owned : SortedMap ι (List ω)}
    {k : κ} : k ∈ (refusals key refusal owned).map Prod.fst ↔
      ∃ n, 1 < ((owned.get? n).getD []).length ∧ ∃ o ∈ (owned.get? n).getD [], key n o = k := by
  rw [refusals, List.map_flatMap, List.mem_flatMap]
  constructor
  · rintro ⟨⟨n, os⟩, he, hmem⟩
    obtain ⟨he, hlength⟩ := List.mem_filter.mp he
    obtain ⟨r, hr, rfl⟩ := List.mem_map.mp hmem
    obtain ⟨o, ho, rfl⟩ := List.mem_map.mp hr
    have hget : owned.get? n = some os := SortedMap.get?_of_mem he
    refine ⟨n, ?_, o, ?_, rfl⟩
    · rw [hget]
      simpa using hlength
    · rw [hget]
      exact ho
  · rintro ⟨n, hlength, o, ho, rfl⟩
    cases hget : owned.get? n with
    | none =>
      rw [hget] at ho
      cases ho
    | some os =>
      rw [hget] at hlength ho
      refine ⟨(n, os), List.mem_filter.mpr ⟨SortedMap.get?_eq_some_iff.mp hget, ?_⟩, ?_⟩
      · simpa using hlength
      · exact List.mem_map_of_mem (List.mem_map_of_mem ho)

end Owners

section Refuse

variable [LinearOrder κ] {results : SortedMap κ (Except ε α)} {refused : List (κ × ε)} {k : κ}

theorem get?_refuse (results : SortedMap κ (Except ε α)) (refused : List (κ × ε)) (k : κ) :
    (refuse results refused).get? k =
      ((refused.filter (fun r => r.1 = k)).getLast?.map (fun r => .error r.2)).or
        (results.get? k) := by
  induction refused generalizing results with
  | nil => rfl
  | cons r refused ih =>
    rw [refuse, List.foldl_cons]
    change (refuse (results.insert r.1 (.error r.2)) refused).get? k = _
    rw [ih, SortedMap.insert, SortedMap.get?_upsert]
    by_cases hk : r.1 = k
    · rw [if_pos hk.symm, List.filter_cons_of_pos (by simpa using hk), List.getLast?_cons]
      cases (refused.filter (fun r => r.1 = k)).getLast? <;> rfl
    · rw [if_neg (Ne.symm hk), List.filter_cons_of_neg (by simpa using hk)]

/-- A value stays where it is not refused. -/
theorem get?_refuse_ok_iff {a : α} : (refuse results refused).get? k = some (.ok a) ↔
    results.get? k = some (.ok a) ∧ k ∉ refused.map Prod.fst := by
  rw [get?_refuse]
  cases hlast : (refused.filter (fun r => r.1 = k)).getLast? with
  | none =>
    rw [List.getLast?_eq_none_iff, List.filter_eq_nil_iff] at hlast
    have hfree : k ∉ refused.map Prod.fst := by
      rintro hmem
      obtain ⟨r, hr, rfl⟩ := List.mem_map.mp hmem
      exact hlast r hr (by simp)
    simp [hfree]
  | some r =>
    have hmem := List.mem_filter.mp (List.mem_of_getLast? hlast)
    have hk : r.1 = k := by simpa using hmem.2
    have hrefused : k ∈ refused.map Prod.fst := List.mem_map.mpr ⟨r, hmem.1, hk⟩
    simp [hrefused]

/-- The keys of the results stay the same. -/
theorem isSome_get?_refuse (h : k ∈ refused.map Prod.fst → (results.get? k).isSome) :
    ((refuse results refused).get? k).isSome ↔ (results.get? k).isSome := by
  rw [get?_refuse]
  cases hlast : (refused.filter (fun r => r.1 = k)).getLast? with
  | none => rfl
  | some r =>
    have hmem := List.mem_filter.mp (List.mem_of_getLast? hlast)
    have hk : r.1 = k := by simpa using hmem.2
    simp [h (List.mem_map.mpr ⟨r, hmem.1, hk⟩)]

end Refuse

section Counts

variable [DecidableEq ι] {claimed : α → List ι}

theorem countP_claimsOfResult (owner : α → ω) (a : α) (n : ι) :
    (claimsOfResult claimed owner (Except.ok a : Except ε α)).countP (fun claim => claim.1 = n) =
      (claimed a).count n := by
  rw [claimsOfResult, List.countP_map, List.count_eq_countP]
  exact List.countP_congr fun m _ => by simp

theorem countP_claims_eq_zero_iff (owner : α → ω) (es : List (κ × Except ε α)) (n : ι) :
    ((es.map Prod.snd).flatMap (claimsOfResult claimed owner)).countP (fun claim => claim.1 = n) =
      0 ↔ ∀ k a, (k, .ok a) ∈ es → n ∉ claimed a := by
  rw [List.countP_eq_zero]
  constructor
  · intro h k a he hn
    refine h (n, owner a) (List.mem_flatMap.mpr ⟨.ok a, List.mem_map_of_mem he, ?_⟩) (by simp)
    exact List.mem_map_of_mem hn
  · rintro h ⟨m, o⟩ hmem hm
    obtain ⟨result, hresult, hmem⟩ := List.mem_flatMap.mp hmem
    obtain ⟨⟨k, v⟩, he, rfl⟩ := List.mem_map.mp hresult
    cases v with
    | error e => cases hmem
    | ok a =>
      obtain ⟨m', hm', heq⟩ := List.mem_map.mp hmem
      cases heq
      have hsame : m = n := by simpa using hm
      exact h k a he (hsame ▸ hm')

end Counts

section Claims

variable [LinearOrder κ] {claimed : α → List ι} {owner : α → ω} {results : SortedMap κ (Except ε α)}

theorem mem_claimsOf {n : ι} {o : ω} : (n, o) ∈ claimsOf claimed owner results ↔
    ∃ k a, results.get? k = some (.ok a) ∧ n ∈ claimed a ∧ owner a = o := by
  rw [claimsOf, List.mem_flatMap]
  constructor
  · rintro ⟨result, hresult, hmem⟩
    obtain ⟨⟨k, v⟩, he, rfl⟩ := List.mem_map.mp hresult
    cases v with
    | error e => cases hmem
    | ok a =>
      obtain ⟨m, hm, heq⟩ := List.mem_map.mp hmem
      cases heq
      exact ⟨k, a, SortedMap.get?_of_mem he, hm, rfl⟩
  · rintro ⟨k, a, hget, hn, rfl⟩
    have he := SortedMap.get?_eq_some_iff.mp hget
    exact ⟨.ok a, List.mem_map_of_mem he, List.mem_map_of_mem hn⟩

/-- A key that a value claims has one owner when the value claims it once, and no other does. -/
theorem countP_claimsOf_le_one_iff [DecidableEq ι] {k : κ} {a : α}
    (hget : results.get? k = some (.ok a)) {n : ι} (hn : n ∈ claimed a) :
    (claimsOf claimed owner results).countP (fun claim => claim.1 = n) ≤ 1 ↔
      (claimed a).count n ≤ 1 ∧
        ∀ j b, results.get? j = some (.ok b) → j ≠ k → n ∉ claimed b := by
  obtain ⟨front, back, hsplit⟩ := List.append_of_mem (SortedMap.get?_eq_some_iff.mp hget)
  have hnodup := results.keys_nodup
  rw [SortedMap.keys, hsplit, List.map_append, List.map_cons, List.nodup_middle,
    List.nodup_cons] at hnodup
  have hothers : (∀ j b, results.get? j = some (.ok b) → j ≠ k → n ∉ claimed b) ↔
      (∀ j b, (j, .ok b) ∈ front → n ∉ claimed b) ∧ ∀ j b, (j, .ok b) ∈ back → n ∉ claimed b := by
    constructor
    · intro h
      refine ⟨fun j b hb => ?_, fun j b hb => ?_⟩
      · refine h j b (SortedMap.get?_of_mem (hsplit ▸ List.mem_append_left _ hb)) ?_
        rintro rfl
        exact hnodup.1 (List.mem_append_left _ (List.mem_map.mpr ⟨_, hb, rfl⟩))
      · have hmem : (j, Except.ok b) ∈ (k, Except.ok a) :: back := List.mem_cons_of_mem _ hb
        refine h j b (SortedMap.get?_of_mem (hsplit ▸ List.mem_append_right _ hmem)) ?_
        rintro rfl
        exact hnodup.1 (List.mem_append_right _ (List.mem_map.mpr ⟨_, hb, rfl⟩))
    · rintro ⟨hfront, hback⟩ j b hb hne
      have hmem := SortedMap.get?_eq_some_iff.mp hb
      rw [hsplit, List.mem_append, List.mem_cons] at hmem
      rcases hmem with hmem | heq | hmem
      · exact hfront j b hmem
      · exact absurd (Prod.mk.inj heq).1 hne
      · exact hback j b hmem
  have hcount : 0 < (claimed a).count n := List.count_pos_iff.mpr hn
  rw [hothers, ← countP_claims_eq_zero_iff owner, ← countP_claims_eq_zero_iff owner, claimsOf,
    SortedMap.values, hsplit, List.map_append, List.map_cons, List.flatMap_append,
    List.flatMap_cons, List.countP_append, List.countP_append, countP_claimsOfResult]
  omega

end Claims

section Settle

variable [LinearOrder κ] [LinearOrder ι] {claimed : α → List ι} {owner : α → ω} {key : ι → ω → κ}
  {refusal : ι → List ω → ε} {results : SortedMap κ (Except ε α)} {k : κ}

theorem length_owners (claimed : α → List ι) (owner : α → ω) (results : SortedMap κ (Except ε α))
    (n : ι) : (((owners (claimsOf claimed owner results)).get? n).getD []).length =
      (claimsOf claimed owner results).countP (fun claim => claim.1 = n) := by
  rw [get?_owners, List.length_map, List.countP_eq_length_filter]

theorem mem_owners {n : ι} {o : ω} :
    o ∈ ((owners (claimsOf claimed owner results)).get? n).getD [] ↔
      ∃ j b, results.get? j = some (.ok b) ∧ n ∈ claimed b ∧ owner b = o := by
  rw [get?_owners, ← mem_claimsOf]
  simp

/-- The owner of a result that is refused leads back to it. -/
theorem refused_iff (hkeyed : Keyed claimed owner key results) {a : α}
    (hget : results.get? k = some (.ok a)) :
    k ∈ (refusals key refusal (owners (claimsOf claimed owner results))).map Prod.fst ↔
      ∃ n ∈ claimed a, 1 < (claimsOf claimed owner results).countP (fun claim => claim.1 = n) := by
  rw [mem_refusals]
  simp only [length_owners, mem_owners]
  constructor
  · rintro ⟨n, hlength, -, ⟨j, b, hb, hn, rfl⟩, hk⟩
    have hj : j = k := (hkeyed j b hb n hn).symm.trans hk
    subst hj
    cases hget.symm.trans hb
    exact ⟨n, hn, hlength⟩
  · rintro ⟨n, hn, hlength⟩
    exact ⟨n, hlength, owner a, ⟨k, a, hget, hn, rfl⟩, hkeyed k a hget n hn⟩

/-- A value stays when it claims no key twice, and no other value claims one of its keys. -/
theorem settle_ok_iff (hkeyed : Keyed claimed owner key results) {a : α} :
    (settle claimed owner key refusal results).get? k = some (.ok a) ↔
      results.get? k = some (.ok a) ∧ (claimed a).Nodup ∧
        ∀ j b, results.get? j = some (.ok b) → j ≠ k → ∀ n ∈ claimed a, n ∉ claimed b := by
  rw [settle, get?_refuse_ok_iff]
  refine and_congr_right fun hget => ?_
  rw [refused_iff hkeyed hget]
  push Not
  constructor
  · intro h
    have hone (n : ι) (hn : n ∈ claimed a) := (countP_claimsOf_le_one_iff hget hn).mp (h n hn)
    refine ⟨List.nodup_iff_count_le_one.mpr fun n => ?_, fun j b hb hne n hn =>
      (hone n hn).2 j b hb hne⟩
    by_cases hn : n ∈ claimed a
    · exact (hone n hn).1
    · rw [List.count_eq_zero_of_not_mem hn]
      exact Nat.zero_le 1
  · rintro ⟨hnodup, hothers⟩ n hn
    exact (countP_claimsOf_le_one_iff hget hn).mpr
      ⟨List.nodup_iff_count_le_one.mp hnodup n, fun j b hb hne => hothers j b hb hne n hn⟩

/-- Each result stays at its key, as it was or refused. -/
theorem isSome_settle (hkeyed : Keyed claimed owner key results) :
    ((settle claimed owner key refusal results).get? k).isSome ↔ (results.get? k).isSome := by
  refine isSome_get?_refuse fun hk => ?_
  obtain ⟨n, -, o, ho, rfl⟩ := mem_refusals.mp hk
  obtain ⟨j, b, hb, hn, rfl⟩ := mem_owners.mp ho
  rw [hkeyed j b hb n hn, hb]
  rfl

end Settle

end Contested

end PangeaOperator
