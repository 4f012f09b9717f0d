import Mathlib.Data.List.Nodup
import Mathlib.Data.List.Sort

/-!
# Tables with a unique key

A table with a `BIGSERIAL` identity and a unique key column, under `INSERT … ON CONFLICT DO
UPDATE`, `DELETE` and `SELECT … ORDER BY … DESC`. What the statements do to the keys and
values, ids apart, is a function of the keys and values alone.
-/

namespace PangeaOperator

structure SqlRow (κ ν : Type) where
  id : Nat
  key : κ
  value : ν
  deriving DecidableEq, Repr

namespace SqlRow

variable {κ ν : Type}

def pair (r : SqlRow κ ν) : κ × ν := (r.key, r.value)

def set [DecidableEq κ] (k : κ) (v : ν) (r : SqlRow κ ν) : SqlRow κ ν :=
  if r.key = k then { r with value := v } else r

variable [DecidableEq κ] (k : κ) (v : ν) (r : SqlRow κ ν)

@[simp] theorem set_id : (r.set k v).id = r.id := by unfold set; split <;> rfl
@[simp] theorem set_key : (r.set k v).key = r.key := by unfold set; split <;> rfl

theorem set_pair : (r.set k v).pair = if r.pair.1 = k then (k, v) else r.pair := by
  unfold set pair
  split
  · next h => rw [h]
  · rfl

end SqlRow

/-- Rows in the order of their ids, which the sequence has all passed, with one row for a key. -/
structure SqlTable (κ ν : Type) where
  rows : List (SqlRow κ ν)
  nextId : Nat
  ids : rows.Pairwise (fun r s => r.id < s.id)
  fresh : ∀ r ∈ rows, r.id < nextId
  keys : (rows.map SqlRow.key).Nodup

section Assoc

variable {κ ν : Type} [DecidableEq κ]

/-- An upsert, on keys and values alone: in place, or at the end. -/
def assocPut (c : List (κ × ν)) (k : κ) (v : ν) : List (κ × ν) :=
  if k ∈ c.map Prod.fst then c.map (fun e => if e.1 = k then (k, v) else e) else c ++ [(k, v)]

def assocGet (c : List (κ × ν)) (k : κ) : Option (κ × ν) := c.find? (·.1 = k)

def assocErase (c : List (κ × ν)) (k : κ) : List (κ × ν) := c.filter (·.1 ≠ k)

theorem mem_assocPut (c : List (κ × ν)) (k : κ) (v : ν) : k ∈ (assocPut c k v).map Prod.fst := by
  unfold assocPut
  split
  · next h =>
    obtain ⟨e, he, rfl⟩ := List.mem_map.mp h
    rw [List.map_map]
    refine List.mem_map.mpr ⟨e, he, ?_⟩
    simp
  · simp

theorem assocPut_idem (c : List (κ × ν)) (k : κ) (v : ν) :
    assocPut (assocPut c k v) k v = assocPut c k v := by
  rw [assocPut, if_pos (mem_assocPut c k v)]
  conv_rhs => rw [← List.map_id (assocPut c k v)]
  apply List.map_congr_left
  intro e he
  rw [id]
  split
  · next hk =>
    -- the only pair with the key is the one that was put
    unfold assocPut at he
    split at he
    · obtain ⟨f, -, rfl⟩ := List.mem_map.mp he
      by_cases hf : f.1 = k
      · rw [if_pos hf]
      · rw [if_neg hf] at hk
        exact absurd hk hf
    · next hnot =>
      rcases List.mem_append.mp he with hc | hc
      · exact absurd (hk ▸ List.mem_map_of_mem hc) hnot
      · rw [List.mem_singleton.mp hc]
  · rfl

theorem assocErase_idem (c : List (κ × ν)) (k : κ) :
    assocErase (assocErase c k) k = assocErase c k := by
  simp [assocErase, List.filter_filter]

theorem not_mem_assocErase (c : List (κ × ν)) (k : κ) : k ∉ (assocErase c k).map Prod.fst := by
  simp [assocErase]

theorem assocErase_of_not_mem {c : List (κ × ν)} {k : κ} (h : k ∉ c.map Prod.fst) :
    assocErase c k = c := by
  rw [assocErase, List.filter_eq_self]
  intro e he
  rw [decide_eq_true_eq]
  exact fun hk => h (hk ▸ List.mem_map_of_mem he)

theorem assocGet_eq_some_iff {c : List (κ × ν)} (hc : (c.map Prod.fst).Nodup) {k : κ}
    {e : κ × ν} : assocGet c k = some e ↔ e ∈ c ∧ e.1 = k := by
  constructor
  · intro h
    have hk := List.find?_some h
    rw [decide_eq_true_eq] at hk
    exact ⟨List.mem_of_find?_eq_some h, hk⟩
  · rintro ⟨he, rfl⟩
    cases hget : assocGet c e.1 with
    | none =>
      have hnone := List.find?_eq_none.mp hget e he
      simp at hnone
    | some f =>
      have hf := List.find?_some hget
      rw [decide_eq_true_eq] at hf
      rw [List.inj_on_of_nodup_map hc (List.mem_of_find?_eq_some hget) he hf]

theorem assocGet_perm {c c' : List (κ × ν)} (hc : (c.map Prod.fst).Nodup) (h : c.Perm c') (k : κ) :
    assocGet c k = assocGet c' k := by
  have hc' : (c'.map Prod.fst).Nodup := (h.map Prod.fst).nodup_iff.mp hc
  apply Option.ext
  intro e
  rw [assocGet_eq_some_iff hc, assocGet_eq_some_iff hc', h.mem_iff]

theorem assocGet_isSome_iff (c : List (κ × ν)) (k : κ) :
    (assocGet c k).isSome = true ↔ k ∈ c.map Prod.fst := by
  rw [assocGet, List.find?_isSome]
  simp

theorem assocErase_perm {c c' : List (κ × ν)} (h : c.Perm c') (k : κ) :
    (assocErase c k).Perm (assocErase c' k) := h.filter _

theorem assocErase_nodup {c : List (κ × ν)} (hc : (c.map Prod.fst).Nodup) (k : κ) :
    ((assocErase c k).map Prod.fst).Nodup := hc.sublist (List.filter_sublist.map _)

theorem assocPut_cons_ne {e : κ × ν} {c : List (κ × ν)} {k : κ} (he : e.1 ≠ k) (v : ν) :
    assocPut (e :: c) k v = e :: assocPut c k v := by
  unfold assocPut
  simp only [List.map_cons, List.mem_cons, he, Ne.symm he, false_or, if_false]
  split <;> rfl

/-- Up to order, an upsert is the pair before the rest. -/
theorem assocPut_perm {c : List (κ × ν)} (hc : (c.map Prod.fst).Nodup) (k : κ) (v : ν) :
    (assocPut c k v).Perm ((k, v) :: assocErase c k) := by
  induction c with
  | nil => simp [assocPut, assocErase]
  | cons e c ih =>
    rw [List.map_cons, List.nodup_cons] at hc
    by_cases he : e.1 = k
    · have hrest : assocErase c k = c := assocErase_of_not_mem (he ▸ hc.1)
      have hmap : c.map (fun e => if e.1 = k then (k, v) else e) = c := by
        conv_rhs => rw [← List.map_id c]
        apply List.map_congr_left
        intro f hf
        have hne : f.1 ≠ k := fun hk => hc.1 (by rw [he, ← hk]; exact List.mem_map_of_mem hf)
        rw [if_neg hne, id]
      have herase : assocErase (e :: c) k = assocErase c k := by simp [assocErase, he]
      rw [herase, hrest, assocPut, if_pos (by simp [he]), List.map_cons, if_pos he, hmap]
    · have herase : assocErase (e :: c) k = e :: assocErase c k := by simp [assocErase, he]
      rw [assocPut_cons_ne he, herase]
      exact ((ih hc.2).cons e).trans (List.Perm.swap _ _ _)

section MapValues

variable {μ : Type} (f : ν → μ) (c : List (κ × ν)) (k : κ) (v : ν)

theorem map_assocGet :
    (assocGet c k).map (Prod.map id f) = assocGet (c.map (Prod.map id f)) k := by
  simp only [assocGet, List.find?_map]
  rfl

theorem map_assocErase :
    (assocErase c k).map (Prod.map id f) = assocErase (c.map (Prod.map id f)) k := by
  simp only [assocErase, List.filter_map]
  rfl

theorem map_assocPut :
    (assocPut c k v).map (Prod.map id f) = assocPut (c.map (Prod.map id f)) k (f v) := by
  have hkeys : (c.map (Prod.map id f)).map Prod.fst = c.map Prod.fst := by
    rw [List.map_map]
    rfl
  unfold assocPut
  rw [hkeys]
  split
  · rw [List.map_map, List.map_map]
    apply List.map_congr_left
    intro e _
    simp only [Function.comp_apply, Prod.map_fst, id]
    split <;> rfl
  · rw [List.map_append]
    rfl

end MapValues

end Assoc

namespace SqlTable

variable {κ ν : Type}

def empty : SqlTable κ ν := ⟨[], 1, List.Pairwise.nil, nofun, List.nodup_nil⟩

def content (t : SqlTable κ ν) : List (κ × ν) := t.rows.map SqlRow.pair

theorem content_fst (t : SqlTable κ ν) : t.content.map Prod.fst = t.rows.map SqlRow.key := by
  rw [content, List.map_map]
  rfl

variable [DecidableEq κ]

/-- The conflict takes a number of the sequence too. -/
def upsert (t : SqlTable κ ν) (k : κ) (v : ν) : SqlTable κ ν :=
  if h : k ∈ t.rows.map SqlRow.key then
    { rows := t.rows.map (SqlRow.set k v)
      nextId := t.nextId + 1
      ids := by
        rw [List.pairwise_map]
        simpa using t.ids
      fresh := by
        intro r hr
        obtain ⟨s, hs, rfl⟩ := List.mem_map.mp hr
        rw [SqlRow.set_id]
        exact Nat.lt_succ_of_lt (t.fresh s hs)
      keys := by
        have hkeys : SqlRow.key ∘ SqlRow.set k v = SqlRow.key := by
          funext r
          exact SqlRow.set_key k v r
        rw [List.map_map, hkeys]
        exact t.keys }
  else
    { rows := t.rows ++ [⟨t.nextId, k, v⟩]
      nextId := t.nextId + 1
      ids := by
        refine List.pairwise_append.mpr ⟨t.ids, List.pairwise_singleton _ _, fun r hr s hs => ?_⟩
        rw [List.mem_singleton.mp hs]
        exact t.fresh r hr
      fresh := by
        intro r hr
        rcases List.mem_append.mp hr with hr | hr
        · exact Nat.lt_succ_of_lt (t.fresh r hr)
        · rw [List.mem_singleton.mp hr]
          exact Nat.lt_succ_self _
      keys := by
        rw [List.map_append]
        exact List.nodup_append'.mpr ⟨t.keys, List.nodup_singleton _, by simpa using h⟩ }

def delete (t : SqlTable κ ν) (k : κ) : SqlTable κ ν where
  rows := t.rows.filter (·.key ≠ k)
  nextId := t.nextId
  ids := t.ids.sublist List.filter_sublist
  fresh r hr := t.fresh r (List.mem_filter.mp hr).1
  keys := t.keys.sublist (List.filter_sublist.map _)

def find (t : SqlTable κ ν) (k : κ) : Option (SqlRow κ ν) := t.rows.find? (·.key = k)

theorem content_upsert (t : SqlTable κ ν) (k : κ) (v : ν) :
    (t.upsert k v).content = assocPut t.content k v := by
  unfold upsert assocPut
  rw [content_fst]
  split
  · simp only [content, List.map_map]
    apply List.map_congr_left
    intro r _
    exact SqlRow.set_pair k v r
  · simp [content, SqlRow.pair]

theorem content_delete (t : SqlTable κ ν) (k : κ) :
    (t.delete k).content = assocErase t.content k := by
  simp only [content, delete, assocErase, List.filter_map]
  rfl

theorem find_pair (t : SqlTable κ ν) (k : κ) :
    (t.find k).map SqlRow.pair = assocGet t.content k := by
  simp only [find, assocGet, content, List.find?_map]
  rfl

/-- The rows that a `DELETE` affects. -/
def affected (t : SqlTable κ ν) (k : κ) : Nat := t.rows.countP (·.key = k)

theorem affected_pos_iff (t : SqlTable κ ν) (k : κ) :
    0 < t.affected k ↔ k ∈ t.content.map Prod.fst := by
  rw [content_fst, affected, List.countP_pos_iff]
  simp

end SqlTable

section OrderBy

variable {α : Type}

def orderByDesc (f : α → Nat) (rows : List α) : List α :=
  rows.insertionSort (fun a b => f b ≤ f a)

/-- Rows that are put in strict order by the column come back in that order. -/
theorem orderByDesc_eq {f : α → Nat} {rows sorted : List α} (hperm : rows.Perm sorted)
    (hsorted : sorted.Pairwise (fun a b => f b < f a)) : orderByDesc f rows = sorted := by
  have hnodup : (sorted.map f).Nodup := by
    rw [List.Nodup, List.pairwise_map]
    exact hsorted.imp (fun h => (Nat.ne_of_lt h).symm)
  have hperm' : (orderByDesc f rows).Perm sorted := (List.perm_insertionSort _ _).trans hperm
  have : Std.Total (fun a b : α => f b ≤ f a) := ⟨fun a b => Nat.le_total (f b) (f a)⟩
  have : IsTrans α (fun a b => f b ≤ f a) := ⟨fun a b c hab hbc => Nat.le_trans hbc hab⟩
  have hanti : ∀ a b, a ∈ orderByDesc f rows → b ∈ sorted → f b ≤ f a → f a ≤ f b → a = b := by
    intro a b ha hb hba hab
    exact List.inj_on_of_nodup_map hnodup (hperm'.subset ha) hb (Nat.le_antisymm hab hba)
  exact List.Perm.eq_of_pairwise hanti (List.pairwise_insertionSort _ _)
    (hsorted.imp Nat.le_of_lt) hperm'

theorem SqlTable.orderById {κ ν : Type} (t : SqlTable κ ν) :
    orderByDesc SqlRow.id t.rows = t.rows.reverse :=
  orderByDesc_eq (List.reverse_perm _).symm (List.pairwise_reverse.mpr t.ids)

end OrderBy

end PangeaOperator
