import Mathlib

/-!
# Maps in the order of their keys

The entries of a map, each key once and the keys increasing. `upsert` changes the value of a key,
or puts one at the place of the key; what the entries carry in all grows by what it adds.
-/

namespace PangeaOperator

section Keys

variable {κ α : Type} [DecidableEq κ] {f : α → κ} {xs : List α} {x : α}

/-- Where each key occurs once, the item of a key is found by it. -/
theorem find?_key (h : (xs.map f).Nodup) (hx : x ∈ xs) : xs.find? (f · = f x) = some x := by
  cases hfind : xs.find? (f · = f x) with
  | none => exact absurd (List.find?_eq_none.mp hfind x hx) (by simp)
  | some y =>
    have hkey : f y = f x := by simpa using List.find?_some hfind
    rw [List.inj_on_of_nodup_map h (List.mem_of_find?_eq_some hfind) hx hkey]

/-- There is no other item of it. -/
theorem filter_key (h : (xs.map f).Nodup) (k : κ) :
    xs.filter (f · = k) = (xs.find? (f · = k)).toList := by
  induction xs with
  | nil => rfl
  | cons y ys ih =>
    obtain ⟨hnew, hrest⟩ := List.nodup_cons.mp h
    by_cases hkey : f y = k
    · have hnone : ys.filter (f · = k) = [] := by
        refine List.filter_eq_nil_iff.mpr fun z hz => ?_
        have hne : f z ≠ k := by
          intro he
          exact hnew (List.mem_map.mpr ⟨z, hz, he.trans hkey.symm⟩)
        simpa using hne
      rw [List.filter_cons_of_pos (by simpa using hkey), hnone,
        List.find?_cons_of_pos (by simpa using hkey), Option.toList_some]
    · rw [List.filter_cons_of_neg (by simpa using hkey),
        List.find?_cons_of_neg (by simpa using hkey), ih hrest]

end Keys

section Entries

variable {κ α β : Type} [LinearOrder κ] {k : κ} {f : Option α → α} {es : List (κ × α)}

def upsertEntry (k : κ) (f : Option α → α) : List (κ × α) → List (κ × α)
  | [] => [(k, f none)]
  | e :: es =>
    if k = e.1 then (k, f (some e.2)) :: es
    else if k < e.1 then (k, f none) :: e :: es
    else e :: upsertEntry k f es

theorem mem_keys_upsertEntry {j : κ} :
    j ∈ (upsertEntry k f es).map Prod.fst ↔ j = k ∨ j ∈ es.map Prod.fst := by
  induction es with
  | nil => simp [upsertEntry]
  | cons e es ih =>
    unfold upsertEntry
    split
    · next hk => simp [hk]
    · split
      · exact List.mem_cons
      · rw [List.map_cons, List.mem_cons, ih, List.map_cons, List.mem_cons]
        exact or_left_comm

theorem keys_sorted_upsertEntry (h : (es.map Prod.fst).Pairwise (· < ·)) :
    ((upsertEntry k f es).map Prod.fst).Pairwise (· < ·) := by
  induction es with
  | nil => simp [upsertEntry]
  | cons e es ih =>
    rw [List.map_cons, List.pairwise_cons] at h
    unfold upsertEntry
    split
    · next hk =>
      rw [List.map_cons, List.pairwise_cons]
      exact ⟨by rw [hk]; exact h.1, h.2⟩
    · next hne =>
      split
      · next hlt =>
        rw [List.map_cons, List.map_cons, List.pairwise_cons, List.pairwise_cons]
        refine ⟨fun j hj => ?_, h⟩
        rcases List.mem_cons.mp hj with rfl | hj
        · exact hlt
        · exact hlt.trans (h.1 j hj)
      · next hge =>
        rw [List.map_cons, List.pairwise_cons]
        refine ⟨fun j hj => ?_, ih h.2⟩
        rcases mem_keys_upsertEntry.mp hj with rfl | hj
        · exact lt_of_le_of_ne (not_lt.mp hge) (Ne.symm hne)
        · exact h.1 j hj

/-- A key that is new adds its entry. -/
theorem upsertEntry_perm (hk : k ∉ es.map Prod.fst) :
    (upsertEntry k f es).Perm ((k, f none) :: es) := by
  induction es with
  | nil => exact .refl _
  | cons e es ih =>
    rw [List.map_cons, List.mem_cons, not_or] at hk
    rw [upsertEntry, if_neg hk.1]
    split
    · exact .refl _
    · exact ((ih hk.2).cons e).trans (.swap _ _ _)

/-- What the entries carry in all grows by what the new value carries more than the old one. -/
theorem flatMap_upsertEntry {carries : κ × α → List β} {ys : List β}
    (h : ∀ o, (carries (k, f o)).Perm (ys ++ o.elim [] fun v => carries (k, v))) :
    ((upsertEntry k f es).flatMap carries).Perm (ys ++ es.flatMap carries) := by
  induction es with
  | nil => simpa [upsertEntry] using h none
  | cons e es ih =>
    unfold upsertEntry
    split
    · next hk =>
      subst hk
      rw [List.flatMap_cons, List.flatMap_cons, ← List.append_assoc]
      exact (h (some e.2)).append_right _
    · split
      · rw [List.flatMap_cons]
        exact List.Perm.append_right _ (by simpa using h none)
      · rw [List.flatMap_cons, List.flatMap_cons]
        exact (ih.append_left _).trans (List.perm_append_comm_assoc _ _ _)

end Entries

structure SortedMap (κ α : Type) [LinearOrder κ] where
  entries : List (κ × α)
  sorted : (entries.map Prod.fst).Pairwise (· < ·)

namespace SortedMap

variable {κ α : Type} [LinearOrder κ]

def empty : SortedMap κ α := ⟨[], List.Pairwise.nil⟩

def upsert (m : SortedMap κ α) (k : κ) (f : Option α → α) : SortedMap κ α :=
  ⟨upsertEntry k f m.entries, keys_sorted_upsertEntry m.sorted⟩

def insert (m : SortedMap κ α) (k : κ) (v : α) : SortedMap κ α := m.upsert k fun _ => v

/-- The last value of a key stays. -/
def ofList (es : List (κ × α)) : SortedMap κ α := es.foldl (fun m e => m.insert e.1 e.2) empty

def get? (m : SortedMap κ α) (k : κ) : Option α := (m.entries.find? (·.1 = k)).map Prod.snd

def keys (m : SortedMap κ α) : List κ := m.entries.map Prod.fst

def values (m : SortedMap κ α) : List α := m.entries.map Prod.snd

def mapValues (m : SortedMap κ α) (f : α → α) : SortedMap κ α where
  entries := m.entries.map fun e => (e.1, f e.2)
  sorted := by
    rw [List.map_map]
    exact m.sorted

theorem keys_nodup (m : SortedMap κ α) : m.keys.Nodup := m.sorted.imp fun h => h.ne

theorem mem_keys_upsert {m : SortedMap κ α} {j k : κ} {f : Option α → α} :
    j ∈ (m.upsert k f).keys ↔ j = k ∨ j ∈ m.keys := mem_keys_upsertEntry

theorem mem_keys_foldl_insert {m : SortedMap κ α} {es : List (κ × α)} {k : κ} :
    k ∈ (es.foldl (fun m e => m.insert e.1 e.2) m).keys ↔ k ∈ es.map Prod.fst ∨ k ∈ m.keys := by
  induction es generalizing m with
  | nil => simp
  | cons e es ih =>
    rw [List.foldl_cons, ih, insert, mem_keys_upsert, List.map_cons, List.mem_cons]
    tauto

theorem mem_keys_ofList {es : List (κ × α)} {k : κ} :
    k ∈ (ofList es).keys ↔ k ∈ es.map Prod.fst := by
  rw [ofList, mem_keys_foldl_insert]
  exact or_iff_left List.not_mem_nil

/-- Entries with keys of their own are the entries of the map. -/
theorem entries_ofList_perm {es : List (κ × α)} (h : (es.map Prod.fst).Nodup) :
    (ofList es).entries.Perm es := by
  have hfold (es : List (κ × α)) (h : (es.map Prod.fst).Nodup) (m : SortedMap κ α)
      (hnew : ∀ k ∈ es.map Prod.fst, k ∉ m.keys) :
      (es.foldl (fun m e => m.insert e.1 e.2) m).entries.Perm (es ++ m.entries) := by
    induction es generalizing m with
    | nil => exact .refl _
    | cons e es ih =>
      rw [List.map_cons, List.nodup_cons] at h
      rw [List.map_cons, List.forall_mem_cons] at hnew
      have hrest : ∀ k ∈ es.map Prod.fst, k ∉ (m.insert e.1 e.2).keys := by
        intro k hk
        rw [insert, mem_keys_upsert, not_or]
        exact ⟨fun he => h.1 (he ▸ hk), hnew.2 k hk⟩
      exact (ih h.2 _ hrest).trans
        (((upsertEntry_perm hnew.1).append_left es).trans List.perm_middle)
  have hall := hfold es h empty (fun _ _ => List.not_mem_nil)
  rwa [show (empty : SortedMap κ α).entries = [] from rfl, List.append_nil] at hall

theorem get?_of_mem {m : SortedMap κ α} {k : κ} {v : α} (h : (k, v) ∈ m.entries) :
    m.get? k = some v := by
  have hfind : m.entries.find? (·.1 = k) = some (k, v) := find?_key m.keys_nodup h
  rw [get?, hfind]
  rfl

theorem get?_eq_some_iff {m : SortedMap κ α} {k : κ} {v : α} :
    m.get? k = some v ↔ (k, v) ∈ m.entries := by
  constructor
  · intro h
    obtain ⟨e, he, rfl⟩ := Option.map_eq_some_iff.mp h
    have hkey : e.1 = k := by simpa using List.find?_some he
    exact hkey ▸ List.mem_of_find?_eq_some he
  · exact get?_of_mem

theorem get?_ofList_iff {es : List (κ × α)} (h : (es.map Prod.fst).Nodup) {k : κ} {v : α} :
    (ofList es).get? k = some v ↔ (k, v) ∈ es := by
  rw [get?_eq_some_iff]
  exact (entries_ofList_perm h).mem_iff

theorem mem_keys_iff {m : SortedMap κ α} {k : κ} : k ∈ m.keys ↔ ∃ v, m.get? k = some v := by
  simp only [get?_eq_some_iff, keys, List.mem_map, Prod.exists, exists_and_right, exists_eq_right]

/-- Other keys are found as before, in a list of entries that need not be in order. -/
theorem find?_upsertEntry_of_ne {j k : κ} {f : Option α → α} {es : List (κ × α)} (hne : j ≠ k) :
    (upsertEntry k f es).find? (·.1 = j) = es.find? (·.1 = j) := by
  induction es with
  | nil => simp [upsertEntry, hne.symm]
  | cons e es ih =>
    unfold upsertEntry
    split
    · next hk => simp [← hk, hne.symm]
    · split
      · simp [hne.symm]
      · rw [List.find?_cons, List.find?_cons, ih]

theorem find?_upsertEntry_self {k : κ} {f : Option α → α} {es : List (κ × α)}
    (h : (es.map Prod.fst).Pairwise (· < ·)) :
    (upsertEntry k f es).find? (·.1 = k) =
      some (k, f ((es.find? (·.1 = k)).map Prod.snd)) := by
  induction es with
  | nil => simp [upsertEntry]
  | cons e es ih =>
    rw [List.map_cons, List.pairwise_cons] at h
    unfold upsertEntry
    split
    · next hk => simp [hk]
    · next hne =>
      split
      · next hlt =>
        -- the keys that follow are greater still
        have habsent : ∀ d ∈ e :: es, ¬ d.1 = k := by
          intro d hd hdk
          rcases List.mem_cons.mp hd with rfl | hd
          · exact hne hdk.symm
          · exact absurd (hlt.trans (h.1 d.1 (List.mem_map_of_mem hd))) (hdk ▸ lt_irrefl _)
        have hnone : (e :: es).find? (·.1 = k) = none :=
          List.find?_eq_none.mpr fun d hd => by simpa using habsent d hd
        rw [hnone]
        simp
      · rw [List.find?_cons, List.find?_cons, decide_eq_false (Ne.symm hne), ih h.2]

theorem get?_upsert (m : SortedMap κ α) (j k : κ) (f : Option α → α) :
    (m.upsert k f).get? j = if j = k then some (f (m.get? k)) else m.get? j := by
  unfold get? upsert
  split
  · next h => rw [h, find?_upsertEntry_self m.sorted, Option.map_some]
  · next h => rw [find?_upsertEntry_of_ne h]

theorem get?_mapValues (m : SortedMap κ α) (f : α → α) (k : κ) :
    (m.mapValues f).get? k = (m.get? k).map f := by
  unfold get? mapValues
  rw [List.find?_map, Option.map_map, Option.map_map]
  rfl

theorem ext_entries {m n : SortedMap κ α} (h : m.entries = n.entries) : m = n := by
  cases m
  cases n
  cases h
  rfl

/-- A map is put together from its entries. -/
theorem ofList_entries (m : SortedMap κ α) : ofList m.entries = m := by
  have hanti (a b : κ × α) (_ : a ∈ (ofList m.entries).entries) (_ : b ∈ m.entries)
      (hab : a.1 < b.1) (hba : b.1 < a.1) : a = b := absurd (hab.trans hba) (lt_irrefl _)
  exact ext_entries (List.Perm.eq_of_pairwise hanti
    (List.pairwise_map.mp (ofList m.entries).sorted) (List.pairwise_map.mp m.sorted)
    (entries_ofList_perm m.keys_nodup))

/-- Maps that hold the same at every key are equal. -/
theorem ext_get? {m n : SortedMap κ α} (h : ∀ k, m.get? k = n.get? k) : m = n := by
  have hmem (e : κ × α) : e ∈ m.entries ↔ e ∈ n.entries := by
    rw [← get?_eq_some_iff, ← get?_eq_some_iff, h]
  have hperm := (List.perm_ext_iff_of_nodup (List.Nodup.of_map _ m.keys_nodup)
    (List.Nodup.of_map _ n.keys_nodup)).mpr hmem
  have hanti (a b : κ × α) (_ : a ∈ m.entries) (_ : b ∈ n.entries) (hab : a.1 < b.1)
      (hba : b.1 < a.1) : a = b := absurd (hab.trans hba) (lt_irrefl _)
  exact ext_entries (List.Perm.eq_of_pairwise hanti (List.pairwise_map.mp m.sorted)
    (List.pairwise_map.mp n.sorted) hperm)

theorem mapValues_eq_iff {m : SortedMap κ α} {f g : α → α} :
    m.mapValues f = m.mapValues g ↔ ∀ v ∈ m.values, f v = g v := by
  rw [mapValues, mapValues, SortedMap.mk.injEq, List.map_inj_left, values, List.forall_mem_map]
  exact forall₂_congr fun _ _ => Prod.mk_right_inj

/-- A map that is built from another one, entry by entry. -/
theorem get?_ofList_map {β : Type} (m : SortedMap κ α) (f : κ → α → β) (k : κ) :
    (ofList (m.entries.map fun e => (e.1, f e.1 e.2))).get? k = (m.get? k).map (f k) := by
  have hkeys : ((m.entries.map fun e => (e.1, f e.1 e.2)).map Prod.fst).Nodup := by
    rw [List.map_map]
    exact m.keys_nodup
  refine Option.ext fun b => ?_
  rw [get?_ofList_iff hkeys, Option.map_eq_some_iff, List.mem_map]
  constructor
  · rintro ⟨⟨j, a⟩, he, heq⟩
    cases heq
    exact ⟨a, get?_of_mem he, rfl⟩
  · rintro ⟨a, ha, rfl⟩
    exact ⟨(k, a), get?_eq_some_iff.mp ha, rfl⟩

/-- The map that has the values of a function at these keys. -/
def tabulate (keys : List κ) (f : κ → α) : SortedMap κ α := ofList (keys.map (fun k => (k, f k)))

theorem get?_tabulate (keys : List κ) (f : κ → α) (k : κ) :
    (tabulate keys f).get? k = if k ∈ keys then some (f k) else none := by
  have hfold (m : SortedMap κ α) :
      ((keys.map (fun k => (k, f k))).foldl (fun m e => m.insert e.1 e.2) m).get? k =
        if k ∈ keys then some (f k) else m.get? k := by
    induction keys generalizing m with
    | nil => simp
    | cons j keys ih =>
      rw [List.map_cons, List.foldl_cons, ih, insert, get?_upsert]
      by_cases hk : k ∈ keys
      · simp [hk]
      · by_cases hj : k = j
        · simp [hj]
        · simp [hk, hj]
  exact hfold empty

section Gather

variable {ι : Type}

/-- Each item changes the value of its key. -/
def gather (m : SortedMap κ α) (key : ι → κ) (f : ι → Option α → α) (xs : List ι) :
    SortedMap κ α :=
  xs.foldl (fun m x => m.upsert (key x) (f x)) m

/-- A key holds what its own items make of its value. -/
theorem get?_gather (m : SortedMap κ α) (key : ι → κ) (f : ι → Option α → α) (xs : List ι) (k : κ) :
    (m.gather key f xs).get? k =
      (xs.filter (key · = k)).foldl (fun o x => some (f x o)) (m.get? k) := by
  induction xs generalizing m with
  | nil => rfl
  | cons x xs ih =>
    change ((m.upsert (key x) (f x)).gather key f xs).get? k = _
    rw [ih, get?_upsert]
    by_cases hk : key x = k
    · rw [if_pos hk.symm, List.filter_cons_of_pos (by simpa using hk), List.foldl_cons, hk]
    · rw [if_neg (Ne.symm hk), List.filter_cons_of_neg (by simpa using hk)]

end Gather

/-- In a map without equal values a value is found at one key only. -/
theorem get?_injOn {m : SortedMap κ α} (hnodup : m.values.Nodup) {j k : κ} (hj : j ∈ m.keys)
    (hk : k ∈ m.keys) (h : m.get? j = m.get? k) : j = k := by
  obtain ⟨⟨_, v⟩, hv, rfl⟩ := List.mem_map.mp hj
  obtain ⟨⟨_, w⟩, hw, rfl⟩ := List.mem_map.mp hk
  dsimp only at h
  rw [get?_of_mem hv, get?_of_mem hw] at h
  exact congrArg Prod.fst (List.inj_on_of_nodup_map hnodup hv hw (Option.some.inj h))

end SortedMap

end PangeaOperator
