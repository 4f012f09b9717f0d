import Mathlib.Data.List.Basic

/-!
# Texts with separators

Lists of characters, or of anything else, joined by a separator that does not occur in
what is joined: the parts can be read back from the left or from the right.
-/

namespace PangeaOperator

variable {α : Type}

/-- A run that the next item ends is taken and dropped as a whole. -/
theorem takeWhile_run {p : α → Bool} {a r : List α} (ha : ∀ x ∈ a, p x = true)
    (hr : ∀ x ∈ r.head?, p x = false) : (a ++ r).takeWhile p = a := by
  rw [List.takeWhile_append_of_pos ha]
  cases r with
  | nil => simp
  | cons x r => simp [hr x rfl]

theorem dropWhile_run {p : α → Bool} {a r : List α} (ha : ∀ x ∈ a, p x = true)
    (hr : ∀ x ∈ r.head?, p x = false) : (a ++ r).dropWhile p = r := by
  rw [List.dropWhile_append_of_pos ha]
  cases r with
  | nil => rfl
  | cons x r => simp [hr x rfl]

/-- The first separator splits a text in one way. -/
theorem append_cons_inj {x : α} {a b r s : List α} (ha : x ∉ a) (hb : x ∉ b)
    (h : a ++ x :: r = b ++ x :: s) : a = b ∧ r = s := by
  induction a generalizing b with
  | nil =>
    cases b with
    | nil => exact ⟨rfl, (List.cons.inj h).2⟩
    | cons y b =>
      have hy : x = y := (List.cons.inj h).1
      exact absurd (hy ▸ List.mem_cons_self) hb
  | cons y a ih =>
    cases b with
    | nil =>
      have hy : y = x := (List.cons.inj h).1
      exact absurd (hy ▸ List.mem_cons_self) ha
    | cons z b =>
      obtain ⟨rfl, ht⟩ := List.cons.inj h
      obtain ⟨rfl, hr⟩ := ih (fun hx => ha (List.mem_cons_of_mem _ hx))
        (fun hx => hb (List.mem_cons_of_mem _ hx)) ht
      exact ⟨rfl, hr⟩

/-- So does the last one. -/
theorem append_cons_inj_right {x : α} {a b r s : List α} (hr : x ∉ r) (hs : x ∉ s)
    (h : a ++ x :: r = b ++ x :: s) : a = b ∧ r = s := by
  have hrev : r.reverse ++ x :: a.reverse = s.reverse ++ x :: b.reverse := by
    have := congrArg List.reverse h
    simpa using this
  obtain ⟨hrs, hab⟩ := append_cons_inj (by simpa using hr) (by simpa using hs) hrev
  exact ⟨List.reverse_inj.mp hab, List.reverse_inj.mp hrs⟩

theorem mem_intercalate {x c : α} {ps : List (List α)} (h : c ∈ [x].intercalate ps) :
    c = x ∨ ∃ p ∈ ps, c ∈ p := by
  induction ps with
  | nil => simp at h
  | cons p ps ih =>
    cases ps with
    | nil => exact .inr ⟨p, by simp, by simpa using h⟩
    | cons q ps =>
      rw [List.intercalate_cons_cons, List.mem_append, List.mem_append, List.mem_singleton] at h
      rcases h with (hp | hx) | ht
      · exact .inr ⟨p, by simp, hp⟩
      · exact .inl hx
      · obtain hx | ⟨r, hr, hc⟩ := ih ht
        · exact .inl hx
        · exact .inr ⟨r, List.mem_cons_of_mem _ hr, hc⟩

/-- Parts that are joined are read back, as long as none holds the separator or is empty. -/
theorem filter_splitOn_intercalate [DecidableEq α] {x : α} {ps : List (List α)}
    (hp : ∀ p ∈ ps, x ∉ p ∧ p ≠ []) :
    (([x].intercalate ps).splitOn x).filter (fun p => !p.isEmpty) = ps := by
  cases ps with
  | nil => simp
  | cons p ps =>
    rw [List.splitOn_intercalate x (fun p h => (hp p h).1) (by simp), List.filter_eq_self]
    intro q hq
    simpa using (hp q hq).2

/-- Joined parts are determined as long as none holds the separator or is empty. -/
theorem intercalate_inj [DecidableEq α] {x : α} {ps qs : List (List α)}
    (hp : ∀ p ∈ ps, x ∉ p ∧ p ≠ []) (hq : ∀ q ∈ qs, x ∉ q ∧ q ≠ [])
    (h : [x].intercalate ps = [x].intercalate qs) : ps = qs := by
  rw [← filter_splitOn_intercalate hp, h, filter_splitOn_intercalate hq]

/-- The parts between separators hold none. -/
theorem not_mem_of_mem_splitOn [DecidableEq α] {x : α} {xs p : List α} (h : p ∈ xs.splitOn x) :
    x ∉ p := by
  induction xs generalizing p with
  | nil =>
    rw [List.splitOn_nil, List.mem_singleton] at h
    rw [h]
    exact List.not_mem_nil
  | cons y ys ih =>
    rw [List.splitOn_cons_eq_if_modifyHead] at h
    split at h
    · rcases List.mem_cons.mp h with rfl | h
      · exact List.not_mem_nil
      · exact ih h
    · next hne =>
      cases hs : ys.splitOn x with
      | nil => exact absurd hs (List.splitOn_ne_nil x ys)
      | cons q qs =>
        rw [hs] at h ih
        rcases List.mem_cons.mp h with rfl | h
        · rw [List.mem_cons, not_or]
          exact ⟨fun he => hne (by simp [he]), ih List.mem_cons_self⟩
        · exact ih (List.mem_cons_of_mem q h)

/-- A separator makes two parts at least. -/
theorem two_le_length_splitOn [DecidableEq α] {x : α} {xs : List α} (h : x ∈ xs) :
    2 ≤ (xs.splitOn x).length := by
  obtain ⟨a, b, rfl⟩ := List.append_of_mem h
  have ha := List.length_pos_iff.mpr (List.splitOn_ne_nil x a)
  have hb := List.length_pos_iff.mpr (List.splitOn_ne_nil x b)
  rw [List.splitOn_append_cons_self, List.length_append]
  omega

/-- Lists whose images are the same up to order are so themselves, where the function tells their
elements apart. -/
theorem perm_of_perm_map {β : Type} [DecidableEq α] (f : α → β) {xs ys : List α}
    (hf : ∀ x ∈ xs, ∀ y ∈ ys, f x = f y → x = y) (h : (xs.map f).Perm (ys.map f)) :
    xs.Perm ys := by
  induction xs generalizing ys with
  | nil =>
    have hnil : ys = [] := by simpa using h
    rw [hnil]
  | cons x xs ih =>
    obtain ⟨y, hy, hfy⟩ := List.mem_map.mp (h.subset (List.mem_cons_self (a := f x)))
    have hxy : x = y := hf x List.mem_cons_self y hy hfy.symm
    subst hxy
    have herase : ys.Perm (x :: ys.erase x) := List.perm_cons_erase hy
    have htail : (xs.map f).Perm ((ys.erase x).map f) :=
      (List.perm_cons (f x)).mp (h.trans (herase.map f))
    have hrest := ih (fun a ha b hb =>
      hf a (List.mem_cons_of_mem _ ha) b (List.mem_of_mem_erase hb)) htail
    exact (hrest.cons x).trans herase.symm

end PangeaOperator
