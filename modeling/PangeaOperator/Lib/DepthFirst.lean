import Mathlib

/-!
# Depth-first order and answers collected in it

A search that cuts cycles visits a node once and finishes it after what it has reached from it.
Answers that join those of the finished neighbours are reachability along the edges that lead
to earlier finished nodes; the edges that close a cycle are not among them.
-/

namespace PangeaOperator.DepthFirst

section Order

variable {α : Type} [DecidableEq α] (next : α → List α)

/-- The nodes finished after a visit, the latest first. The path is the nodes being visited. -/
def visit : Nat → List α → α → List α → List α
  | 0, _, _, done => done
  | n + 1, path, x, done =>
    if x ∈ done ∨ x ∈ path then done
    else x :: (next x).foldl (fun done y => visit n (x :: path) y done) done

def finishOrder (fuel : Nat) (roots : List α) : List α :=
  roots.foldl (fun done x => visit next fuel [] x done) []

end Order

variable {α : Type} (next : α → List α)

/-- An edge to a node that was finished earlier. -/
def Earlier (done : List α) (x y : α) : Prop := y ∈ next x ∧ [x, y].Sublist done

/-- The marked nodes one edge away from what earlier edges reach. -/
def Found (mark : α → Prop) (done : List α) (x y : α) : Prop :=
  mark y ∧ ∃ z, Relation.ReflTransGen (Earlier next done) x z ∧ y ∈ next z

/-- The marked nodes one or more edges away. -/
def Reached (mark : α → Prop) (x y : α) : Prop :=
  mark y ∧ Relation.TransGen (fun v u => u ∈ next v) x y

variable {next} {mark : α → Prop}

theorem Found.reached {done : List α} {x y : α} (h : Found next mark done x y) :
    Reached next mark x y := by
  obtain ⟨hmark, z, hz, hy⟩ := h
  have hedge : Earlier next done ≤ fun v u => u ∈ next v := fun _ _ h => h.1
  have hpath := Relation.ReflTransGen.mono hedge x z hz
  exact ⟨hmark, Relation.TransGen.tail' hpath hy⟩

section Edges

/-- Earlier edges from a node that was finished before stay among those finished before. -/
theorem earlier_cons_iff {x a b : α} {done : List α} (hx : x ∉ done) (ha : a ∈ done) :
    Earlier next (x :: done) a b ↔ Earlier next done a b := by
  have hne : a ≠ x := fun h => hx (h ▸ ha)
  constructor
  · rintro ⟨hb, hsub⟩
    refine ⟨hb, ?_⟩
    cases hsub with
    | cons _ h => exact h
    | cons_cons _ _ => exact absurd rfl hne
  · rintro ⟨hb, hsub⟩
    exact ⟨hb, hsub.cons x⟩

theorem Earlier.mem {a b : α} {done : List α} (h : Earlier next done a b) : b ∈ done :=
  h.2.subset (List.mem_cons_of_mem a List.mem_cons_self)

theorem reflTransGen_cons_iff {x a b : α} {done : List α} (hx : x ∉ done) (ha : a ∈ done) :
    Relation.ReflTransGen (Earlier next (x :: done)) a b ↔
      Relation.ReflTransGen (Earlier next done) a b := by
  constructor
  · intro h
    have hboth : b ∈ done ∧ Relation.ReflTransGen (Earlier next done) a b := by
      induction h with
      | refl => exact ⟨ha, .refl⟩
      | tail _ hstep ih =>
        have hold := (earlier_cons_iff hx ih.1).mp hstep
        exact ⟨hold.mem, ih.2.tail hold⟩
    exact hboth.2
  · intro h
    have hedge : Earlier next done ≤ Earlier next (x :: done) := fun _ _ h => ⟨h.1, h.2.cons x⟩
    exact Relation.ReflTransGen.mono hedge a b h

theorem found_cons_iff {x a y : α} {done : List α} (hx : x ∉ done) (ha : a ∈ done) :
    Found next mark (x :: done) a y ↔ Found next mark done a y := by
  simp only [Found, reflTransGen_cons_iff hx ha]

/-- From the node finished last: a marked neighbour, or what an earlier neighbour finds. -/
theorem found_head_iff {x y : α} {done : List α} (hx : x ∉ done) :
    Found next mark (x :: done) x y ↔
      ∃ z ∈ next x, (z = y ∧ mark y) ∨ (z ∈ done ∧ Found next mark done z y) := by
  constructor
  · rintro ⟨hmark, w, hw, hy⟩
    rcases Relation.ReflTransGen.cases_head hw with rfl | ⟨z, ⟨hz, hsub⟩, hzw⟩
    · exact ⟨y, hy, .inl ⟨rfl, hmark⟩⟩
    · have hmem : z ∈ done := by
        cases hsub with
        | cons _ h => exact absurd (h.subset List.mem_cons_self) hx
        | cons_cons _ h => exact h.subset List.mem_cons_self
      exact ⟨z, hz, .inr ⟨hmem, hmark, w, (reflTransGen_cons_iff hx hmem).mp hzw, hy⟩⟩
  · rintro ⟨z, hz, ⟨rfl, hmark⟩ | ⟨hmem, hmark, w, hzw, hy⟩⟩
    · exact ⟨hmark, x, .refl, hz⟩
    · have hfirst : Earlier next (x :: done) x z :=
        ⟨hz, (List.singleton_sublist.mpr hmem).cons_cons x⟩
      exact ⟨hmark, w, .head hfirst ((reflTransGen_cons_iff hx hmem).mpr hzw), hy⟩

/-- An edge that does not lead to a node finished earlier closes a cycle. -/
def Closes (next : α → List α) (done : List α) : Prop :=
  ∀ a ∈ done, ∀ b ∈ next a, [a, b].Sublist done ∨
    Relation.ReflTransGen (fun v u => u ∈ next v) b a

/-- Without cycles all that is reached is found. -/
theorem Closes.found {done : List α} (h : Closes next done)
    (hacyclic : ∀ a, ¬ Relation.TransGen (fun v u => u ∈ next v) a a) {x y : α} (hx : x ∈ done)
    (hy : Reached next mark x y) : Found next mark done x y := by
  have hearlier {a b : α} (ha : a ∈ done) (hb : b ∈ next a) : Earlier next done a b := by
    rcases h a ha b hb with hsub | hback
    · exact ⟨hb, hsub⟩
    · exact absurd (Relation.TransGen.head' hb hback) (hacyclic a)
  have hpath {z : α} (hz : Relation.ReflTransGen (fun v u => u ∈ next v) x z) :
      z ∈ done ∧ Relation.ReflTransGen (Earlier next done) x z := by
    induction hz with
    | refl => exact ⟨hx, .refl⟩
    | tail _ hstep ih =>
      have hedge := hearlier ih.1 hstep
      exact ⟨hedge.mem, ih.2.tail hedge⟩
  obtain ⟨hmark, hreach⟩ := hy
  obtain ⟨z, hz, hlast⟩ := Relation.TransGen.tail'_iff.mp hreach
  exact ⟨hmark, z, (hpath hz).2, hlast⟩

end Edges

section Answers

variable [DecidableEq α] (next mark)

/-- Answers of the finished nodes, the latest first: a node's answer is its marked neighbours with
the answers of the neighbours finished before. -/
inductive Explained : List (α × Finset α) → Prop where
  | nil : Explained []
  | cons (x : α) (s : Finset α) (memo : List (α × Finset α)) (fresh : x ∉ memo.map Prod.fst)
      (joined : ∀ y, y ∈ s ↔ ∃ z ∈ next x, (z = y ∧ mark y) ∨ ∃ t, memo.lookup z = some t ∧ y ∈ t)
      (rest : Explained memo) : Explained ((x, s) :: memo)

variable {next mark}

theorem lookup_isSome_iff {memo : List (α × Finset α)} {x : α} :
    (∃ s, memo.lookup x = some s) ↔ x ∈ memo.map Prod.fst := by
  induction memo with
  | nil => simp
  | cons e memo ih =>
    obtain ⟨a, s⟩ := e
    rw [List.map_cons, List.mem_cons, List.lookup_cons]
    by_cases h : x = a
    · simp [h]
    · have hne : (x == a) = false := by simp [h]
      rw [hne, ih]
      simp [h]

theorem lookup_cons_of_ne {memo : List (α × Finset α)} {a x : α} {s : Finset α} (h : x ≠ a) :
    ((a, s) :: memo).lookup x = memo.lookup x := by
  have hne : (x == a) = false := by simp [h]
  rw [List.lookup_cons, hne]

/-- An answer once given is not given again. -/
theorem lookup_suffix {memo later : List (α × Finset α)} (h : memo <:+ later)
    (hlater : Explained next mark later) {x : α} (hx : x ∈ memo.map Prod.fst) :
    later.lookup x = memo.lookup x := by
  induction hlater with
  | nil => rw [List.suffix_nil.mp h]
  | cons a s rest hfresh _ _ ih =>
    rcases List.suffix_cons_iff.mp h with rfl | h
    · rfl
    · have hrest := (h.sublist.map Prod.fst).subset hx
      have hne : x ≠ a := fun hxa => hfresh (hxa ▸ hrest)
      rw [lookup_cons_of_ne hne, ih h]

theorem Explained.nodup {memo : List (α × Finset α)} (h : Explained next mark memo) :
    (memo.map Prod.fst).Nodup := by
  induction h with
  | nil => exact List.nodup_nil
  | cons x s memo hfresh _ _ ih => exact List.nodup_cons.mpr ⟨hfresh, ih⟩

/-- An answer is what its node finds along earlier edges. -/
theorem Explained.mem_iff {memo : List (α × Finset α)} (h : Explained next mark memo) {x : α}
    {s : Finset α} (hs : memo.lookup x = some s) (y : α) :
    y ∈ s ↔ Found next mark (memo.map Prod.fst) x y := by
  induction h generalizing x s with
  | nil => cases hs
  | cons a t memo hfresh hjoined _ ih =>
    by_cases hxa : x = a
    · subst hxa
      rw [List.lookup_cons_self, Option.some.injEq] at hs
      subst hs
      rw [hjoined, List.map_cons, found_head_iff hfresh]
      apply exists_congr
      intro z
      apply and_congr_right
      intro _
      apply or_congr_right
      constructor
      · rintro ⟨u, hu, hy⟩
        exact ⟨lookup_isSome_iff.mp ⟨u, hu⟩, (ih hu).mp hy⟩
      · rintro ⟨hz, hfound⟩
        obtain ⟨u, hu⟩ := lookup_isSome_iff.mpr hz
        exact ⟨u, hu, (ih hu).mpr hfound⟩
    · rw [lookup_cons_of_ne hxa] at hs
      rw [ih hs, List.map_cons, found_cons_iff hfresh (lookup_isSome_iff.mp ⟨s, hs⟩)]

end Answers

section Search

variable [DecidableEq α]

/-- A search that remembers answers: of a node being visited nothing is known. -/
def search (next : α → List α) (mark : α → Bool) :
    Nat → List α → α → List (α × Finset α) → Finset α × List (α × Finset α)
  | 0, _, _, memo => (∅, memo)
  | n + 1, path, x, memo =>
    match memo.lookup x with
    | some s => (s, memo)
    | none =>
      if x ∈ path then (∅, memo)
      else
        let found := (next x).foldl (fun acc y =>
          let out := if mark y then insert y acc.1 else acc.1
          let rest := search next mark n (x :: path) y acc.2
          (out ∪ rest.1, rest.2)) (∅, memo)
        (found.1, (x, found.1) :: found.2)

/-- One turn of the loop over the neighbours. -/
def gather (next : α → List α) (mark : α → Bool) (n : Nat) (path : List α)
    (acc : Finset α × List (α × Finset α)) (y : α) : Finset α × List (α × Finset α) :=
  ((if mark y then insert y acc.1 else acc.1) ∪ (search next mark n path y acc.2).1,
    (search next mark n path y acc.2).2)

variable {next : α → List α} {mark : α → Bool} {n : Nat} {path : List α} {x : α}
variable {memo : List (α × Finset α)}

theorem search_of_known {s : Finset α} (h : memo.lookup x = some s) :
    search next mark (n + 1) path x memo = (s, memo) := by
  rw [search, h]

theorem search_of_visiting (h : memo.lookup x = none) (hx : x ∈ path) :
    search next mark (n + 1) path x memo = (∅, memo) := by
  simp only [search, h, if_pos hx]

theorem search_of_new (h : memo.lookup x = none) (hx : x ∉ path) :
    search next mark (n + 1) path x memo =
      (((next x).foldl (gather next mark n (x :: path)) (∅, memo)).1,
        (x, ((next x).foldl (gather next mark n (x :: path)) (∅, memo)).1) ::
          ((next x).foldl (gather next mark n (x :: path)) (∅, memo)).2) := by
  simp only [search, h, if_neg hx]
  rfl

theorem lookup_eq_none_iff : memo.lookup x = none ↔ x ∉ memo.map Prod.fst := by
  rw [← lookup_isSome_iff, ← Option.ne_none_iff_exists', not_not]

/-- The order in which answers are remembered is the order in which nodes are finished. -/
theorem keys_search (n : Nat) (path : List α) (x : α) (memo : List (α × Finset α)) :
    (search next mark n path x memo).2.map Prod.fst = visit next n path x (memo.map Prod.fst) := by
  induction n generalizing path x memo with
  | zero => rfl
  | succ n ih =>
    unfold visit
    cases hx : memo.lookup x with
    | some s => rw [search_of_known hx, if_pos (.inl (lookup_isSome_iff.mp ⟨s, hx⟩))]
    | none =>
      have hnot := lookup_eq_none_iff.mp hx
      by_cases hpath : x ∈ path
      · rw [search_of_visiting hx hpath, if_pos (.inr hpath)]
      · rw [search_of_new hx hpath, if_neg (not_or.mpr ⟨hnot, hpath⟩), List.map_cons]
        have hloop (ys : List α) (acc : Finset α × List (α × Finset α)) :
            (ys.foldl (gather next mark n (x :: path)) acc).2.map Prod.fst =
              ys.foldl (fun done y => visit next n (x :: path) y done) (acc.2.map Prod.fst) := by
          induction ys generalizing acc with
          | nil => rfl
          | cons y ys ihys => rw [List.foldl_cons, List.foldl_cons, ihys, ← ih]; rfl
        rw [hloop]

/-- What a node's visit leaves: answers for more nodes, all explained and none for a node that is
being visited, with the node's own among them unless it is being visited. -/
structure Answered (next : α → List α) (mark : α → Bool) (path : List α) (x : α)
    (memo : List (α × Finset α)) (r : Finset α × List (α × Finset α)) : Prop where
  suffix : memo <:+ r.2
  explained : Explained next (fun y => mark y = true) r.2
  apart : ∀ p ∈ path, p ∉ r.2.map Prod.fst
  known : x ∈ r.2.map Prod.fst ∨ x ∈ path
  answer : r.1 = (r.2.lookup x).getD ∅
  closes : Closes next (r.2.map Prod.fst)

/-- The loop over the neighbours, after some of them. -/
structure Gathered (next : α → List α) (mark : α → Bool) (path : List α) (ys : List α)
    (memo : List (α × Finset α)) (acc : Finset α × List (α × Finset α)) : Prop where
  suffix : memo <:+ acc.2
  explained : Explained next (fun y => mark y = true) acc.2
  apart : ∀ p ∈ path, p ∉ acc.2.map Prod.fst
  known : ∀ y ∈ ys, y ∈ acc.2.map Prod.fst ∨ y ∈ path
  joined : ∀ y, y ∈ acc.1 ↔
    ∃ z ∈ ys, (z = y ∧ mark y = true) ∨ ∃ t, acc.2.lookup z = some t ∧ y ∈ t
  closes : Closes next (acc.2.map Prod.fst)

theorem mem_insert_if {s : Finset α} {y w : α} :
    w ∈ (if mark y then insert y s else s) ↔ (y = w ∧ mark w = true) ∨ w ∈ s := by
  split
  · next hm =>
    rw [Finset.mem_insert]
    constructor
    · rintro (rfl | hw)
      · exact .inl ⟨rfl, hm⟩
      · exact .inr hw
    · rintro (⟨rfl, -⟩ | hw)
      · exact .inl rfl
      · exact .inr hw
  · next hm =>
    constructor
    · exact .inr
    · rintro (⟨rfl, hw⟩ | hw)
      · exact absurd hw hm
      · exact hw

theorem Gathered.step {ys : List α} {acc : Finset α × List (α × Finset α)} {y : α}
    (h : Gathered next mark path ys memo acc)
    (hy : Answered next mark path y acc.2 (search next mark n path y acc.2)) :
    Gathered next mark path (ys ++ [y]) memo (gather next mark n path acc y) := by
  have hold (z : α) (hz : z ∈ ys) :
      (gather next mark n path acc y).2.lookup z = acc.2.lookup z := by
    rcases h.known z hz with hkey | hpath
    · exact lookup_suffix hy.suffix hy.explained hkey
    · rw [lookup_eq_none_iff.mpr (h.apart z hpath)]
      exact lookup_eq_none_iff.mpr (hy.apart z hpath)
  refine ⟨h.suffix.trans hy.suffix, hy.explained, hy.apart, fun z hz => ?_, fun w => ?_,
    hy.closes⟩
  · rcases List.mem_append.mp hz with hz | hz
    · rcases h.known z hz with hkey | hpath
      · exact .inl ((hy.suffix.sublist.map Prod.fst).subset hkey)
      · exact .inr hpath
    · rw [List.mem_singleton.mp hz]
      exact hy.known
  · have hanswer : w ∈ (search next mark n path y acc.2).1 ↔
        ∃ t, (search next mark n path y acc.2).2.lookup y = some t ∧ w ∈ t := by
      rw [hy.answer]
      cases (search next mark n path y acc.2).2.lookup y <;> simp
    have hbefore : w ∈ acc.1 ↔ ∃ z ∈ ys, (z = w ∧ mark w = true) ∨
        ∃ t, (gather next mark n path acc y).2.lookup z = some t ∧ w ∈ t := by
      rw [h.joined]
      apply exists_congr
      intro z
      apply and_congr_right
      intro hz
      rw [hold z hz]
    rw [gather, Finset.mem_union, mem_insert_if, hanswer, hbefore]
    constructor
    · rintro ((hw | ⟨z, hz, hw⟩) | hw)
      · exact ⟨y, by simp, .inl hw⟩
      · exact ⟨z, by simp [hz], hw⟩
      · exact ⟨y, by simp, .inr hw⟩
    · rintro ⟨z, hz, hw⟩
      rcases List.mem_append.mp hz with hz | hz
      · exact .inl (.inr ⟨z, hz, hw⟩)
      · rw [List.mem_singleton.mp hz] at hw
        rcases hw with hw | hw
        · exact .inl (.inl hw)
        · exact .inr hw

/-- The loop keeps what it has gathered, one neighbour after the other. -/
theorem Gathered.loop {rest ys : List α} {acc : Finset α × List (α × Finset α)}
    (hvisit : ∀ y ∈ rest, ∀ m, Explained next (fun z => mark z = true) m →
      (∀ p ∈ path, p ∉ m.map Prod.fst) → Closes next (m.map Prod.fst) →
        Answered next mark path y m (search next mark n path y m))
    (h : Gathered next mark path ys memo acc) :
    Gathered next mark path (ys ++ rest) memo (rest.foldl (gather next mark n path) acc) := by
  induction rest generalizing ys acc with
  | nil => rwa [List.append_nil]
  | cons y rest ih =>
    have hy := hvisit y List.mem_cons_self acc.2 h.explained h.apart h.closes
    have hrest := ih (fun z hz => hvisit z (List.mem_cons_of_mem y hz)) (h.step hy)
    rwa [List.append_assoc] at hrest

/-- Once all neighbours are gathered the node itself is answered. -/
theorem Gathered.answered {acc : Finset α × List (α × Finset α)} (hvisiting : x ∉ path)
    (hchain : ∀ p ∈ x :: path, Relation.ReflTransGen (fun v u => u ∈ next v) p x)
    (h : Gathered next mark (x :: path) (next x) memo acc) :
    Answered next mark path x memo (acc.1, (x, acc.1) :: acc.2) where
  suffix := h.suffix.trans (List.suffix_cons _ _)
  explained := .cons x _ _ (h.apart x List.mem_cons_self) h.joined h.explained
  apart := by
    intro p hp
    rw [List.map_cons, List.mem_cons, not_or]
    refine ⟨fun hpx => hvisiting ((show p = x from hpx) ▸ hp), ?_⟩
    exact h.apart p (List.mem_cons_of_mem x hp)
  known := .inl List.mem_cons_self
  answer := by rw [List.lookup_cons_self, Option.getD_some]
  closes := by
    intro a ha b hb
    rw [List.map_cons, List.mem_cons] at ha
    rcases ha with rfl | ha
    · rcases h.known b hb with hkey | hback
      · exact .inl ((List.singleton_sublist.mpr hkey).cons_cons _)
      · exact .inr (hchain b hback)
    · exact (h.closes a ha b hb).imp_left (fun hsub => hsub.cons _)

/-- With more fuel than there are nodes left to visit, a visit answers. -/
theorem search_answered {nodes : Finset α} (hclosed : ∀ a ∈ nodes, ∀ b ∈ next a, b ∈ nodes) :
    ∀ (n : Nat) (path : List α) (x : α) (memo : List (α × Finset α)), path.Nodup →
      (∀ p ∈ path, p ∈ nodes) → x ∈ nodes → nodes.card < n + path.length →
      Explained next (fun y => mark y = true) memo → (∀ p ∈ path, p ∉ memo.map Prod.fst) →
      Closes next (memo.map Prod.fst) →
      (∀ p ∈ path, Relation.ReflTransGen (fun v u => u ∈ next v) p x) →
      Answered next mark path x memo (search next mark n path x memo) := by
  intro n
  induction n with
  | zero =>
    intro path x memo hnodup hpath _ hfuel _ _ _ _
    have hle : path.toFinset.card ≤ nodes.card :=
      Finset.card_le_card (fun p hp => hpath p (List.mem_toFinset.mp hp))
    rw [List.toFinset_card_of_nodup hnodup] at hle
    omega
  | succ n ih =>
    intro path x memo hnodup hpath hx hfuel hmemo hapart hcloses hchain
    cases hknown : memo.lookup x with
    | some s =>
      rw [search_of_known hknown]
      refine ⟨List.suffix_refl memo, hmemo, hapart, .inl (lookup_isSome_iff.mp ⟨s, hknown⟩), ?_,
        hcloses⟩
      rw [hknown, Option.getD_some]
    | none =>
      by_cases hvisiting : x ∈ path
      · rw [search_of_visiting hknown hvisiting]
        refine ⟨List.suffix_refl memo, hmemo, hapart, .inr hvisiting, ?_, hcloses⟩
        rw [hknown, Option.getD_none]
      · have hnodup' : (x :: path).Nodup := List.nodup_cons.mpr ⟨hvisiting, hnodup⟩
        have hpath' : ∀ p ∈ x :: path, p ∈ nodes := List.forall_mem_cons.mpr ⟨hx, hpath⟩
        have hapart' : ∀ p ∈ x :: path, p ∉ memo.map Prod.fst :=
          List.forall_mem_cons.mpr ⟨lookup_eq_none_iff.mp hknown, hapart⟩
        have hchain' : ∀ p ∈ x :: path, Relation.ReflTransGen (fun v u => u ∈ next v) p x :=
          List.forall_mem_cons.mpr ⟨.refl, hchain⟩
        have hstart : Gathered next mark (x :: path) [] memo (∅, memo) :=
          ⟨List.suffix_refl memo, hmemo, hapart', nofun, by simp, hcloses⟩
        have hdone := hstart.loop fun y hy m he ha hc =>
          ih (x :: path) y m hnodup' hpath' (hclosed x hx y hy) (by rw [List.length_cons]; omega)
            he ha hc fun p hp => (hchain' p hp).tail hy
        rw [search_of_new hknown hvisiting]
        exact hdone.answered hvisiting hchain'

end Search

end PangeaOperator.DepthFirst
