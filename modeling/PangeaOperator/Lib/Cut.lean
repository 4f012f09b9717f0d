import Mathlib

/-!
# Cutting a list at a pattern

A list is cut at the first occurrence of a pattern. Replacing a pattern and reading the blocks
between an opening and a closing are both repeated cuts. When the opening and the closing do not
overlap, replacing a whole block is the same as putting the new text in the place of the blocks
that have its inner text.
-/

namespace PangeaOperator.Cut

variable {α : Type} [DecidableEq α]

/-- What stands before the first occurrence of a pattern, and what behind it. -/
def cut (pat : List α) : List α → Option (List α × List α)
  | [] => if pat = [] then some ([], []) else none
  | c :: cs =>
    if pat <+: c :: cs then some ([], (c :: cs).drop pat.length)
    else (cut pat cs).map (fun parts => (c :: parts.1, parts.2))

section First

variable {pat cs before after xs ys : List α}

theorem cut_eq_some_iff : cut pat cs = some (before, after) ↔
    cs = before ++ (pat ++ after) ∧ ∀ d < before.length, ¬pat <+: cs.drop d := by
  induction cs generalizing before with
  | nil =>
    rw [cut]
    by_cases hpat : pat = []
    · simp only [hpat, if_true, Option.some.injEq, Prod.mk.injEq, List.nil_append]
      constructor
      · rintro ⟨rfl, rfl⟩
        simp
      · rintro ⟨h, -⟩
        have := List.append_eq_nil_iff.mp h.symm
        exact ⟨this.1.symm, this.2.symm⟩
    · simp [hpat]
  | cons c cs ih =>
    rw [cut]
    split
    · next hpre =>
      obtain ⟨ws, hws⟩ := hpre
      rw [← hws, List.drop_left, Option.some.injEq, Prod.mk.injEq]
      constructor
      · rintro ⟨rfl, rfl⟩
        simp
      · rintro ⟨h, hfirst⟩
        have hbefore : before = [] := by
          rcases before with _ | ⟨b, bs⟩
          · rfl
          · exact absurd (List.prefix_append pat ws) (hfirst 0 (Nat.succ_pos _))
        subst hbefore
        exact ⟨rfl, List.append_cancel_left h⟩
    · next hpre =>
      rw [Option.map_eq_some_iff]
      constructor
      · rintro ⟨⟨bs, as⟩, hcut, h⟩
        cases h
        obtain ⟨rfl, hfirst⟩ := ih.mp hcut
        refine ⟨rfl, fun d hd => ?_⟩
        cases d with
        | zero => exact hpre
        | succ d => exact hfirst d (Nat.succ_lt_succ_iff.mp hd)
      · rintro ⟨h, hfirst⟩
        rcases before with _ | ⟨b, bs⟩
        · exact absurd ⟨after, h.symm⟩ hpre
        · obtain ⟨rfl, rfl⟩ := List.cons.inj h
          refine ⟨(bs, after), ih.mpr ⟨rfl, fun d hd => ?_⟩, rfl⟩
          exact hfirst (d + 1) (Nat.succ_lt_succ hd)

theorem cut_eq_none_iff : cut pat cs = none ↔ ∀ d, ¬pat <+: cs.drop d := by
  induction cs with
  | nil =>
    rw [cut]
    by_cases hpat : pat = [] <;> simp [hpat]
  | cons c cs ih =>
    rw [cut]
    split
    · next hpre =>
      simp only [reduceCtorEq, false_iff, not_forall, not_not]
      exact ⟨0, hpre⟩
    · next hpre =>
      rw [Option.map_eq_none_iff, ih]
      constructor
      · intro h d
        cases d with
        | zero => exact hpre
        | succ d => exact h d
      · exact fun h d => h (d + 1)

theorem length_of_cut (h : cut pat cs = some (before, after)) :
    before.length + pat.length + after.length = cs.length := by
  rw [(cut_eq_some_iff.mp h).1, List.length_append, List.length_append, Nat.add_assoc]

theorem cut_self (h : cut pat cs = some (before, after)) :
    cut pat (before ++ pat) = some (before, []) := by
  obtain ⟨rfl, hfirst⟩ := cut_eq_some_iff.mp h
  refine cut_eq_some_iff.mpr ⟨by rw [List.append_nil], fun d hd hpre => ?_⟩
  refine hfirst d hd ?_
  rw [← List.append_assoc, List.drop_append_of_le_length (by rw [List.length_append]; omega)]
  exact hpre.trans (List.prefix_append _ after)

/-- A longer pattern that stands at the first occurrence. -/
theorem cut_append_pat (h : cut pat cs = some (before, xs ++ ys)) :
    cut (pat ++ xs) cs = some (before, ys) := by
  obtain ⟨hcs, hfirst⟩ := cut_eq_some_iff.mp h
  refine cut_eq_some_iff.mpr ⟨?_, fun d hd hpre => ?_⟩
  · rw [hcs, List.append_assoc]
  · exact hfirst d hd ((List.prefix_append pat xs).trans hpre)

theorem cut_append (h : cut pat cs = some (before, after)) (ws : List α) :
    cut pat (cs ++ ws) = some (before, after ++ ws) := by
  obtain ⟨hcs, hfirst⟩ := cut_eq_some_iff.mp h
  refine cut_eq_some_iff.mpr ⟨?_, fun d hd hpre => ?_⟩
  · rw [hcs]
    simp only [List.append_assoc]
  · have hlen := length_of_cut h
    rw [List.drop_append_of_le_length (by omega)] at hpre
    refine hfirst d hd (List.prefix_of_prefix_length_le hpre (List.prefix_append _ ws) ?_)
    rw [List.length_drop]
    omega

/-- Nothing is found in front. -/
theorem cut_prepend (hclear : ∀ d < xs.length, ¬pat <+: (xs ++ cs).drop d) :
    cut pat (xs ++ cs) = (cut pat cs).map (fun parts => (xs ++ parts.1, parts.2)) := by
  induction xs with
  | nil => simp
  | cons x xs ih =>
    have hhead : ¬pat <+: x :: (xs ++ cs) := hclear 0 (Nat.succ_pos _)
    rw [List.cons_append, cut, if_neg hhead, ih fun d hd => hclear (d + 1) (Nat.succ_lt_succ hd),
      Option.map_map]
    rfl

theorem cut_drop (h : cut pat (xs ++ ys) = some (xs, after)) {d : Nat} (hd : d ≤ xs.length) :
    cut pat (xs.drop d ++ ys) = some (xs.drop d, after) := by
  obtain ⟨hcs, hfirst⟩ := cut_eq_some_iff.mp h
  refine cut_eq_some_iff.mpr ⟨?_, fun e he hpre => ?_⟩
  · rw [List.append_cancel_left hcs]
  · rw [List.length_drop] at he
    refine hfirst (d + e) (by omega) ?_
    rw [← List.drop_drop, List.drop_append_of_le_length hd]
    exact hpre

end First

section Replace

variable {pat new cs before after xs ys w : List α}

def replaceRun (pat new : List α) : Nat → List α → List α
  | 0, cs => cs
  | fuel + 1, cs =>
    match cut pat cs with
    | none => cs
    | some (before, after) => before ++ (new ++ replaceRun pat new fuel after)

/-- Every occurrence of the pattern replaced, from the front on and without overlaps. What was
put in is not looked at again. -/
def replaceAll (pat new cs : List α) : List α := replaceRun pat new cs.length cs

theorem replaceRun_eq (hpat : pat ≠ []) {fuel fuel' : Nat} (h : cs.length ≤ fuel)
    (h' : cs.length ≤ fuel') : replaceRun pat new fuel cs = replaceRun pat new fuel' cs := by
  have hpos := List.length_pos_of_ne_nil hpat
  have hzero (n : Nat) (hn : cs.length = 0) : replaceRun pat new n cs = cs := by
    obtain rfl := List.eq_nil_of_length_eq_zero hn
    cases n <;> simp [replaceRun, cut, hpat]
  induction fuel generalizing cs fuel' with
  | zero =>
    rw [hzero 0 (Nat.le_zero.mp h), hzero fuel' (Nat.le_zero.mp h)]
  | succ fuel ih =>
    cases fuel' with
    | zero => rw [hzero 0 (Nat.le_zero.mp h'), hzero (fuel + 1) (Nat.le_zero.mp h')]
    | succ fuel' =>
      rw [replaceRun, replaceRun]
      cases hcut : cut pat cs with
      | none => rfl
      | some parts =>
        have hlen := length_of_cut (show cut pat cs = some (parts.1, parts.2) from hcut)
        have hafter : replaceRun pat new fuel parts.2 = replaceRun pat new fuel' parts.2 := by
          refine ih (by omega) (by omega) fun n hn => ?_
          have hnil := List.eq_nil_of_length_eq_zero hn
          rw [hnil]
          cases n <;> simp [replaceRun, cut, hpat]
        simp only [hafter]

theorem replaceAll_of_none (h : cut pat cs = none) : replaceAll pat new cs = cs := by
  rw [replaceAll]
  cases cs with
  | nil => rfl
  | cons c cs => rw [List.length_cons, replaceRun, h]

theorem replaceAll_of_some (hpat : pat ≠ []) (h : cut pat cs = some (before, after)) :
    replaceAll pat new cs = before ++ (new ++ replaceAll pat new after) := by
  have hlen := length_of_cut h
  have hpos := List.length_pos_of_ne_nil hpat
  obtain ⟨n, hn⟩ : ∃ n, cs.length = n + 1 := ⟨cs.length - 1, by omega⟩
  have hafter : replaceRun pat new n after = replaceRun pat new after.length after :=
    replaceRun_eq hpat (by omega) le_rfl
  rw [replaceAll, hn, replaceRun, h, replaceAll]
  simp only [hafter]

/-- Induction along the occurrences of a pattern. -/
theorem cut_induct {motive : List α → Prop} (hpat : pat ≠ [])
    (absent : ∀ cs, cut pat cs = none → motive cs)
    (found : ∀ cs before after, cut pat cs = some (before, after) → motive after → motive cs)
    (cs : List α) : motive cs := by
  induction hn : cs.length using Nat.strong_induction_on generalizing cs with
  | _ n ih =>
    cases hcut : cut pat cs with
    | none => exact absent cs hcut
    | some parts =>
      have hlen := length_of_cut (show cut pat cs = some (parts.1, parts.2) from hcut)
      have hpos := List.length_pos_of_ne_nil hpat
      exact found cs parts.1 parts.2 hcut (ih parts.2.length (by omega) parts.2 rfl)

theorem replaceAll_prepend (hpat : pat ≠ [])
    (hclear : ∀ d < xs.length, ¬pat <+: (xs ++ cs).drop d) :
    replaceAll pat new (xs ++ cs) = xs ++ replaceAll pat new cs := by
  have hcut := cut_prepend hclear
  cases h : cut pat cs with
  | none =>
    rw [h] at hcut
    rw [replaceAll_of_none hcut, replaceAll_of_none h]
  | some parts =>
    rw [h] at hcut
    rw [replaceAll_of_some hpat hcut, replaceAll_of_some hpat h, List.append_assoc]

/-- A pattern that is replaced by itself with something behind only makes the text longer. -/
theorem length_le_replaceAll (hpat : pat ≠ []) (xs cs : List α) :
    cs.length ≤ (replaceAll pat (pat ++ xs) cs).length := by
  induction cs using cut_induct hpat with
  | absent cs h => rw [replaceAll_of_none h]
  | found cs before after h ih =>
    rw [replaceAll_of_some hpat h, ← length_of_cut h]
    simp only [List.length_append]
    omega

theorem length_lt_replaceAll (hpat : pat ≠ []) (hxs : xs ≠ []) (hcs : pat <:+: cs) :
    cs.length < (replaceAll pat (pat ++ xs) cs).length := by
  cases h : cut pat cs with
  | none =>
    obtain ⟨s, t, rfl⟩ := hcs
    have hpre : pat <+: (s ++ pat ++ t).drop s.length := by
      rw [List.append_assoc, List.drop_left]
      exact List.prefix_append pat t
    exact absurd hpre (cut_eq_none_iff.mp h _)
  | some parts =>
    have hlen := length_le_replaceAll hpat xs parts.2
    have hpos := List.length_pos_of_ne_nil hxs
    rw [replaceAll_of_some hpat h, ← length_of_cut h]
    simp only [List.length_append]
    omega

/-- A text that no occurrence of the pattern can share a part with. -/
structure Separates (pat w : List α) : Prop where
  head : ∀ c ∈ pat.head?, c ∉ w
  last : ∀ c ∈ pat.getLast?, c ∉ w
  long : pat.length ≤ w.length

omit [DecidableEq α] in
theorem Separates.infix_or (h : Separates pat w) (hpat : pat ≠ [])
    (hwithin : pat <:+: xs ++ (w ++ ys)) : pat <:+: xs ∨ pat <:+: ys := by
  obtain ⟨u, v, huv⟩ := hwithin
  rw [List.append_assoc] at huv
  rcases List.append_eq_append_iff.mp huv with ⟨s, rfl, hv⟩ | ⟨s, rfl, hw⟩
  · -- the occurrence starts in the text before
    rcases List.append_eq_append_iff.mp hv with ⟨s', rfl, -⟩ | ⟨t, rfl, ht⟩
    · exact .inl ⟨u, s', by rw [List.append_assoc]⟩
    · rcases List.eq_nil_or_concat t with rfl | ⟨t, c, rfl⟩
      · exact .inl ⟨u, [], by simp⟩
      · have hpre : t.concat c <+: w := by
          refine List.prefix_of_prefix_length_le (ht ▸ List.prefix_append _ v)
            (List.prefix_append w ys) ?_
          have hlong := h.long
          rw [List.length_append] at hlong
          omega
        refine absurd (hpre.subset (by simp)) (h.last c ?_)
        simp
  · rcases List.append_eq_append_iff.mp hw with ⟨s', rfl, hy⟩ | ⟨t, rfl, ht⟩
    · exact .inr ⟨s', v, by rw [hy, List.append_assoc]⟩
    · cases t with
      | nil =>
        rw [List.nil_append] at ht
        exact .inr ⟨[], v, by simpa using ht⟩
      | cons c t =>
        cases pat with
        | nil => exact absurd rfl hpat
        | cons p ps =>
          obtain ⟨rfl, -⟩ := List.cons.inj ht
          exact absurd (by simp) (h.head p rfl)

/-- Replaced by such a text the pattern is gone. -/
theorem not_infix_replaceAll (hpat : pat ≠ []) (h : Separates pat w) (cs : List α) :
    ¬pat <:+: replaceAll pat w cs := by
  induction cs using cut_induct hpat with
  | absent cs hcut =>
    rw [replaceAll_of_none hcut]
    rintro ⟨s, t, rfl⟩
    refine cut_eq_none_iff.mp hcut s.length ?_
    rw [List.append_assoc, List.drop_left]
    exact List.prefix_append pat t
  | found cs before after hcut ih =>
    rw [replaceAll_of_some hpat hcut]
    intro hwithin
    rcases h.infix_or hpat hwithin with ⟨s, t, rfl⟩ | hafter
    · obtain ⟨hcs, hfirst⟩ := cut_eq_some_iff.mp hcut
      have hpos := List.length_pos_of_ne_nil hpat
      refine hfirst s.length (by simp; omega) ?_
      rw [hcs]
      simp only [List.append_assoc, List.drop_left]
      exact List.prefix_append pat _
    · exact ih hafter

end Replace

section Blocks

variable {opening closing t new cs inner rest xs ys : List α}

/-- No occurrence of the second starts in the first, whatever comes behind it. -/
def Clear (xs ys : List α) : Prop :=
  ∀ d < xs.length, ¬ys <+: xs.drop d ∧ ¬xs.drop d <+: ys

instance : Decidable (Clear xs ys) := inferInstanceAs (Decidable (∀ d < xs.length, _))

omit [DecidableEq α] in
theorem Clear.not_prefix (h : Clear xs ys) {d : Nat} (hd : d < xs.length) (cs : List α) :
    ¬ys <+: (xs ++ cs).drop d := by
  rw [List.drop_append_of_le_length hd.le]
  intro hpre
  rcases List.prefix_or_prefix_of_prefix hpre (List.prefix_append (xs.drop d) cs) with hp | hp
  · exact (h d hd).1 hp
  · exact (h d hd).2 hp

/-- An opening and a closing that overlap neither each other nor, for the opening, itself. -/
structure Delimiters (opening closing : List α) : Prop where
  nonempty : opening ≠ []
  self : Clear opening.tail opening
  closed : Clear opening closing
  opened : Clear closing opening

/-- What stands between each opening and the next closing, with the text before it, and what is
left at the end. -/
def blocks (opening closing : List α) : Nat → List α → List (List α × List α) × List α
  | 0, cs => ([], cs)
  | fuel + 1, cs =>
    match cut opening cs with
    | none => ([], cs)
    | some (before, after) =>
      match cut closing after with
      | none => ([], cs)
      | some (inner, rest) =>
        ((before, inner) :: (blocks opening closing fuel rest).1,
          (blocks opening closing fuel rest).2)

/-- The text with the inner texts that have a new one replaced, delimiters and all. -/
def put (opening closing : List α) (value : List α → Option (List α))
    (parts : List (List α × List α) × List α) : List α :=
  parts.1.flatMap (fun b => b.1 ++ (value b.2).getD (opening ++ (b.2 ++ closing))) ++ parts.2

omit [DecidableEq α] in
theorem put_cons (value : List α → Option (List α)) (before inner : List α)
    (parts : List (List α × List α) × List α) :
    put opening closing value ((before, inner) :: parts.1, parts.2) =
      before ++ ((value inner).getD (opening ++ (inner ++ closing)) ++
        put opening closing value parts) := by
  simp [put]

/-- The opening stands for itself: what is found first in a block is its own closing. -/
theorem cut_closing (h : Delimiters opening closing)
    (ht : cut closing (t ++ closing) = some (t, []))
    (cs : List α) : cut closing (opening ++ (t ++ (closing ++ cs))) = some (opening ++ t, cs) := by
  rw [cut_prepend fun d hd => h.closed.not_prefix hd _, ← List.append_assoc, cut_append ht]
  rfl

/-- A block that is not the one searched for, nor ends like it, is passed over. -/
theorem not_prefix_block (h : Delimiters opening closing)
    (ht : cut closing (t ++ closing) = some (t, []))
    (hinner : cut closing (inner ++ (closing ++ rest)) = some (inner, rest)) (hne : inner ≠ t)
    (hend : ¬opening ++ t <:+ inner) {d : Nat}
    (hd : d < (opening ++ (inner ++ closing)).length) :
    ¬opening ++ (t ++ closing) <+: (opening ++ (inner ++ (closing ++ rest))).drop d := by
  rintro ⟨z, hz⟩
  have hopening : opening <+: (opening ++ (inner ++ (closing ++ rest))).drop d :=
    (List.prefix_append _ _).trans ⟨z, hz⟩
  have hlen : d < opening.length + (inner.length + closing.length) := by simpa using hd
  rcases Nat.lt_or_ge d opening.length with hlt | hge
  · cases d with
    | zero =>
      -- at the opening of the block itself the inner texts would be the same
      rw [List.drop_zero, List.append_assoc] at hz
      have htext := List.append_cancel_left hz
      rw [← htext, List.append_assoc, ← List.append_assoc, cut_append ht] at hinner
      simp only [Option.some.injEq, Prod.mk.injEq] at hinner
      exact hne hinner.1.symm
    | succ d =>
      obtain ⟨c, os, rfl⟩ := List.exists_cons_of_ne_nil h.nonempty
      exact h.self.not_prefix (Nat.succ_lt_succ_iff.mp hlt) _ hopening
  · obtain ⟨e, rfl⟩ := Nat.exists_eq_add_of_le hge
    rw [← List.drop_drop, List.drop_left] at hz hopening
    rcases Nat.lt_or_ge e inner.length with hin | hout
    · -- inside the block the closing of both is the same, so that the block ends like it
      have hshort := cut_drop hinner hin.le
      rw [← List.drop_append_of_le_length hin.le, ← hz] at hshort
      simp only [List.append_assoc] at hshort
      rw [cut_closing h ht] at hshort
      simp only [Option.some.injEq, Prod.mk.injEq] at hshort
      exact hend (hshort.1 ▸ List.drop_suffix e inner)
    · obtain ⟨k, rfl⟩ := Nat.exists_eq_add_of_le hout
      rw [← List.drop_drop, List.drop_left] at hopening
      exact h.opened.not_prefix (by omega) _ hopening

/-- Behind the last block there is none. -/
theorem cut_block_eq_none
    (hrest : ∀ before after, cut opening cs = some (before, after) → cut closing after = none) :
    cut (opening ++ (t ++ closing)) cs = none := by
  refine cut_eq_none_iff.mpr fun d hpre => ?_
  have hopening : opening <+: cs.drop d := (List.prefix_append _ _).trans hpre
  cases hcut : cut opening cs with
  | none => exact cut_eq_none_iff.mp hcut d hopening
  | some parts =>
    obtain ⟨hcs, hfirst⟩ :=
      cut_eq_some_iff.mp (show cut opening cs = some (parts.1, parts.2) from hcut)
    have hle : parts.1.length ≤ d := by
      by_contra hlt
      exact hfirst d (by omega) hopening
    obtain ⟨e, rfl⟩ := Nat.exists_eq_add_of_le hle
    obtain ⟨z, hz⟩ := hpre
    rw [hcs, ← List.drop_drop, List.drop_left] at hz
    -- the closing comes after the first opening
    have hclosing : closing <+: (opening ++ parts.2).drop (e + (opening.length + t.length)) := by
      rw [← List.drop_drop, ← hz]
      refine ⟨z, ?_⟩
      rw [← List.append_assoc, ← List.length_append, List.append_assoc, List.drop_left]
    rw [show e + (opening.length + t.length) = opening.length + (e + t.length) by omega,
      ← List.drop_drop, List.drop_left] at hclosing
    exact cut_eq_none_iff.mp (hrest parts.1 parts.2 hcut) _ hclosing

/-- A text with its blocks put as they are. -/
theorem put_blocks (fuel : Nat) (cs : List α) :
    put opening closing (fun _ => none) (blocks opening closing fuel cs) = cs := by
  fun_induction blocks opening closing fuel cs with
  | case4 fuel cs before after hcut inner rest hclose ih =>
    rw [put_cons, ih, Option.getD_none, (cut_eq_some_iff.mp hcut).1,
      (cut_eq_some_iff.mp hclose).1]
    simp only [List.append_assoc]
  | _ => rfl

omit [DecidableEq α] in
theorem put_congr {value value' : List α → Option (List α)}
    {parts : List (List α × List α) × List α} (h : ∀ b ∈ parts.1, value b.2 = value' b.2) :
    put opening closing value parts = put opening closing value' parts := by
  rw [put, put]
  congr 1
  refine List.flatMap_congr fun b hb => ?_
  rw [h b hb]

omit [DecidableEq α] in
theorem infix_put {value : List α → Option (List α)} {parts : List (List α × List α) × List α}
    {b : List α × List α} {v : List α} (hb : b ∈ parts.1) (hv : value b.2 = some v) :
    v <:+: put opening closing value parts := by
  have hblock := List.infix_of_mem_flatten (List.mem_map_of_mem
    (f := fun b => b.1 ++ (value b.2).getD (opening ++ (b.2 ++ closing))) hb)
  rw [hv, Option.getD_some] at hblock
  exact ((List.suffix_append b.1 v).isInfix.trans hblock).trans (List.prefix_append _ _).isInfix

/-- The inner text of a block runs up to the first closing. -/
theorem cut_of_mem_blocks {fuel : Nat} {b : List α × List α}
    (hb : b ∈ (blocks opening closing fuel cs).1) :
    cut closing (b.2 ++ closing) = some (b.2, []) := by
  fun_induction blocks opening closing fuel cs with
  | case4 fuel cs before after hcut inner rest hclose ih =>
    rcases List.mem_cons.mp hb with rfl | hb
    · exact cut_self hclose
    · exact ih hb
  | _ => cases hb

/-- When no other block ends like the one searched for, replacing it puts the new text in the
place of the blocks that are the same. -/
theorem replaceAll_block (h : Delimiters opening closing)
    (ht : cut closing (t ++ closing) = some (t, [])) (fuel : Nat) (hfuel : cs.length ≤ fuel)
    (hblocks : ∀ b ∈ (blocks opening closing fuel cs).1, b.2 = t ∨ ¬opening ++ t <:+ b.2) :
    replaceAll (opening ++ (t ++ closing)) new cs =
      put opening closing (fun inner => if inner = t then some new else none)
        (blocks opening closing fuel cs) := by
  have hpat : opening ++ (t ++ closing) ≠ [] := by simp [h.nonempty]
  fun_induction blocks opening closing fuel cs with
  | case1 cs =>
    obtain rfl := List.eq_nil_of_length_eq_zero (Nat.le_zero.mp hfuel)
    rfl
  | case2 fuel cs hcut =>
    refine replaceAll_of_none (cut_block_eq_none fun before after hsome => ?_)
    rw [hcut] at hsome
    cases hsome
  | case3 fuel cs before after hcut hclose =>
    refine replaceAll_of_none (cut_block_eq_none fun before' after' hsome => ?_)
    rw [hcut] at hsome
    cases hsome
    exact hclose
  | case4 fuel cs before after hcut inner rest hclose ih =>
    obtain ⟨hfirst, hlater⟩ := List.forall_mem_cons.mp hblocks
    have hlen := length_of_cut hcut
    have hlen' := length_of_cut hclose
    have hpos := List.length_pos_of_ne_nil h.nonempty
    have hrest := ih (by omega) hlater
    obtain ⟨rfl, hbefore⟩ := cut_eq_some_iff.mp hcut
    obtain ⟨rfl, -⟩ := cut_eq_some_iff.mp hclose
    rw [put_cons, ← hrest]
    by_cases hinner : inner = t
    · subst hinner
      have hblock : cut (opening ++ (inner ++ closing))
          (before ++ (opening ++ (inner ++ (closing ++ rest)))) = some (before, rest) := by
        refine cut_append_pat ?_
        rw [hcut, List.append_assoc]
      rw [replaceAll_of_some hpat hblock, if_pos rfl, Option.getD_some]
    · have hend := hfirst.resolve_left hinner
      rw [if_neg hinner, Option.getD_none]
      rw [replaceAll_prepend hpat fun d hd hpre =>
        hbefore d hd ((List.prefix_append _ _).trans hpre)]
      have hskip : replaceAll (opening ++ (t ++ closing)) new
            (opening ++ (inner ++ closing) ++ rest) =
          opening ++ (inner ++ closing) ++ replaceAll (opening ++ (t ++ closing)) new rest := by
        refine replaceAll_prepend hpat fun d hd => ?_
        simp only [List.append_assoc]
        exact not_prefix_block h ht hclose hinner hend hd
      simp only [List.append_assoc] at hskip ⊢
      rw [hskip]

end Blocks

end PangeaOperator.Cut
