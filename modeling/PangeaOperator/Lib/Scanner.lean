import Mathlib.Data.List.Basic
import Mathlib.Data.List.Infix

/-!
# Scanners that strip

A scanner goes through a list. Where the pattern of a rule stands, the pattern and a tag are
written, and what follows is skipped in the mode of the rule; any other item is copied. Texts with
variable parts scan alike, whatever stands in the parts, just in case every part is skipped from its
start to its end; and what is written scans to itself just in case no rule stops before its own tag.
-/

namespace PangeaOperator

structure Scanner.Rule (α μ : Type) where
  pattern : List α
  tag : List α
  mode : μ
  pattern_ne : pattern ≠ []

/-- `step` goes on with a mode over an item that it skips. -/
structure Scanner (α μ : Type) where
  rules : List (Scanner.Rule α μ)
  step : μ → α → Option μ
  copied : α → List α

namespace Scanner

section Skip

variable {α μ : Type} (S : Scanner α μ)

theorem length_pattern_pos (r : Rule α μ) : 0 < r.pattern.length :=
  List.length_pos_iff.mpr r.pattern_ne

def skip : μ → List α → List α
  | _, [] => []
  | m, c :: cs =>
    match S.step m c with
    | some m' => skip m' cs
    | none => c :: cs

/-- No pattern begins within a pattern, another one or the same. -/
def Apart : Prop := ∀ r ∈ S.rules, ∀ q ∈ S.rules, ∀ j,
  q.pattern <+: r.pattern.drop j → j = 0 ∧ q = r

variable {S}

theorem eq_of_prefixes (hapart : S.Apart) {r q : Rule α μ} (hr : r ∈ S.rules) (hq : q ∈ S.rules)
    {cs : List α} (hrcs : r.pattern <+: cs) (hqcs : q.pattern <+: cs) : q = r := by
  rcases List.prefix_or_prefix_of_prefix hrcs hqcs with h | h
  · exact (hapart q hq r hr 0 h).2.symm
  · exact (hapart r hr q hq 0 h).2

theorem skip_of_step {m m' : μ} {c : α} (h : S.step m c = some m') (cs : List α) :
    S.skip m (c :: cs) = S.skip m' cs := by
  rw [skip, h]

theorem skip_of_stop {m : μ} {c : α} (h : S.step m c = none) (cs : List α) :
    S.skip m (c :: cs) = c :: cs := by
  rw [skip, h]

theorem skip_suffix (m : μ) (cs : List α) : S.skip m cs <:+ cs := by
  induction cs generalizing m with
  | nil => exact List.suffix_rfl
  | cons c cs ih =>
    rw [skip]
    split
    · next m' _ => exact (ih m').trans (List.suffix_cons c cs)
    · exact List.suffix_rfl

/-- What stops a skip stops it, whatever follows. -/
theorem skip_append_of_ne_nil {m : μ} {xs : List α} (h : S.skip m xs ≠ []) (ys : List α) :
    S.skip m (xs ++ ys) = S.skip m xs ++ ys := by
  induction xs generalizing m with
  | nil => exact absurd rfl h
  | cons x xs ih =>
    rw [List.cons_append, skip, skip]
    rw [skip] at h
    cases hx : S.step m x with
    | none => rfl
    | some m' =>
      rw [hx] at h
      exact ih h

theorem skip_append_of_stays {m : μ} {v : List α} (h : ∀ c ∈ v, S.step m c = some m)
    (t : List α) : S.skip m (v ++ t) = S.skip m t := by
  induction v with
  | nil => rfl
  | cons c v ih =>
    rw [List.forall_mem_cons] at h
    rw [List.cons_append, skip_of_step h.1, ih h.2]

theorem skip_eq_self {m : μ} {cs : List α} (h : ∀ c, cs.head? = some c → S.step m c = none) :
    S.skip m cs = cs := by
  cases cs with
  | nil => rfl
  | cons c cs => exact skip_of_stop (h c rfl) cs

theorem step_head?_skip {m : μ} (hstays : ∀ c m', S.step m c = some m' → m' = m) {cs : List α}
    {c : α} (h : (S.skip m cs).head? = some c) : S.step m c = none := by
  induction cs with
  | nil => cases h
  | cons d cs ih =>
    cases hd : S.step m d with
    | none =>
      rw [skip_of_stop hd] at h
      cases h
      exact hd
    | some m' =>
      rw [skip_of_step hd, hstays d m' hd] at h
      exact ih h

end Skip

section Scan

variable {α μ : Type} [DecidableEq α] (S : Scanner α μ)

def ruleAt (cs : List α) : Option (Rule α μ) := S.rules.find? (fun r => r.pattern <+: cs)

def scan : List α → List α
  | [] => []
  | c :: cs =>
    match S.ruleAt (c :: cs) with
    | some r => r.pattern ++ (r.tag ++ scan (S.skip r.mode ((c :: cs).drop r.pattern.length)))
    | none => S.copied c ++ scan cs
  termination_by cs => cs.length
  decreasing_by
    · have hskip := (skip_suffix (S := S) r.mode ((c :: cs).drop r.pattern.length)).length_le
      have hpos := length_pattern_pos r
      have hdrop : ((c :: cs).drop r.pattern.length).length < (c :: cs).length := by
        rw [List.length_drop]
        exact Nat.sub_lt (Nat.succ_pos _) hpos
      exact Nat.lt_of_le_of_lt hskip hdrop
    · exact Nat.lt_succ_self _

variable {S}

theorem ruleAt_append (hapart : S.Apart) {r : Rule α μ} (hr : r ∈ S.rules) (cs : List α) :
    S.ruleAt (r.pattern ++ cs) = some r := by
  cases hfind : S.ruleAt (r.pattern ++ cs) with
  | none =>
    have hnot := List.find?_eq_none.mp hfind r hr
    simp at hnot
  | some q =>
    have hq := List.find?_some hfind
    rw [eq_of_prefixes hapart hr (List.mem_of_find?_eq_some hfind) (List.prefix_append ..)
      (by simpa using hq)]

theorem scan_rule (hapart : S.Apart) {r : Rule α μ} (hr : r ∈ S.rules) (cs : List α) :
    S.scan (r.pattern ++ cs) = r.pattern ++ (r.tag ++ S.scan (S.skip r.mode cs)) := by
  have hrule := ruleAt_append hapart hr cs
  have hdrop : (r.pattern ++ cs).drop r.pattern.length = cs := List.drop_left
  cases happ : r.pattern ++ cs with
  | nil => exact absurd (List.append_eq_nil_iff.mp happ).1 r.pattern_ne
  | cons c rest =>
    rw [happ] at hrule hdrop
    rw [scan, hrule]
    simp only [hdrop]

theorem scan_copy {c : α} {cs : List α} (h : ∀ r ∈ S.rules, ¬ r.pattern <+: c :: cs) :
    S.scan (c :: cs) = S.copied c ++ S.scan cs := by
  have hnone : S.ruleAt (c :: cs) = none := List.find?_eq_none.mpr fun r hr => by simpa using h r hr
  rw [scan, hnone]

/-- Items that no pattern begins with are copied, whatever follows. -/
theorem scan_append_of_no_head {u : List α}
    (hu : ∀ c ∈ u, ∀ r ∈ S.rules, r.pattern.head? ≠ some c) (t : List α) :
    S.scan (u ++ t) = u.flatMap S.copied ++ S.scan t := by
  induction u with
  | nil => rfl
  | cons c u ih =>
    have hnot : ∀ r ∈ S.rules, ¬ r.pattern <+: c :: (u ++ t) := by
      intro r hr hpre
      cases hp : r.pattern with
      | nil => exact r.pattern_ne hp
      | cons d ds =>
        rw [hp] at hpre
        have hd := (List.cons_prefix_cons.mp hpre).1
        exact hu c List.mem_cons_self r hr (by rw [hp, hd]; rfl)
    rw [List.cons_append, scan_copy hnot, ih fun d hd => hu d (List.mem_cons_of_mem _ hd),
      List.flatMap_cons, List.append_assoc]

theorem scan_plain_append {u : List α}
    (hu : ∀ c ∈ u, S.copied c = [c] ∧ ∀ r ∈ S.rules, r.pattern.head? ≠ some c) (t : List α) :
    S.scan (u ++ t) = u ++ S.scan t := by
  have hcopied : u.flatMap S.copied = u := by
    rw [List.flatMap_congr fun c hc => (hu c hc).1, List.flatMap_singleton']
  rw [scan_append_of_no_head fun c hc => (hu c hc).2, hcopied]

theorem head?_scan {c : α} (h : S.copied c = [c]) (cs : List α) :
    (S.scan (c :: cs)).head? = some c := by
  rw [scan]
  split
  · next r hrule =>
    have hcs : r.pattern <+: c :: cs := by simpa using List.find?_some hrule
    cases hp : r.pattern with
    | nil => exact absurd hp r.pattern_ne
    | cons d ds =>
      rw [hp] at hcs
      rw [(List.cons_prefix_cons.mp hcs).1]
      rfl
  · rw [h]
    rfl

/-- The cases of a scan: a rule or a copied item stands first. -/
theorem scan_induction {motive : List α → Prop} (nil : motive [])
    (rule : ∀ r ∈ S.rules, ∀ cs, motive (S.skip r.mode cs) → motive (r.pattern ++ cs))
    (copy : ∀ c cs, (∀ r ∈ S.rules, ¬ r.pattern <+: c :: cs) → motive cs → motive (c :: cs))
    (cs : List α) : motive cs := by
  induction hn : cs.length using Nat.strong_induction_on generalizing cs with
  | _ n ih =>
    cases cs with
    | nil => exact nil
    | cons c cs =>
      by_cases hrule : ∃ r ∈ S.rules, r.pattern <+: c :: cs
      · obtain ⟨r, hr, rest, hrest⟩ := hrule
        have hskip := (skip_suffix (S := S) r.mode rest).length_le
        have hpos := length_pattern_pos r
        have hlength := congrArg List.length hrest
        rw [List.length_append, hn] at hlength
        rw [← hrest]
        exact rule r hr rest (ih _ (by omega) _ rfl)
      · exact copy c cs (fun r hr hpre => hrule ⟨r, hr, hpre⟩)
          (ih cs.length (hn ▸ Nat.lt_succ_self _) cs rfl)

end Scan

section Parts

/-- An item of a text, or a part of it that varies. -/
inductive Cell (α π : Type) where
  | item (c : α)
  | part (p : π)
  deriving DecidableEq

variable {α μ π : Type}

def items (cs : List α) : List (Cell α π) := cs.map .item

/-- The texts that a list of cells stands for. -/
inductive Fills (fits : π → List α → Prop) : List (Cell α π) → List α → Prop
  | nil : Fills fits [] []
  | item (c : α) {cells : List (Cell α π)} {t : List α} :
    Fills fits cells t → Fills fits (.item c :: cells) (c :: t)
  | part {p : π} {v t : List α} {cells : List (Cell α π)} :
    fits p v → Fills fits cells t → Fills fits (.part p :: cells) (v ++ t)

/-- What is left to scan, in a mode or outside of them. -/
def after (S : Scanner α μ) : Option μ → List α → List α
  | none, t => t
  | some m, t => S.skip m t

/-- Every part is skipped as a whole. `pass` is the mode behind a part that a mode skips. -/
inductive Hides (S : Scanner α μ) (pass : μ → π → Option μ) : Option μ → List (Cell α π) → Prop
  | nil (o : Option μ) : Hides S pass o []
  | rule {r : Rule α μ} {cells : List (Cell α π)} (hr : r ∈ S.rules) :
    Hides S pass (some r.mode) cells → Hides S pass none (items r.pattern ++ cells)
  | copy {c : α} {cells : List (Cell α π)}
    (hnot : ∀ r ∈ S.rules, ¬ items r.pattern <+: .item c :: cells) :
    Hides S pass none cells → Hides S pass none (.item c :: cells)
  | skip {m m' : μ} {c : α} {cells : List (Cell α π)} (hstep : S.step m c = some m') :
    Hides S pass (some m') cells → Hides S pass (some m) (.item c :: cells)
  | stop {m : μ} {c : α} {cells : List (Cell α π)} (hstep : S.step m c = none) :
    Hides S pass none (.item c :: cells) → Hides S pass (some m) (.item c :: cells)
  | part {m m' : μ} {p : π} {cells : List (Cell α π)} (hpass : pass m p = some m') :
    Hides S pass (some m') cells → Hides S pass (some m) (.part p :: cells)

variable {S : Scanner α μ} {pass : μ → π → Option μ} {fits : π → List α → Prop}
  {cells : List (Cell α π)} {t w : List α}

theorem prefix_items (h : w <+: t) : (items w : List (Cell α π)) <+: items t := h.map Cell.item

theorem fills_items_append {ps : List α} (h : Fills fits (items ps ++ cells) t) :
    ∃ t', t = ps ++ t' ∧ Fills fits cells t' := by
  induction ps generalizing t with
  | nil => exact ⟨t, rfl, h⟩
  | cons c ps ih =>
    cases h with
    | item _ hrest =>
      obtain ⟨t', rfl, ht'⟩ := ih hrest
      exact ⟨t', rfl, ht'⟩

theorem Fills.items_append {ps : List α} (h : Fills fits cells t) :
    Fills fits (items ps ++ cells) (ps ++ t) := by
  induction ps with
  | nil => exact h
  | cons c ps ih => exact .item c ih

/-- Where a mode ends at once, parts are hidden as they are outside of it. -/
theorem Hides.stopped {m : μ} (h : Hides S pass none cells)
    (hstop : ∀ c rest, cells = .item c :: rest → S.step m c = none) :
    Hides S pass (some m) cells := by
  cases hcells : cells with
  | nil => exact .nil (some m)
  | cons cell rest =>
    cases cell with
    | item c => exact .stop (hstop c rest hcells) (hcells ▸ h)
    | part p =>
      cases h with
      | nil => cases hcells
      | @rule r _ _ _ =>
        cases hp : r.pattern with
        | nil => exact absurd hp r.pattern_ne
        | cons d ds =>
          rw [hp] at hcells
          cases hcells
      | copy => cases hcells

/-- The rest of a pattern does not reach into a part, as a rule begins before the part does. -/
theorem prefix_of_hides (hapart : S.Apart) {r : Rule α μ} (hr : r ∈ S.rules) {o : Option μ}
    (h : Hides S pass o cells) (ho : o = none) (hfill : Fills fits cells t) {j : Nat}
    (hw : r.pattern.drop (j + 1) <+: t) : items (r.pattern.drop (j + 1)) <+: cells := by
  induction h generalizing t j with
  | nil o =>
    cases hfill
    rw [List.prefix_nil.mp hw]
    exact List.prefix_rfl
  | @rule q cells hq _ _ =>
    obtain ⟨t', rfl, -⟩ := fills_items_append hfill
    rcases List.prefix_or_prefix_of_prefix hw (List.prefix_append q.pattern t') with hwq | hqw
    · exact (prefix_items hwq).trans (List.prefix_append _ _)
    · exact absurd (hapart r hr q hq (j + 1) hqw).1 (Nat.succ_ne_zero j)
  | @copy c cells _ _ ih =>
    cases hfill with
    | @item _ _ t hrest =>
      cases hdrop : r.pattern.drop (j + 1) with
      | nil => exact List.nil_prefix
      | cons d ds =>
        have hds : r.pattern.drop (j + 1 + 1) = ds := by
          rw [← List.drop_drop, hdrop]
          rfl
        rw [hdrop, List.cons_prefix_cons] at hw
        rw [hw.1, items, List.map_cons, List.cons_prefix_cons]
        have hrec := ih rfl hrest (j := j + 1) (hds ▸ hw.2)
        rw [hds] at hrec
        exact ⟨rfl, hrec⟩
  | skip => cases ho
  | stop => cases ho
  | part => cases ho

theorem not_prefix_of_hides (hapart : S.Apart) {c : α} (hcells : Hides S pass none cells)
    (hnot : ∀ r ∈ S.rules, ¬ items r.pattern <+: .item c :: cells) (hfill : Fills fits cells t)
    {r : Rule α μ} (hr : r ∈ S.rules) : ¬ r.pattern <+: c :: t := by
  intro hpre
  cases hp : r.pattern with
  | nil => exact r.pattern_ne hp
  | cons d ds =>
    rw [hp, List.cons_prefix_cons] at hpre
    have hds : r.pattern.drop (0 + 1) = ds := by
      rw [hp]
      rfl
    have hrest := prefix_of_hides hapart hr hcells rfl hfill (hds ▸ hpre.2)
    refine hnot r hr ?_
    rw [hp, hpre.1, items, List.map_cons, List.cons_prefix_cons]
    exact ⟨rfl, hds ▸ hrest⟩

variable [DecidableEq α]

/-- Texts that differ in hidden parts scan alike. -/
theorem scan_of_hides (hapart : S.Apart)
    (hpass : ∀ m p m', pass m p = some m' → ∀ v, fits p v → ∀ t, S.skip m (v ++ t) = S.skip m' t)
    {o : Option μ} (h : Hides S pass o cells) :
    ∃ out, ∀ t, Fills fits cells t → S.scan (after S o t) = out := by
  induction h with
  | nil o =>
    refine ⟨[], fun t ht => ?_⟩
    cases ht
    cases o <;> simp [after, Scanner.skip, scan]
  | @rule r cells hr _ ih =>
    obtain ⟨out, hout⟩ := ih
    refine ⟨r.pattern ++ (r.tag ++ out), fun t ht => ?_⟩
    obtain ⟨t', rfl, ht'⟩ := fills_items_append ht
    rw [after, scan_rule hapart hr, ← hout t' ht']
    rfl
  | @copy c cells hnot hcells ih =>
    obtain ⟨out, hout⟩ := ih
    refine ⟨S.copied c ++ out, fun t ht => ?_⟩
    cases ht with
    | @item _ _ t ht =>
      rw [after, scan_copy fun r hr => not_prefix_of_hides hapart hcells hnot ht hr, ← hout t ht]
      rfl
  | @skip m m' c cells hstep _ ih =>
    obtain ⟨out, hout⟩ := ih
    refine ⟨out, fun t ht => ?_⟩
    cases ht with
    | @item _ _ t ht =>
      rw [after, skip_of_step hstep]
      exact hout t ht
  | @stop m c cells hstep _ ih =>
    obtain ⟨out, hout⟩ := ih
    refine ⟨out, fun t ht => ?_⟩
    have hsame := hout t ht
    cases ht with
    | @item _ _ t ht =>
      rw [after, skip_of_stop hstep]
      exact hsame
  | @part m m' p cells hp _ ih =>
    obtain ⟨out, hout⟩ := ih
    refine ⟨out, fun t ht => ?_⟩
    cases ht with
    | @part _ v t _ hv ht =>
      rw [after, hpass m p m' hp v hv]
      exact hout t ht

end Parts

section Samples

variable {α μ π : Type} (sample : Bool → π → List α)

/-- A text with one of two samples in each part. -/
def fill (b : Bool) : List (Cell α π) → List α
  | [] => []
  | .item c :: cells => c :: fill b cells
  | .part p :: cells => sample b p ++ fill b cells

/-- The samples of a part begin with an item that no pattern has and hold none that a pattern
begins with; and where a part is not hidden, what is left of its samples differs. -/
structure Telling (S : Scanner α μ) (pass : μ → π → Option μ) : Prop where
  head : ∀ b p, ∃ c, (sample b p).head? = some c ∧ ∀ r ∈ S.rules, c ∉ r.pattern
  plain : ∀ b p, ∀ c ∈ sample b p, S.copied c = [c] ∧ ∀ r ∈ S.rules, r.pattern.head? ≠ some c
  length : ∀ o p, o.bind (pass · p) = none →
    (after S o (sample true p)).length = (after S o (sample false p)).length
  differ : ∀ o p, o.bind (pass · p) = none →
    after S o (sample true p) ≠ after S o (sample false p)

variable {sample} {S : Scanner α μ} {pass : μ → π → Option μ} {cells : List (Cell α π)}

theorem fits_fill {fits : π → List α → Prop} (hfits : ∀ b p, fits p (sample b p)) (b : Bool)
    (cells : List (Cell α π)) : Fills fits cells (fill sample b cells) := by
  induction cells with
  | nil => exact .nil
  | cons cell cells ih =>
    cases cell with
    | item c => exact .item c ih
    | part p => exact .part (hfits b p) ih

theorem fill_items_append (b : Bool) (ps : List α) (cells : List (Cell α π)) :
    fill sample b (items ps ++ cells) = ps ++ fill sample b cells := by
  induction ps with
  | nil => rfl
  | cons c ps ih => rw [List.cons_append, ← ih]; rfl

/-- No pattern reaches into a sample. -/
theorem prefix_of_prefix_fill (h : Telling sample S pass) {b : Bool} {r : Rule α μ}
    (hr : r ∈ S.rules) {w : List α} (hw : ∀ c ∈ w, c ∈ r.pattern)
    (hpre : w <+: fill sample b cells) : items w <+: cells := by
  induction cells generalizing w with
  | nil =>
    rw [List.prefix_nil.mp hpre]
    exact List.prefix_rfl
  | cons cell cells ih =>
    cases w with
    | nil => exact List.nil_prefix
    | cons d ds =>
      cases cell with
      | item c =>
        obtain ⟨rfl, hds⟩ := List.cons_prefix_cons.mp hpre
        rw [items, List.map_cons, List.cons_prefix_cons]
        exact ⟨rfl, ih (fun c hc => hw c (List.mem_cons_of_mem _ hc)) hds⟩
      | part p =>
        obtain ⟨c, hc, hnot⟩ := h.head b p
        have hhead : (fill sample b (.part p :: cells)).head? = some c := by
          rw [fill, List.head?_append, hc, Option.some_or]
        have hd : (fill sample b (.part p :: cells)).head? = some d := by
          obtain ⟨rest, hrest⟩ := hpre
          rw [← hrest]
          rfl
        have hcd : d = c := Option.some.inj (hd.symm.trans hhead)
        exact absurd (hcd ▸ hw d List.mem_cons_self) (hnot r hr)

theorem after_append {o : Option μ} {xs : List α} (h : after S o xs ≠ []) (ys : List α) :
    after S o (xs ++ ys) = after S o xs ++ ys := by
  cases o with
  | none => rfl
  | some m => exact skip_append_of_ne_nil h ys

variable [DecidableEq α]

/-- A part that is not hidden shows in what is written. -/
theorem scan_sample_ne (h : Telling sample S pass) {o : Option μ} {p : π}
    (ho : o.bind (pass · p) = none) (xs ys : List α) :
    S.scan (after S o (sample true p ++ xs)) ≠ S.scan (after S o (sample false p ++ ys)) := by
  have hlength := h.length o p ho
  have hdiffer := h.differ o p ho
  have hne (b : Bool) : after S o (sample b p) ≠ [] := by
    intro hnil
    cases b with
    | true =>
      rw [hnil, List.length_nil, eq_comm, List.length_eq_zero_iff] at hlength
      exact hdiffer (hnil.trans hlength.symm)
    | false =>
      rw [hnil, List.length_nil, List.length_eq_zero_iff] at hlength
      exact hdiffer (hlength.trans hnil.symm)
  have hplain (b : Bool) : ∀ c ∈ after S o (sample b p),
      S.copied c = [c] ∧ ∀ r ∈ S.rules, r.pattern.head? ≠ some c := by
    intro c hc
    refine h.plain b p c ?_
    cases o with
    | none => exact hc
    | some m => exact (skip_suffix m (sample b p)).subset hc
  intro heq
  rw [after_append (hne true), after_append (hne false), scan_plain_append (hplain true),
    scan_plain_append (hplain false)] at heq
  exact hdiffer (List.append_inj heq hlength).1

/-- Outside of the modes, given the shorter lists. -/
theorem hides_text_of_scan_fill (hapart : S.Apart) (h : Telling sample S pass)
    (ih : ∀ cells' : List (Cell α π), cells'.length < cells.length → ∀ o,
      S.scan (after S o (fill sample true cells')) = S.scan (after S o (fill sample false cells')) →
        Hides S pass o cells')
    (hscan : S.scan (fill sample true cells) = S.scan (fill sample false cells)) :
    Hides S pass none cells := by
  cases cells with
  | nil => exact .nil none
  | cons cell cells =>
    cases cell with
    | part p => exact absurd hscan (scan_sample_ne h (o := none) rfl _ _)
    | item c =>
      by_cases hrule : ∃ r ∈ S.rules, items r.pattern <+: .item c :: cells
      · obtain ⟨r, hr, rest, hrest⟩ := hrule
        rw [← hrest, fill_items_append, fill_items_append, scan_rule hapart hr, scan_rule hapart hr,
          List.append_cancel_left_eq, List.append_cancel_left_eq] at hscan
        have hlength := congrArg List.length hrest
        have hpos := length_pattern_pos r
        rw [List.length_append, items, List.length_map] at hlength
        rw [← hrest]
        exact .rule hr (ih rest (by omega) (some r.mode) hscan)
      · have hnot : ∀ r ∈ S.rules, ¬ items r.pattern <+: .item c :: cells :=
          fun r hr hpre => hrule ⟨r, hr, hpre⟩
        have hcopy (b : Bool) : S.scan (fill sample b (.item c :: cells)) =
            S.copied c ++ S.scan (fill sample b cells) :=
          scan_copy fun r hr hpre =>
            hnot r hr (prefix_of_prefix_fill h hr (fun _ hd => hd) hpre)
        rw [hcopy, hcopy, List.append_cancel_left_eq] at hscan
        exact .copy hnot (ih cells (Nat.lt_succ_self _) none hscan)

/-- Where the two samples of each part scan alike, every part is hidden. -/
theorem hides_of_scan_fill {fits : π → List α → Prop} (hapart : S.Apart)
    (h : Telling sample S pass) (hfits : ∀ b p, fits p (sample b p))
    (hpass : ∀ m p m', pass m p = some m' → ∀ v, fits p v → ∀ t, S.skip m (v ++ t) = S.skip m' t)
    (o : Option μ)
    (hscan : S.scan (after S o (fill sample true cells)) =
      S.scan (after S o (fill sample false cells))) :
    Hides S pass o cells := by
  induction hn : cells.length using Nat.strong_induction_on generalizing cells o with
  | _ n ih =>
    have hshorter (cells' : List (Cell α π)) (hlt : cells'.length < cells.length) (o : Option μ)
        (heq : S.scan (after S o (fill sample true cells')) =
          S.scan (after S o (fill sample false cells'))) : Hides S pass o cells' :=
      ih cells'.length (hn ▸ hlt) o heq rfl
    cases o with
    | none => exact hides_text_of_scan_fill hapart h hshorter hscan
    | some m =>
      cases cells with
      | nil => exact .nil (some m)
      | cons cell cells =>
        cases cell with
        | item c =>
          cases hstep : S.step m c with
          | some m' =>
            rw [after, after, fill, fill, skip_of_step hstep, skip_of_step hstep] at hscan
            exact .skip hstep (hshorter cells (Nat.lt_succ_self _) (some m') hscan)
          | none =>
            rw [after, after, fill, fill, skip_of_stop hstep, skip_of_stop hstep] at hscan
            exact .stop hstep (hides_text_of_scan_fill hapart h hshorter hscan)
        | part p =>
          cases hp : pass m p with
          | none => exact absurd hscan (scan_sample_ne h (o := some m) hp _ _)
          | some m' =>
            rw [after, after, fill, fill, hpass m p m' hp _ (hfits true p),
              hpass m p m' hp _ (hfits false p)] at hscan
            exact .part hp (hshorter cells (Nat.lt_succ_self _) (some m') hscan)

/-- A text with parts scans alike under all fillings just in case it hides its parts. -/
theorem scan_eq_iff_hides {fits : π → List α → Prop} (hapart : S.Apart)
    (h : Telling sample S pass) (hfits : ∀ b p, fits p (sample b p))
    (hpass : ∀ m p m', pass m p = some m' → ∀ v, fits p v → ∀ t, S.skip m (v ++ t) = S.skip m' t)
    (cells : List (Cell α π)) :
    (∀ t u, Fills fits cells t → Fills fits cells u → S.scan t = S.scan u) ↔
      Hides S pass none cells := by
  constructor
  · intro hsame
    exact hides_of_scan_fill hapart h hfits hpass none
      (hsame _ _ (fits_fill hfits true cells) (fits_fill hfits false cells))
  · intro hhides t u ht hu
    obtain ⟨out, hout⟩ := scan_of_hides hapart hpass hhides
    exact (hout t ht).trans (hout u hu).symm

end Samples

section Twice

variable {α μ : Type} {S : Scanner α μ}

/-- What is written beside the patterns has no item of one, unless it is copied as it is; and an
item that is not copied as it is grows again. -/
structure Marked (S : Scanner α μ) : Prop where
  tag_ne : ∀ r ∈ S.rules, r.tag ≠ []
  tag : ∀ r ∈ S.rules, ∀ c ∈ r.tag, S.copied c = [c] ∧ ∀ q ∈ S.rules, c ∉ q.pattern
  copied : ∀ c, S.copied c = [c] ∨ (S.copied c ≠ [] ∧
    ∀ d ∈ S.copied c, 2 ≤ (S.copied d).length ∧ ∀ q ∈ S.rules, d ∉ q.pattern)

/-- Every rule that applies is in a mode that skips its tag, and all that is copied is copied as it
is. -/
inductive Settled (S : Scanner α μ) (passes : μ → Prop) : List α → Prop
  | nil : Settled S passes []
  | rule {r : Rule α μ} {cs : List α} (hr : r ∈ S.rules) (hmode : passes r.mode) :
    Settled S passes (S.skip r.mode cs) → Settled S passes (r.pattern ++ cs)
  | copy {c : α} {cs : List α} (hnot : ∀ r ∈ S.rules, ¬ r.pattern <+: c :: cs)
    (hcopied : S.copied c = [c]) : Settled S passes cs → Settled S passes (c :: cs)

variable {passes : μ → Prop} {r : Rule α μ} {c : α} {cs : List α}

theorem not_head_of_not_mem {q : Rule α μ} (h : c ∉ q.pattern) : q.pattern.head? ≠ some c :=
  fun hhead => h (List.mem_of_head? hhead)

theorem length_copied_lt (h : Marked S) (hne : S.copied c ≠ [c]) :
    (S.copied c).length < ((S.copied c).flatMap S.copied).length := by
  obtain ⟨hnil, hmarks⟩ := (h.copied c).resolve_left hne
  have hdouble : ∀ ds : List α, (∀ d ∈ ds, 2 ≤ (S.copied d).length) →
      2 * ds.length ≤ (ds.flatMap S.copied).length := by
    intro ds
    induction ds with
    | nil => intro _; exact Nat.le_refl _
    | cons d ds ih =>
      intro hds
      rw [List.forall_mem_cons] at hds
      have hrest := ih hds.2
      rw [List.flatMap_cons, List.length_append, List.length_cons]
      omega
  have hlength := hdouble _ fun d hd => (hmarks d hd).1
  have hpos := List.length_pos_iff.mpr hnil
  omega

variable [DecidableEq α]

/-- Modes in which a rule skips the tag that it wrote; the others stop before it. -/
structure Passes (S : Scanner α μ) (passes : μ → Prop) : Prop where
  tag : ∀ r ∈ S.rules, passes r.mode → ∀ cs,
    S.skip r.mode (r.tag ++ S.scan (S.skip r.mode cs)) = S.scan (S.skip r.mode cs)
  stops : ∀ r ∈ S.rules, ¬ passes r.mode → ∀ t, S.skip r.mode (r.tag ++ t) = r.tag ++ t

/-- What is written has no pattern, nor any piece of one, that was not there. -/
theorem prefix_of_prefix_scan (hapart : S.Apart) (h : Marked S) {q : Rule α μ} (hq : q ∈ S.rules)
    {w : List α} (hw : ∀ c ∈ w, c ∈ q.pattern) (hpre : w <+: S.scan cs) : w <+: cs := by
  induction cs using scan_induction (S := S) generalizing w with
  | nil => simpa [scan] using hpre
  | rule r hr cs _ =>
    rw [scan_rule hapart hr] at hpre
    rcases List.prefix_or_prefix_of_prefix hpre (List.prefix_append _ _) with hwr | hrw
    · exact hwr.trans (List.prefix_append _ _)
    · obtain ⟨rest, rfl⟩ := hrw
      rw [List.prefix_append_right_inj] at hpre
      cases rest with
      | nil =>
        rw [List.append_nil]
        exact List.prefix_append _ _
      | cons d rest =>
        have hd := hw d (List.mem_append_right _ List.mem_cons_self)
        cases htag : r.tag with
        | nil => exact absurd htag (h.tag_ne r hr)
        | cons e es =>
          rw [htag, List.cons_append, List.cons_prefix_cons] at hpre
          have he : e ∈ r.tag := htag ▸ List.mem_cons_self
          exact absurd (hpre.1 ▸ hd) ((h.tag r hr e he).2 q hq)
  | copy c cs hnot ih =>
    rw [scan_copy hnot] at hpre
    cases w with
    | nil => exact List.nil_prefix
    | cons d w =>
      rcases h.copied c with hcopied | ⟨hne, hmarks⟩
      · rw [hcopied, List.singleton_append, List.cons_prefix_cons] at hpre
        rw [hpre.1, List.cons_prefix_cons]
        exact ⟨rfl, ih (fun c hc => hw c (List.mem_cons_of_mem _ hc)) hpre.2⟩
      · cases hcopied : S.copied c with
        | nil => exact absurd hcopied hne
        | cons e es =>
          rw [hcopied, List.cons_append, List.cons_prefix_cons] at hpre
          have he : e ∈ S.copied c := hcopied ▸ List.mem_cons_self
          exact absurd (hpre.1 ▸ hw d List.mem_cons_self) ((hmarks e he).2 q hq)

/-- No rule begins where none began. -/
theorem not_prefix_cons_scan (hapart : S.Apart) (h : Marked S)
    (hnot : ∀ r ∈ S.rules, ¬ r.pattern <+: c :: cs) :
    ∀ r ∈ S.rules, ¬ r.pattern <+: c :: S.scan cs := by
  intro r hr hpre
  cases hp : r.pattern with
  | nil => exact r.pattern_ne hp
  | cons d ds =>
    rw [hp, List.cons_prefix_cons] at hpre
    have hds := prefix_of_prefix_scan hapart h hr (fun x hx => by
      rw [hp]
      exact List.mem_cons_of_mem d hx) hpre.2
    refine hnot r hr ?_
    rw [hp, List.cons_prefix_cons]
    exact ⟨hpre.1, hds⟩

theorem scan_scan_rule_of_passes (hapart : S.Apart) (hpasses : Passes S passes)
    (hr : r ∈ S.rules) (hmode : passes r.mode) (cs : List α) :
    S.scan (S.scan (r.pattern ++ cs)) =
      r.pattern ++ (r.tag ++ S.scan (S.scan (S.skip r.mode cs))) := by
  rw [scan_rule hapart hr, scan_rule hapart hr, hpasses.tag r hr hmode]

/-- The tag is written again before the one that stands there. -/
theorem scan_scan_rule_of_stops (hapart : S.Apart) (h : Marked S) (hpasses : Passes S passes)
    (hr : r ∈ S.rules) (hmode : ¬ passes r.mode) (cs : List α) :
    S.scan (S.scan (r.pattern ++ cs)) =
      r.pattern ++ (r.tag ++ (r.tag ++ S.scan (S.scan (S.skip r.mode cs)))) := by
  rw [scan_rule hapart hr, scan_rule hapart hr, hpasses.stops r hr hmode, scan_plain_append]
  intro c hc
  obtain ⟨hcopied, hnot⟩ := h.tag r hr c hc
  exact ⟨hcopied, fun q hq => not_head_of_not_mem (hnot q hq)⟩

theorem scan_scan_copy (hapart : S.Apart) (h : Marked S)
    (hnot : ∀ r ∈ S.rules, ¬ r.pattern <+: c :: cs) (hcopied : S.copied c = [c]) :
    S.scan (S.scan (c :: cs)) = c :: S.scan (S.scan cs) := by
  rw [scan_copy hnot, hcopied, List.singleton_append,
    scan_copy (not_prefix_cons_scan hapart h hnot), hcopied, List.singleton_append]

theorem scan_scan_copy_of_ne (h : Marked S) (hnot : ∀ r ∈ S.rules, ¬ r.pattern <+: c :: cs)
    (hne : S.copied c ≠ [c]) :
    S.scan (S.scan (c :: cs)) = (S.copied c).flatMap S.copied ++ S.scan (S.scan cs) := by
  have hmarks := (h.copied c).resolve_left hne
  rw [scan_copy hnot, scan_append_of_no_head]
  exact fun d hd q hq => not_head_of_not_mem ((hmarks.2 d hd).2 q hq)

theorem length_scan_le (hapart : S.Apart) (h : Marked S) (hpasses : Passes S passes)
    (cs : List α) : (S.scan cs).length ≤ (S.scan (S.scan cs)).length := by
  induction cs using scan_induction (S := S) with
  | nil => simp [scan]
  | rule r hr cs ih =>
    by_cases hmode : passes r.mode
    · rw [scan_scan_rule_of_passes hapart hpasses hr hmode, scan_rule hapart hr]
      simp only [List.length_append]
      omega
    · rw [scan_scan_rule_of_stops hapart h hpasses hr hmode, scan_rule hapart hr]
      simp only [List.length_append]
      omega
  | copy c cs hnot ih =>
    by_cases hcopied : S.copied c = [c]
    · rw [scan_scan_copy hapart h hnot hcopied, scan_copy hnot, hcopied]
      exact Nat.succ_le_succ ih
    · have hlt := length_copied_lt h hcopied
      rw [scan_scan_copy_of_ne h hnot hcopied, scan_copy hnot, List.length_append,
        List.length_append]
      omega

theorem scan_scan_of_settled (hapart : S.Apart) (h : Marked S) (hpasses : Passes S passes)
    (hsettled : Settled S passes cs) : S.scan (S.scan cs) = S.scan cs := by
  induction hsettled with
  | nil => simp [scan]
  | rule hr hmode _ ih =>
    rw [scan_scan_rule_of_passes hapart hpasses hr hmode, scan_rule hapart hr, ih]
  | copy hnot hcopied _ ih =>
    rw [scan_scan_copy hapart h hnot hcopied, scan_copy hnot, hcopied, ih]
    rfl

theorem settled_of_scan_scan (hapart : S.Apart) (h : Marked S) (hpasses : Passes S passes)
    (hscan : S.scan (S.scan cs) = S.scan cs) : Settled S passes cs := by
  induction cs using scan_induction (S := S) with
  | nil => exact .nil
  | rule r hr cs ih =>
    by_cases hmode : passes r.mode
    · rw [scan_scan_rule_of_passes hapart hpasses hr hmode, scan_rule hapart hr,
        List.append_cancel_left_eq, List.append_cancel_left_eq] at hscan
      exact .rule hr hmode (ih hscan)
    · -- The tag stands twice after the second scan, so the text has grown.
      rw [scan_scan_rule_of_stops hapart h hpasses hr hmode, scan_rule hapart hr,
        List.append_cancel_left_eq, List.append_cancel_left_eq] at hscan
      have hlength := congrArg List.length hscan
      have hle := length_scan_le hapart h hpasses (S.skip r.mode cs)
      have hpos := List.length_pos_iff.mpr (h.tag_ne r hr)
      rw [List.length_append] at hlength
      omega
  | copy c cs hnot ih =>
    by_cases hcopied : S.copied c = [c]
    · rw [scan_scan_copy hapart h hnot hcopied, scan_copy hnot, hcopied, List.singleton_append,
        List.cons.injEq] at hscan
      exact .copy hnot hcopied (ih hscan.2)
    · rw [scan_scan_copy_of_ne h hnot hcopied, scan_copy hnot] at hscan
      have hlength := congrArg List.length hscan
      have hle := length_scan_le hapart h hpasses cs
      have hlt := length_copied_lt h hcopied
      rw [List.length_append, List.length_append] at hlength
      omega

/-- A second scan changes nothing just in case the text is settled. -/
theorem scan_scan_eq_iff (hapart : S.Apart) (h : Marked S) (hpasses : Passes S passes)
    (cs : List α) : S.scan (S.scan cs) = S.scan cs ↔ Settled S passes cs :=
  ⟨settled_of_scan_scan hapart h hpasses, scan_scan_of_settled hapart h hpasses⟩

/-- In a mode that only its own stop ends, the scan of what is left is not skipped again. -/
theorem skip_scan_skip {m : μ} (hstays : ∀ c m', S.step m c = some m' → m' = m)
    (hcopied : ∀ c, S.step m c = none → S.copied c = [c]) (cs : List α) :
    S.skip m (S.scan (S.skip m cs)) = S.scan (S.skip m cs) := by
  apply skip_eq_self
  intro d hd
  cases hskip : S.skip m cs with
  | nil =>
    rw [hskip, scan] at hd
    cases hd
  | cons c rest =>
    have hhead : (S.skip m cs).head? = some c := by
      rw [hskip]
      rfl
    have hstop : S.step m c = none := step_head?_skip hstays hhead
    rw [hskip, head?_scan (hcopied c hstop)] at hd
    cases hd
    exact hstop

end Twice

end Scanner

end PangeaOperator
