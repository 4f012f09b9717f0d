import Mathlib
import PangeaOperator.Lib.Text
import PangeaOperator.LeafAdmit

/-!
# What one admission keeps and what it leaves out

The leaves that are taken stay within every cap, and whoever is left out would break one. A leaf
that is overtaken was held back by its own scope, its drift reserve or its credential.
-/

namespace PangeaOperator.LeafAdmit

section Counts

variable {f g : InFlight} {c : Candidate} {cs : List Candidate}

def InFlight.addAll (f : InFlight) (cs : List Candidate) : InFlight := cs.foldl InFlight.add f

@[simp] theorem InFlight.add_total : (f.add c).total = f.total + 1 := rfl

@[simp] theorem InFlight.add_byScope (s : String) :
    (f.add c).byScope s = f.byScope s + if c.scope = s then 1 else 0 := by
  change setCount f.byScope c.scope (f.byScope c.scope + 1) s = _
  unfold setCount
  by_cases hs : s = c.scope
  · simp [hs]
  · simp [hs, Ne.symm hs]

@[simp] theorem InFlight.add_driftByScope (s : String) : (f.add c).driftByScope s =
    f.driftByScope s + if c.workClass = .drift ∧ c.scope = s then 1 else 0 := by
  by_cases hd : c.workClass = .drift
  · simp only [add, hd, if_true, setCount, true_and]
    by_cases hs : s = c.scope
    · simp [hs]
    · simp [hs, Ne.symm hs]
  · simp [add, hd]

@[simp] theorem InFlight.add_byCredential (cred : String) : (f.add c).byCredential cred =
    f.byCredential cred + if c.credential = some cred then 1 else 0 := by
  cases hc : c.credential with
  | none => simp [add, hc]
  | some own =>
    simp only [add, hc, setCount, Option.some.injEq]
    by_cases hs : cred = own
    · simp [hs]
    · simp [hs, Ne.symm hs]

/-- Counts do not depend on the order of the leaves. -/
theorem InFlight.addAll_eq (f : InFlight) (cs : List Candidate) : f.addAll cs =
    ⟨f.total + cs.length, fun s => f.byScope s + cs.countP (·.scope = s),
      fun s => f.driftByScope s + cs.countP (fun c => c.workClass = .drift ∧ c.scope = s),
      fun cred => f.byCredential cred + cs.countP (·.credential = some cred)⟩ := by
  unfold addAll
  induction cs generalizing f with
  | nil => simp
  | cons c cs ih =>
    rw [List.foldl_cons, ih]
    simp only [add_total, add_byScope, add_driftByScope, add_byCredential, List.length_cons,
      List.countP_cons, decide_eq_true_eq, InFlight.mk.injEq]
    refine ⟨by omega, ?_, ?_, ?_⟩ <;> funext s <;> omega

theorem InFlight.addAll_perm {ds : List Candidate} (h : cs.Perm ds) (f : InFlight) :
    f.addAll cs = f.addAll ds := by
  rw [addAll_eq, addAll_eq, h.length_eq]
  simp only [h.countP_eq]

theorem InFlight.le_addAll (f : InFlight) (cs : List Candidate) : f.Le (f.addAll cs) := by
  rw [addAll_eq]
  exact ⟨Nat.le_add_right _ _, fun s => Nat.le_add_right _ _, fun s => Nat.le_add_right _ _,
    fun s => Nat.le_add_right _ _⟩

end Counts

section Loop

variable {caps : Caps} {f g h : InFlight} {c : Candidate} {cs ds : List Candidate}

/-- The candidates whose names a loop gives. -/
def takeLoop (caps : Caps) : List Candidate → InFlight → List Candidate
  | [], _ => []
  | c :: cs, f =>
    if caps.global ≤ f.total then []
    else if Fits caps f c then c :: takeLoop caps cs (f.add c)
    else takeLoop caps cs f

theorem admitLoop_eq (caps : Caps) (cs : List Candidate) (f : InFlight) :
    admitLoop caps cs f = (takeLoop caps cs f).map Candidate.name := by
  induction cs generalizing f with
  | nil => rfl
  | cons c cs ih =>
    rw [admitLoop, takeLoop]
    split
    · rfl
    · split
      · rw [List.map_cons, ih]
      · exact ih f

theorem takeLoop_sublist (caps : Caps) (cs : List Candidate) (f : InFlight) :
    (takeLoop caps cs f).Sublist cs := by
  induction cs generalizing f with
  | nil => exact .refl _
  | cons c cs ih =>
    rw [takeLoop]
    split
    · exact List.nil_sublist _
    · split
      · exact (ih _).cons_cons c
      · exact (ih f).cons c

theorem takeLoop_full (hfull : caps.global ≤ f.total) : takeLoop caps cs f = [] := by
  cases cs with
  | nil => rfl
  | cons c cs => rw [takeLoop, if_pos hfull]

/-- The counts when a number of candidates were considered. -/
def countsAfter (caps : Caps) (cs : List Candidate) (f : InFlight) : InFlight :=
  f.addAll (takeLoop caps cs f)

theorem takeLoop_append : takeLoop caps (cs ++ ds) f =
    takeLoop caps cs f ++ takeLoop caps ds (countsAfter caps cs f) := by
  induction cs generalizing f with
  | nil => rfl
  | cons c cs ih =>
    rw [List.cons_append, countsAfter, takeLoop, takeLoop]
    split
    · next hfull => exact (takeLoop_full hfull).symm
    · split
      · rw [ih, List.cons_append]
        rfl
      · exact ih

/-- The counts `g` are within every cap, where `f` was. -/
structure WithinCaps (caps : Caps) (f g : InFlight) : Prop where
  total : g.total ≤ max f.total caps.global
  byScope : ∀ s, g.byScope s ≤ max (f.byScope s) (caps.scopeCap s)
  driftByScope : 0 < caps.driftSharePermille → ∀ s, g.driftByScope s ≤
    max (f.driftByScope s) (driftSlots (caps.scopeCap s) caps.driftSharePermille)
  byCredential : 0 < caps.perCredential →
    ∀ cred, g.byCredential cred ≤ max (f.byCredential cred) caps.perCredential

theorem WithinCaps.refl (caps : Caps) (f : InFlight) : WithinCaps caps f f :=
  ⟨le_max_left _ _, fun _ => le_max_left _ _, fun _ _ => le_max_left _ _,
    fun _ _ => le_max_left _ _⟩

theorem WithinCaps.trans (hfg : WithinCaps caps f g) (hgh : WithinCaps caps g h) :
    WithinCaps caps f h where
  total := hgh.total.trans (max_le hfg.total (le_max_right _ _))
  byScope s := (hgh.byScope s).trans (max_le (hfg.byScope s) (le_max_right _ _))
  driftByScope hs s :=
    (hgh.driftByScope hs s).trans (max_le (hfg.driftByScope hs s) (le_max_right _ _))
  byCredential hp cred :=
    (hgh.byCredential hp cred).trans (max_le (hfg.byCredential hp cred) (le_max_right _ _))

theorem withinCaps_add (htotal : f.total < caps.global) (hfits : Fits caps f c) :
    WithinCaps caps f (f.add c) := by
  obtain ⟨hscope, hdrift, hcred⟩ := hfits
  refine ⟨?_, fun s => ?_, fun hshare s => ?_, fun hp cred => ?_⟩
  · rw [InFlight.add_total]
    omega
  · rw [InFlight.add_byScope]
    split
    · next hs => subst hs; omega
    · omega
  · rw [InFlight.add_driftByScope]
    split
    · next hs =>
      obtain ⟨hd, rfl⟩ := hs
      have hroom := hdrift hd hshare
      omega
    · omega
  · rw [InFlight.add_byCredential]
    split
    · next hs =>
      have hroom := hcred cred hs hp
      omega
    · omega

theorem withinCaps_takeLoop (caps : Caps) (cs : List Candidate) (f : InFlight) :
    WithinCaps caps f (countsAfter caps cs f) := by
  induction cs generalizing f with
  | nil => exact WithinCaps.refl caps f
  | cons c cs ih =>
    rw [countsAfter, takeLoop]
    split
    · exact WithinCaps.refl caps f
    · next htotal =>
      split
      · next hfits => exact (withinCaps_add (by omega) hfits).trans (ih _)
      · exact ih f

/-- The own scope of a leaf, its drift reserve or its credential has no room for it. -/
def Reached (caps : Caps) (f : InFlight) (c : Candidate) : Prop :=
  caps.scopeCap c.scope ≤ f.byScope c.scope ∨
    (c.workClass = .drift ∧ 0 < caps.driftSharePermille ∧
      driftSlots (caps.scopeCap c.scope) caps.driftSharePermille ≤ f.driftByScope c.scope) ∨
    ∃ cred ∈ c.credential, 0 < caps.perCredential ∧ caps.perCredential ≤ f.byCredential cred

theorem reached_iff : Reached caps f c ↔ ¬ Fits caps f c := by
  unfold Reached Fits
  rw [not_and_or, not_and_or, not_lt]
  refine or_congr_right (or_congr ?_ ?_)
  · simp only [Classical.not_imp, not_lt]
  · simp only [not_forall, not_lt, exists_prop]

theorem Reached.mono (hle : f.Le g) (h : Reached caps f c) : Reached caps g c := by
  rw [reached_iff] at h ⊢
  exact fun hfits => h (hfits.of_le hle)

/-- Whoever is not taken finds a limit reached in the end. -/
theorem reached_of_not_mem (hc : c ∈ cs) (hout : c ∉ takeLoop caps cs f) :
    caps.global ≤ (countsAfter caps cs f).total ∨ Reached caps (countsAfter caps cs f) c := by
  induction cs generalizing f with
  | nil => cases hc
  | cons d cs ih =>
    rw [countsAfter]
    rw [takeLoop] at hout ⊢
    split at hout
    · next hfull => rw [if_pos hfull]; exact .inl hfull
    · next hroom =>
      rw [if_neg hroom]
      split at hout
      · next hfits =>
        rw [if_pos hfits]
        rw [List.mem_cons, not_or] at hout
        exact ih ((List.mem_cons.mp hc).resolve_left hout.1) hout.2
      · next hfits =>
        rw [if_neg hfits]
        rcases List.mem_cons.mp hc with rfl | hc
        · exact .inr ((reached_iff.mpr hfits).mono (f.le_addAll _))
        · exact ih hc hout

end Loop

section Order

variable {mode : PriorityMode} {a b : Candidate} {candidates candidates' : List Candidate}

/-- The order of a mode as one key. -/
def orderKey : PriorityMode → Candidate → Nat ×ₗ Nat ×ₗ Nat ×ₗ String
  | .on, c => toLex (c.workClass.rank, toLex (age c, toLex (c.depth, c.name)))
  | .off, c => toLex (0, toLex (0, toLex (c.since, c.name)))

theorem precedes_iff : Precedes mode a b ↔ orderKey mode a ≤ orderKey mode b := by
  cases mode <;> simp [Precedes, orderKey, Prod.Lex.toLex_le_toLex]

theorem name_eq_of_orderKey (h : orderKey mode a = orderKey mode b) : a.name = b.name := by
  cases mode <;> simp_all [orderKey]

instance (mode : PriorityMode) : Std.Total (Precedes mode) :=
  ⟨fun a b => by rw [precedes_iff, precedes_iff]; exact le_total _ _⟩

instance (mode : PriorityMode) : IsTrans Candidate (Precedes mode) :=
  ⟨fun a b c => by rw [precedes_iff, precedes_iff, precedes_iff]; exact le_trans⟩

theorem order_sorted (candidates : List Candidate) (mode : PriorityMode) :
    (order candidates mode).Pairwise (Precedes mode) := List.pairwise_insertionSort _ _

/-- Candidates with names of their own have one order. -/
theorem order_congr (hnames : (candidates.map Candidate.name).Nodup)
    (h : candidates'.Perm candidates) (mode : PriorityMode) :
    order candidates' mode = order candidates mode := by
  have hperm := (order_perm candidates' mode).trans (h.trans (order_perm candidates mode).symm)
  refine List.Perm.eq_of_pairwise (fun a b ha hb hab hba => ?_) (order_sorted _ _)
    (order_sorted _ _) hperm
  have ha' := h.mem_iff.mp ((order_perm candidates' mode).mem_iff.mp ha)
  have hb' := (order_perm candidates mode).mem_iff.mp hb
  rw [precedes_iff] at hab hba
  exact List.inj_on_of_nodup_map hnames ha' hb' (name_eq_of_orderKey (le_antisymm hab hba))

end Order

section Admission

variable {candidates : List Candidate} {caps : Caps} {f : InFlight}

/-- The candidates an admission chooses. -/
def chosen (candidates : List Candidate) (caps : Caps) (f : InFlight) : List Candidate :=
  candidates.filter (·.name ∈ admitLeaves candidates caps f)

theorem mem_admitLeaves_iff (hnames : (candidates.map Candidate.name).Nodup) {c : Candidate}
    (hc : c ∈ candidates) : c.name ∈ admitLeaves candidates caps f ↔
      c ∈ takeLoop caps (order candidates caps.priority) f := by
  rw [admitLeaves, admitLoop_eq, List.mem_map]
  constructor
  · rintro ⟨d, hd, hname⟩
    have hd' := (order_perm _ _).mem_iff.mp ((takeLoop_sublist _ _ _).subset hd)
    rwa [← List.inj_on_of_nodup_map hnames hd' hc hname]
  · exact fun hmem => ⟨c, hmem, rfl⟩

theorem chosen_perm (hnames : (candidates.map Candidate.name).Nodup) :
    (chosen candidates caps f).Perm (takeLoop caps (order candidates caps.priority) f) := by
  have hnodup := List.Nodup.of_map _ hnames
  have horder := (order_perm candidates caps.priority).nodup_iff.mpr hnodup
  refine (List.perm_ext_iff_of_nodup (hnodup.filter _)
    ((takeLoop_sublist _ _ _).nodup horder)).mpr fun c => ?_
  simp only [List.mem_filter, decide_eq_true_eq]
  constructor
  · rintro ⟨hc, hmem⟩
    exact (mem_admitLeaves_iff hnames hc).mp hmem
  · intro hmem
    have hc := (order_perm _ _).mem_iff.mp ((takeLoop_sublist _ _ _).subset hmem)
    exact ⟨hc, (mem_admitLeaves_iff hnames hc).mpr hmem⟩

theorem addAll_chosen (hnames : (candidates.map Candidate.name).Nodup) :
    f.addAll (chosen candidates caps f) =
      countsAfter caps (order candidates caps.priority) f :=
  InFlight.addAll_perm (chosen_perm hnames) f

/-- An admission keeps every cap, leaves out only those who would break one, and does not depend on
the order in which the candidates are listed. -/
theorem admission_is_greedy_within_caps (candidates : List Candidate) (caps : Caps) (f : InFlight)
    (hnames : (candidates.map Candidate.name).Nodup) :
    WithinCaps caps f (f.addAll (chosen candidates caps f)) ∧
    (∀ c ∈ candidates, c.name ∉ admitLeaves candidates caps f →
      caps.global ≤ (f.addAll (chosen candidates caps f)).total ∨
        Reached caps (f.addAll (chosen candidates caps f)) c) ∧
    ∀ candidates', candidates'.Perm candidates →
      admitLeaves candidates' caps f = admitLeaves candidates caps f := by
  rw [addAll_chosen hnames]
  refine ⟨withinCaps_takeLoop _ _ _, fun c hc hout => ?_, fun candidates' hperm => ?_⟩
  · rw [mem_admitLeaves_iff hnames hc] at hout
    exact reached_of_not_mem ((order_perm _ _).mem_iff.mpr hc) hout
  · rw [admitLeaves, order_congr hnames hperm]
    rfl

/-- Two leaves share a scope of two slots with a third that waits behind them. -/
def twoSlots : Caps := ⟨8, 2, fun _ => none, 0, 500, .on⟩

theorem third_is_left_out :
    let names := [⟨"a", "s", none, .change, 0, 0⟩, ⟨"b", "s", none, .apply, 0, 0⟩,
      ⟨"c", "s", none, .retry, 0, 0⟩]
    WithinCaps twoSlots .default (InFlight.default.addAll (chosen names twoSlots .default)) ∧
    (∀ c ∈ names, c.name ∉ admitLeaves names twoSlots .default →
      twoSlots.global ≤ (InFlight.default.addAll (chosen names twoSlots .default)).total ∨
        Reached twoSlots (InFlight.default.addAll (chosen names twoSlots .default)) c) ∧
    ∀ names', names'.Perm names →
      admitLeaves names' twoSlots .default = admitLeaves names twoSlots .default :=
  admission_is_greedy_within_caps _ twoSlots .default (by decide)

end Admission

section Overtaking

variable {candidates : List Candidate} {caps : Caps} {f : InFlight} {a b : Candidate}

/-- The counts at the moment a candidate is considered. -/
def atTurn (candidates : List Candidate) (caps : Caps) (f : InFlight) (a : Candidate) : InFlight :=
  countsAfter caps ((order candidates caps.priority).takeWhile (·.name ≠ a.name)) f

theorem order_split (caps : Caps) (hnames : (candidates.map Candidate.name).Nodup)
    (ha : a ∈ candidates) : ∃ post, order candidates caps.priority =
      (order candidates caps.priority).takeWhile (·.name ≠ a.name) ++ a :: post := by
  have hperm := order_perm candidates caps.priority
  have horder : ((order candidates caps.priority).map Candidate.name).Nodup :=
    (hperm.map Candidate.name).nodup_iff.mpr hnames
  obtain ⟨pre, post, hsplit⟩ := List.append_of_mem (hperm.mem_iff.mpr ha)
  have hpre : ∀ c ∈ pre, decide (c.name ≠ a.name) = true := by
    intro c hc
    rw [hsplit, List.map_append, List.map_cons, List.nodup_append] at horder
    exact decide_eq_true
      (horder.2.2 c.name (List.mem_map_of_mem hc) a.name List.mem_cons_self)
  have hrun : (order candidates caps.priority).takeWhile (·.name ≠ a.name) = pre := by
    rw [hsplit]
    exact takeWhile_run hpre (by simp)
  exact ⟨post, by rw [hrun, hsplit]⟩

/-- Whoever is overtaken is held back by limits of its own. -/
theorem reached_atTurn (hnames : (candidates.map Candidate.name).Nodup) (ha : a ∈ candidates)
    (hb : b ∈ candidates) (hab : Precedes caps.priority a b)
    (hin : b.name ∈ admitLeaves candidates caps f)
    (hout : a.name ∉ admitLeaves candidates caps f) :
    Reached caps (atTurn candidates caps f a) a := by
  have hne : b ≠ a := fun h => hout (h ▸ hin)
  rw [mem_admitLeaves_iff hnames ha] at hout
  rw [mem_admitLeaves_iff hnames hb] at hin
  obtain ⟨post, hsplit⟩ := order_split caps hnames ha
  have hnodup := (order_perm candidates caps.priority).nodup_iff.mpr (List.Nodup.of_map _ hnames)
  have hsorted := order_sorted candidates caps.priority
  have hbefore : b ∉ (order candidates caps.priority).takeWhile (·.name ≠ a.name) := by
    intro hmem
    rw [hsplit, List.pairwise_append] at hsorted
    have hba := hsorted.2.2 b hmem a List.mem_cons_self
    rw [precedes_iff] at hab hba
    exact hne (List.inj_on_of_nodup_map hnames hb ha
      (name_eq_of_orderKey (le_antisymm hba hab)))
  rw [hsplit, takeLoop_append, List.mem_append] at hin hout
  rw [not_or] at hout
  have hlate := hin.resolve_left fun hmem => hbefore ((takeLoop_sublist _ _ _).subset hmem)
  rw [reached_iff]
  intro hfits
  change Fits caps (countsAfter caps _ f) a at hfits
  rw [takeLoop] at hlate hout
  split at hlate
  · cases hlate
  · next hroom =>
    rw [if_neg hroom, if_pos hfits] at hout
    exact hout.2 List.mem_cons_self

/-- Every drift in flight was admitted under these caps, while other leaves come and go. -/
inductive DriftUnder (caps : Caps) : InFlight → Prop
  | idle {f : InFlight} : (∀ s, f.driftByScope s = 0) → DriftUnder caps f
  | admitted {f : InFlight} {candidates : List Candidate} :
    DriftUnder caps f → (candidates.map Candidate.name).Nodup →
      DriftUnder caps (f.addAll (chosen candidates caps f))
  | released {f g : InFlight} : DriftUnder caps f →
    (∀ s, g.driftByScope s ≤ f.driftByScope s) → DriftUnder caps g

theorem DriftUnder.le_driftSlots (h : DriftUnder caps f) (hshare : 0 < caps.driftSharePermille)
    (s : String) :
    f.driftByScope s ≤ driftSlots (caps.scopeCap s) caps.driftSharePermille := by
  induction h with
  | idle hidle =>
    rw [hidle]
    exact Nat.zero_le _
  | admitted _ hnames ih =>
    rw [addAll_chosen hnames]
    exact ((withinCaps_takeLoop _ _ _).driftByScope hshare s).trans (max_le ih (le_refl _))
  | released _ hle ih => exact (hle s).trans ih

/-- A reserve leaves a slot of every scope that has more than one. -/
theorem driftSlots_lt {scopeCap : Nat} (h : 2 ≤ scopeCap) (share : Nat) :
    driftSlots scopeCap share < scopeCap := by
  unfold driftSlots
  split
  · omega
  · omega

/-- A leaf is overtaken only where its own scope, its drift reserve or its credential was full, and
where a share is reserved drift alone never fills a scope of two slots or more. -/
theorem overtaking_is_justified (candidates : List Candidate) (caps : Caps) (f : InFlight)
    (hnames : (candidates.map Candidate.name).Nodup) (hon : caps.priority = .on) :
    (∀ a ∈ candidates, ∀ b ∈ candidates, Precedes .on a b →
      b.name ∈ admitLeaves candidates caps f → a.name ∉ admitLeaves candidates caps f →
        Reached caps (atTurn candidates caps f a) a) ∧
    (0 < caps.driftSharePermille → DriftUnder caps f →
      ∀ a ∈ candidates, a.workClass ≠ .drift → 2 ≤ caps.scopeCap a.scope →
        (atTurn candidates caps f a).driftByScope a.scope < caps.scopeCap a.scope) := by
  constructor
  · intro a ha b hb hab hin hout
    exact reached_atTurn hnames ha hb (hon ▸ hab) hin hout
  · intro hshare hunder a _ _ hcap
    have hslots := hunder.le_driftSlots hshare a.scope
    have hwithin := (withinCaps_takeLoop caps
      ((order candidates caps.priority).takeWhile (·.name ≠ a.name)) f).driftByScope hshare a.scope
    exact (hwithin.trans (max_le hslots (le_refl _))).trans_lt (driftSlots_lt hcap _)

theorem retry_is_overtaken_justly :
    let leaves := [⟨"a", "s", none, .change, 0, 0⟩, ⟨"b", "s", none, .apply, 0, 0⟩,
      ⟨"c", "s", none, .retry, 0, 0⟩, ⟨"d", "t", none, .drift, 0, 7⟩]
    (∀ a ∈ leaves, ∀ b ∈ leaves, Precedes .on a b →
      b.name ∈ admitLeaves leaves twoSlots .default →
        a.name ∉ admitLeaves leaves twoSlots .default →
          Reached twoSlots (atTurn leaves twoSlots .default a) a) ∧
    (0 < twoSlots.driftSharePermille → DriftUnder twoSlots .default →
      ∀ a ∈ leaves, a.workClass ≠ .drift → 2 ≤ twoSlots.scopeCap a.scope →
        (atTurn leaves twoSlots .default a).driftByScope a.scope < twoSlots.scopeCap a.scope) :=
  overtaking_is_justified _ twoSlots .default (by decide) rfl

/-- Two slots a scope and no reserve. -/
def noReserve : Caps := { twoSlots with driftSharePermille := 0 }

def twoDrift : List Candidate := [⟨"d", "s", none, .drift, 0, 1⟩, ⟨"e", "s", none, .drift, 0, 2⟩]

def driftRunning : InFlight := InFlight.default.addAll (chosen twoDrift noReserve .default)

def changeInScope : Candidate := ⟨"a", "s", none, .change, 0, 0⟩

def changeElsewhere : Candidate := ⟨"b", "t", none, .change, 0, 0⟩

/-- A share of zero reserves nothing: drift holds both slots, and a change is left out. -/
theorem drift_alone_fills_a_scope :
    ∃ (leaves : List Candidate) (caps : Caps) (f : InFlight) (a b : Candidate),
      (leaves.map Candidate.name).Nodup ∧ caps.priority = .on ∧ DriftUnder caps f ∧
      a ∈ leaves ∧ b ∈ leaves ∧ Precedes .on a b ∧ b.name ∈ admitLeaves leaves caps f ∧
      a.name ∉ admitLeaves leaves caps f ∧ a.workClass ≠ .drift ∧ 2 ≤ caps.scopeCap a.scope ∧
      (atTurn leaves caps f a).byScope a.scope = caps.scopeCap a.scope ∧
      (atTurn leaves caps f a).driftByScope a.scope = caps.scopeCap a.scope ∧
      (atTurn leaves caps f a).total < caps.global := by
  refine ⟨[changeInScope, changeElsewhere], noReserve, driftRunning, changeInScope,
    changeElsewhere, by decide, rfl, .admitted (.idle fun _ => rfl) (by decide), ?_⟩
  decide +kernel

end Overtaking

end PangeaOperator.LeafAdmit
