import Mathlib
import PangeaOperator.LeafRollup
import PangeaOperator.Lib.Run
import PangeaOperator.Lib.SortedMap

/-!
# Leaves that become held

`rollup.rs`. An event is sent when a leaf is held that was not, or not in this way. What was held
is remembered from one step to the next, and after a restart it is read back from the rollup.
-/

namespace PangeaOperator.LeafRollup

inductive Held where
  | failed
  | stalled
  deriving DecidableEq, Repr

structure Transition where
  leaf : String
  held : Held
  detail : String
  deriving DecidableEq, Repr

def heldOf : LeafState → Option (Held × String)
  | .failed reason _ => some (.failed, reason)
  | .stalled state _ => some (.stalled, state)
  | .ready | .planning | .applying | .rateLimited _ => none

def heldEntry (leaf : LeafView) : Option (String × Held) :=
  (heldOf leaf.state).map fun h => (leaf.name, h.1)

def held (leaves : List LeafView) : SortedMap String Held :=
  SortedMap.ofList (leaves.filterMap heldEntry)

def seed (rollup : LeavesRollup) : SortedMap String Held :=
  SortedMap.ofList (rollup.failed.map (fun f => (f.leaf, .failed)) ++
    rollup.stalled.map fun s => (s.leaf, .stalled))

def transitionOf (prev : SortedMap String Held) (leaf : LeafView) : Option Transition :=
  match heldOf leaf.state with
  | none => none
  | some (h, detail) => if prev.get? leaf.name = some h then none else some ⟨leaf.name, h, detail⟩

def transitions (prev : SortedMap String Held) (leaves : List LeafView) : List Transition :=
  (leaves.filterMap (transitionOf prev)).insertionSort (fun a b => a.leaf ≤ b.leaf)

/-- How a leaf is held, if it is. -/
def kindOf (leaves : List LeafView) (name : String) : Option Held :=
  (leaves.find? (·.name = name)).bind fun leaf => (heldOf leaf.state).map Prod.fst

/-- The leaves of one step, and the cap of the rollup when a restart comes after it. -/
structure Step where
  views : List LeafView
  restart : Option Nat

/-- The remembered map after a step. -/
def remember (s : Step) : SortedMap String Held :=
  match s.restart with
  | none => held s.views
  | some cap => seed (judge s.views cap)

structure Watched where
  remembered : SortedMap String Held
  last : List LeafView

def Watched.start : Watched := ⟨SortedMap.empty, []⟩

def watch (_ : Watched) (s : Step) : Watched := ⟨remember s, s.views⟩

/-- The leaves have names of their own, and a rollup that is read back names all that are held. -/
structure StepOk (s : Step) : Prop where
  distinct : (s.views.map LeafView.name).Nodup
  fits : ∀ cap ∈ s.restart, ∀ h,
    s.views.countP (fun leaf => (heldOf leaf.state).map Prod.fst = some h) ≤ cap

/-- A leaf has one event when it becomes held in some way, and else none. -/
structure EmitsOnEntry (before now : List LeafView) (events : List Transition) : Prop where
  one : ∀ name h, kindOf now name = some h → kindOf before name ≠ some h →
    ∃ detail, events.filter (·.leaf = name) = [⟨name, h, detail⟩]
  quiet : ∀ name, kindOf now name = none ∨ kindOf before name = kindOf now name →
    events.filter (·.leaf = name) = []

section Kinds

variable {leaves : List LeafView} {name : String} {leaf : LeafView}

theorem kindOf_eq_some_iff (hn : (leaves.map LeafView.name).Nodup) {h : Held} :
    kindOf leaves name = some h ↔ (name, h) ∈ leaves.filterMap heldEntry := by
  rw [List.mem_filterMap, kindOf, Option.bind_eq_some_iff]
  constructor
  · rintro ⟨leaf, hfind, hkind⟩
    obtain ⟨k, hk, rfl⟩ := Option.map_eq_some_iff.mp hkind
    have hname : leaf.name = name := by simpa using List.find?_some hfind
    exact ⟨leaf, List.mem_of_find?_eq_some hfind, by rw [heldEntry, hk, ← hname]; rfl⟩
  · rintro ⟨leaf, hleaf, hentry⟩
    obtain ⟨k, hk, heq⟩ := Option.map_eq_some_iff.mp hentry
    obtain ⟨rfl, rfl⟩ := Prod.mk.inj heq
    exact ⟨leaf, find?_key hn hleaf, by rw [hk]; rfl⟩

theorem keys_heldEntry_nodup (hn : (leaves.map LeafView.name).Nodup) :
    ((leaves.filterMap heldEntry).map Prod.fst).Nodup := by
  refine hn.sublist ?_
  clear hn
  induction leaves with
  | nil => exact List.Sublist.refl _
  | cons leaf leaves ih =>
    rw [List.filterMap_cons, List.map_cons, heldEntry]
    cases heldOf leaf.state with
    | none => exact ih.cons _
    | some h => exact ih.cons_cons _

theorem get?_held (hn : (leaves.map LeafView.name).Nodup) :
    (held leaves).get? name = kindOf leaves name := by
  ext h
  rw [held, SortedMap.get?_ofList_iff (keys_heldEntry_nodup hn), kindOf_eq_some_iff hn]

end Kinds

section Seed

variable {leaves : List LeafView} {cap : Nat}

def failedView (leaf : LeafView) : Option FailedLeaf :=
  match leaf.state with
  | .failed reason since => some ⟨leaf.name, reason, since⟩
  | _ => none

def stalledView (leaf : LeafView) : Option StalledLeaf :=
  match leaf.state with
  | .stalled state since => some ⟨leaf.name, state, since⟩
  | _ => none

/-- What a turn lists of a leaf that nothing holds back. -/
def unlessHeld {β : Type} (view : LeafView → Option β) (d : LeafView × Finset String) : Option β :=
  if d.2.Nonempty then none else view d.1

theorem tally_failed (cap : Nat) :
    ListsTurn cap LeavesRollup.failed (unlessHeld failedView) := by
  intro acc d
  unfold tally unlessHeld failedView
  dsimp only
  split
  · split <;> rfl
  · cases d.1.state <;> dsimp only <;> split <;> rfl

theorem tally_stalled (cap : Nat) :
    ListsTurn cap LeavesRollup.stalled (unlessHeld stalledView) := by
  intro acc d
  unfold tally unlessHeld stalledView
  dsimp only
  split
  · split <;> rfl
  · cases d.1.state <;> dsimp only <;> split <;> rfl

/-- A leaf that holds is not asked whom it waits for, so it is listed as what it is. -/
theorem decisions_filterMap {β : Type} {view : LeafView → Option β}
    (hview : ∀ leaf, holding leaf.state = false → view leaf = none) (memo : Memo)
    (rest : List LeafView) :
    (decisions leaves memo rest).filterMap (unlessHeld view) = rest.filterMap view := by
  induction rest generalizing memo with
  | nil => rfl
  | cons leaf rest ih =>
    have hturn : unlessHeld view (leaf, (heldBy leaves memo leaf).1) = view leaf := by
      rw [unlessHeld]
      cases hholding : holding leaf.state with
      | true => rw [heldBy, if_pos hholding, if_neg Finset.not_nonempty_empty]
      | false => rw [hview leaf hholding, ite_self]
    rw [decisions, List.filterMap_cons, List.filterMap_cons, hturn, ih]

theorem sorted_perm (leaves : List LeafView) : (sorted leaves).Perm leaves :=
  List.perm_insertionSort _ leaves

/-- With room for all of a kind, all are listed. -/
theorem take_decisions {β : Type} {view : LeafView → Option β}
    (hview : ∀ leaf, holding leaf.state = false → view leaf = none)
    (h : (leaves.filterMap view).length ≤ cap) :
    ((decisions leaves [] (sorted leaves)).filterMap (unlessHeld view)).take cap =
      (sorted leaves).filterMap view := by
  rw [decisions_filterMap hview, List.take_of_length_le]
  rwa [((sorted_perm leaves).filterMap view).length_eq]

theorem failedView_of_not_holding (leaf : LeafView) (h : holding leaf.state = false) :
    failedView leaf = none := by
  unfold failedView
  cases hstate : leaf.state <;> simp_all [holding]

theorem stalledView_of_not_holding (leaf : LeafView) (h : holding leaf.state = false) :
    stalledView leaf = none := by
  unfold stalledView
  cases hstate : leaf.state <;> simp_all [holding]

theorem judge_failed (h : (leaves.filterMap failedView).length ≤ cap) :
    (judge leaves cap).failed = (sorted leaves).filterMap failedView :=
  (judge_listed (tally_failed cap) (fun _ => rfl) leaves).trans
    (take_decisions failedView_of_not_holding h)

theorem judge_stalled (h : (leaves.filterMap stalledView).length ≤ cap) :
    (judge leaves cap).stalled = (sorted leaves).filterMap stalledView :=
  (judge_listed (tally_stalled cap) (fun _ => rfl) leaves).trans
    (take_decisions stalledView_of_not_holding h)

/-- The two lists of the rollup name the held leaves. -/
theorem seed_entries_perm (leaves : List LeafView) :
    ((leaves.filterMap failedView).map (fun f => (f.leaf, Held.failed)) ++
      (leaves.filterMap stalledView).map fun s => (s.leaf, Held.stalled)).Perm
    (leaves.filterMap heldEntry) := by
  induction leaves with
  | nil => exact .refl _
  | cons leaf leaves ih =>
    rw [List.filterMap_cons, List.filterMap_cons, List.filterMap_cons, failedView, stalledView,
      heldEntry]
    cases leaf.state with
    | ready => exact ih
    | planning => exact ih
    | applying => exact ih
    | rateLimited untilTime => exact ih
    | failed reason since => exact ih.cons _
    | stalled state since => exact List.perm_middle.trans (ih.cons _)

theorem length_failedView : (leaves.filterMap failedView).length =
    leaves.countP fun leaf => (heldOf leaf.state).map Prod.fst = some .failed := by
  rw [List.length_filterMap_eq_countP]
  congr 1
  funext leaf
  unfold failedView
  cases leaf.state <;> rfl

theorem length_stalledView : (leaves.filterMap stalledView).length =
    leaves.countP fun leaf => (heldOf leaf.state).map Prod.fst = some .stalled := by
  rw [List.length_filterMap_eq_countP]
  congr 1
  funext leaf
  unfold stalledView
  cases leaf.state <;> rfl

theorem get?_seed (hn : (leaves.map LeafView.name).Nodup)
    (hfits : ∀ h, leaves.countP (fun leaf => (heldOf leaf.state).map Prod.fst = some h) ≤ cap)
    {name : String} : (seed (judge leaves cap)).get? name = kindOf leaves name := by
  have hperm := (seed_entries_perm (sorted leaves)).trans
    ((sorted_perm leaves).filterMap heldEntry)
  have hkeys := (hperm.map Prod.fst).nodup_iff.mpr (keys_heldEntry_nodup hn)
  ext h
  rw [seed, judge_failed (length_failedView.trans_le (hfits .failed)),
    judge_stalled (length_stalledView.trans_le (hfits .stalled)),
    SortedMap.get?_ofList_iff hkeys, kindOf_eq_some_iff hn]
  exact hperm.mem_iff

/-- With or without a restart, what is remembered is what was held. -/
theorem get?_remember {s : Step} (hs : StepOk s) (name : String) :
    (remember s).get? name = kindOf s.views name := by
  rw [remember]
  cases hrestart : s.restart with
  | none => exact get?_held hs.distinct
  | some cap => exact get?_seed hs.distinct (hs.fits cap hrestart)

end Seed

section Events

variable {leaves before : List LeafView} {prev : SortedMap String Held}

theorem transitionOf_leaf {leaf : LeafView} {t : Transition} (h : transitionOf prev leaf = some t) :
    t.leaf = leaf.name := by
  unfold transitionOf at h
  split at h
  · cases h
  · split at h <;> cases h
    rfl

theorem filterMap_transitionOf_filter (name : String) :
    (leaves.filterMap (transitionOf prev)).filter (·.leaf = name) =
      (leaves.filter (·.name = name)).filterMap (transitionOf prev) := by
  rw [List.filter_filterMap, List.filterMap_filter]
  congr 1
  funext leaf
  cases h : transitionOf prev leaf with
  | none => simp
  | some t => simp [transitionOf_leaf h, Option.filter]

/-- The events of a leaf are those of its one view. -/
theorem transitions_filter (hn : (leaves.map LeafView.name).Nodup) (name : String) :
    (transitions prev leaves).filter (·.leaf = name) =
      ((leaves.find? (·.name = name)).bind (transitionOf prev)).toList := by
  have hperm := (List.perm_insertionSort (fun a b : Transition => a.leaf ≤ b.leaf)
    (leaves.filterMap (transitionOf prev))).filter (·.leaf = name)
  rw [filterMap_transitionOf_filter, filter_key hn] at hperm
  have hone : ((leaves.find? (·.name = name)).toList).filterMap (transitionOf prev) =
      ((leaves.find? (·.name = name)).bind (transitionOf prev)).toList := by
    cases leaves.find? (·.name = name) with
    | none => rfl
    | some leaf => cases h : transitionOf prev leaf <;> simp [h]
  rw [hone] at hperm
  cases h : (leaves.find? (·.name = name)).bind (transitionOf prev) with
  | none =>
    rw [h] at hperm
    exact hperm.eq_nil
  | some t =>
    rw [h] at hperm
    exact hperm.eq_singleton

theorem emits_on_entry (hn : (leaves.map LeafView.name).Nodup)
    (hprev : ∀ name, prev.get? name = kindOf before name) :
    EmitsOnEntry before leaves (transitions prev leaves) where
  one name h hnow hbefore := by
    obtain ⟨leaf, hfind, hkind⟩ := Option.bind_eq_some_iff.mp hnow
    obtain ⟨⟨_, detail⟩, hheld, rfl⟩ := Option.map_eq_some_iff.mp hkind
    have hname : leaf.name = name := by simpa using List.find?_some hfind
    refine ⟨detail, ?_⟩
    rw [transitions_filter hn, hfind, Option.bind_some, transitionOf, hheld, hname, hprev]
    exact congrArg Option.toList (if_neg hbefore)
  quiet name h := by
    rw [transitions_filter hn]
    cases hfind : leaves.find? (·.name = name) with
    | none => rfl
    | some leaf =>
      have hname : leaf.name = name := by simpa using List.find?_some hfind
      have hnow : kindOf leaves name = (heldOf leaf.state).map Prod.fst := by
        rw [kindOf, hfind, Option.bind_some]
      rw [Option.bind_some, transitionOf, hname, hprev]
      cases hheld : heldOf leaf.state with
      | none => rfl
      | some k =>
        rw [hheld] at hnow
        rcases h with hnone | hsame
        · exact absurd (hnow.symm.trans hnone) (Option.some_ne_none _)
        · exact congrArg Option.toList (if_pos (hsame.trans hnow))

end Events

/-- What is remembered is how the leaves of the last step were held. -/
def Watched.Agrees (w : Watched) : Prop := ∀ name, w.remembered.get? name = kindOf w.last name

theorem agrees_watch (w : Watched) (s : Step) (hs : StepOk s) (_ : w.Agrees) :
    (watch w s).Agrees := get?_remember hs

/-- Over any run, with restarts anywhere, a leaf has one event for each time it becomes held. -/
theorem one_event_per_entry (steps : List Step) (h : ∀ s ∈ steps, StepOk s) :
    Along watch .start steps fun w s =>
      EmitsOnEntry w.last s.views (transitions w.remembered s.views) := by
  have hok : Along watch .start steps fun _ s => StepOk s := by
    intro pre s post he
    exact h s (by simp [he])
  refine along_of_along agrees_watch (fun w s hs hw => ?_) (fun _ => rfl) hok
  exact emits_on_entry hs.distinct hw

/-- `a` fails and stays so over a restart, while `b` stalls. -/
def restartedSteps : List Step :=
  [⟨[⟨"a", .failed "ImportAbsent" none, []⟩, ⟨"b", .ready, ["a"]⟩], some 1⟩,
    ⟨[⟨"a", .failed "Timeout" none, []⟩, ⟨"b", .stalled "heartbeatLost" none, []⟩], none⟩]

example : (restartedSteps.foldl (fun (w, events) s => (watch w s,
    events ++ transitions w.remembered s.views)) (Watched.start, [])).2 =
    [⟨"a", .failed, "ImportAbsent"⟩, ⟨"b", .stalled, "heartbeatLost"⟩] := by decide +kernel

theorem one_event_per_entry_restarted : Along watch .start restartedSteps fun w s =>
    EmitsOnEntry w.last s.views (transitions w.remembered s.views) := by
  refine one_event_per_entry restartedSteps fun s hs => ?_
  rcases List.mem_pair.mp hs with rfl | rfl
  · refine ⟨by decide +kernel, fun cap hcap h => ?_⟩
    cases hcap
    cases h <;> decide +kernel
  · exact ⟨by decide +kernel, fun cap hcap => absurd hcap (by simp)⟩

end PangeaOperator.LeafRollup
