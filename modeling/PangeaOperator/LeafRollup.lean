import Mathlib
import PangeaOperator.Lib.DepthFirst

/-!
# The rollup of the leaves

`rollup.rs`. Which leaves are blocked, and by whom, is found by a search along the upstreams that
remembers its answers from one leaf to the next.
-/

namespace PangeaOperator.LeafRollup

open DepthFirst

inductive LeafState where
  | ready
  | planning
  | applying
  | failed (reason : String) (since : Option String)
  | stalled (state : String) (since : Option String)
  | rateLimited (untilTime : String)
  deriving DecidableEq, Repr

structure LeafView where
  name : String
  state : LeafState
  upstreams : List String
  deriving DecidableEq, Repr

inductive Verdict where
  | converged
  | progressing
  | part
  deriving DecidableEq, Repr

structure Counts where
  ready : Nat
  planning : Nat
  applying : Nat
  failed : Nat
  stalled : Nat
  rateLimited : Nat
  blocked : Nat
  deriving DecidableEq, Repr

structure FailedLeaf where
  leaf : String
  reason : String
  since : Option String
  deriving DecidableEq, Repr

structure StalledLeaf where
  leaf : String
  state : String
  since : Option String
  deriving DecidableEq, Repr

structure RateLimitedLeaf where
  leaf : String
  untilTime : String
  deriving DecidableEq, Repr

structure BlockedLeaf where
  leaf : String
  holders : List String
  deriving DecidableEq, Repr

structure LeavesRollup where
  verdict : Verdict
  total : Nat
  counts : Counts
  failed : List FailedLeaf
  stalled : List StalledLeaf
  rateLimited : List RateLimitedLeaf
  blocked : List BlockedLeaf
  truncated : Nat
  deriving DecidableEq, Repr

def LeavesRollup.default : LeavesRollup :=
  ⟨.converged, 0, ⟨0, 0, 0, 0, 0, 0, 0⟩, [], [], [], [], 0⟩

def holding : LeafState → Bool
  | .failed .. | .stalled .. | .rateLimited .. => true
  | .ready | .planning | .applying => false

/-- The map by name; a later leaf of a name replaces an earlier one. -/
def byName (leaves : List LeafView) (name : String) : Option LeafView :=
  leaves.reverse.find? (·.name = name)

abbrev Memo := List (String × Finset String)

/-- The recursion is as deep as the path is long, so the number of leaves bounds it. -/
def holdersOf (leaves : List LeafView) :
    Nat → String → Memo → List String → Finset String × Memo
  | 0, _, memo, _ => (∅, memo)
  | fuel + 1, name, memo, path =>
    match memo.lookup name with
    | some h => (h, memo)
    | none =>
      if name ∈ path then (∅, memo)
      else
        let found := match byName leaves name with
          | none => (∅, memo)
          | some leaf => leaf.upstreams.foldl (fun acc up =>
              match byName leaves up with
              | none => acc
              | some u =>
                let out := if holding u.state then insert up acc.1 else acc.1
                let rest := holdersOf leaves fuel up acc.2 (name :: path)
                (out ∪ rest.1, rest.2)) (∅, memo)
        (found.1, (name, found.1) :: found.2)

/-- The part of a turn of `judge` that counts and lists, with the number of leaves not listed. -/
def tally (cap : Nat) (acc : LeavesRollup × Nat) (leaf : LeafView) (heldBy : Finset String) :
    LeavesRollup × Nat :=
  let (r, truncated) := acc
  if heldBy.Nonempty then
    let r := { r with counts := { r.counts with blocked := r.counts.blocked + 1 } }
    if r.blocked.length < cap then
      ({ r with blocked := r.blocked ++ [⟨leaf.name, heldBy.sort (· ≤ ·)⟩] }, truncated)
    else (r, truncated + 1)
  else match leaf.state with
    | .ready => ({ r with counts := { r.counts with ready := r.counts.ready + 1 } }, truncated)
    | .planning =>
      ({ r with counts := { r.counts with planning := r.counts.planning + 1 } }, truncated)
    | .applying =>
      ({ r with counts := { r.counts with applying := r.counts.applying + 1 } }, truncated)
    | .failed reason since =>
      let r := { r with counts := { r.counts with failed := r.counts.failed + 1 } }
      if r.failed.length < cap then
        ({ r with failed := r.failed ++ [⟨leaf.name, reason, since⟩] }, truncated)
      else (r, truncated + 1)
    | .stalled state since =>
      let r := { r with counts := { r.counts with stalled := r.counts.stalled + 1 } }
      if r.stalled.length < cap then
        ({ r with stalled := r.stalled ++ [⟨leaf.name, state, since⟩] }, truncated)
      else (r, truncated + 1)
    | .rateLimited untilTime =>
      let r := { r with counts := { r.counts with rateLimited := r.counts.rateLimited + 1 } }
      if r.rateLimited.length < cap then
        ({ r with rateLimited := r.rateLimited ++ [⟨leaf.name, untilTime⟩] }, truncated)
      else (r, truncated + 1)

def sorted (leaves : List LeafView) : List LeafView :=
  leaves.insertionSort (fun a b => a.name ≤ b.name)

/-- The leaves that hold a leaf back, with the memo the next one is judged with. -/
def heldBy (leaves : List LeafView) (memo : Memo) (leaf : LeafView) : Finset String × Memo :=
  if holding leaf.state then (∅, memo)
  else holdersOf leaves (leaves.length + 1) leaf.name memo []

def judgeLeaf (leaves : List LeafView) (cap : Nat) (s : Memo × LeavesRollup × Nat)
    (leaf : LeafView) : Memo × LeavesRollup × Nat :=
  let found := heldBy leaves s.1 leaf
  (found.2, tally cap s.2 leaf found.1)

def verdictOf (r : LeavesRollup) : Verdict :=
  if 0 < r.counts.failed + r.counts.stalled + r.counts.blocked then .part
  else if r.counts.ready = r.total then .converged
  else .progressing

def judge (leaves : List LeafView) (cap : Nat) : LeavesRollup :=
  let start := { LeavesRollup.default with total := min leaves.length (2 ^ 32 - 1) }
  let s := (sorted leaves).foldl (judgeLeaf leaves cap) ([], start, 0)
  let r := { s.2.1 with truncated := s.2.2 }
  { r with verdict := verdictOf r }

section Upstreams

variable (leaves : List LeafView)

/-- The upstreams of a leaf that are leaves themselves. -/
def upstreamsOf (name : String) : List String :=
  match byName leaves name with
  | none => []
  | some leaf => leaf.upstreams.filter (fun up => (byName leaves up).isSome)

def isHolding (name : String) : Bool := (byName leaves name).any (fun leaf => holding leaf.state)

/-- A holding leaf is reachable by one or more upstream edges. -/
def Blocks (name holder : String) : Prop :=
  Reached (upstreamsOf leaves) (fun n => isHolding leaves n = true) name holder

/-- The order in which the search finishes the leaves, from those it asks about in name order. -/
def searchOrder : List String :=
  finishOrder (upstreamsOf leaves) (leaves.length + 1)
    (((sorted leaves).filter (fun leaf => !holding leaf.state)).map LeafView.name)

/-- A holding leaf is reachable without the upstream edges that close a cycle, those to a leaf
that the search had not finished when it finished the leaf they start from. -/
def StillBlocks (name holder : String) : Prop :=
  Found (upstreamsOf leaves) (fun n => isHolding leaves n = true) (searchOrder leaves) name holder

/-- The source's search is the general one along the upstreams. -/
theorem holdersOf_eq (fuel : Nat) (name : String) (memo : Memo) (path : List String) :
    holdersOf leaves fuel name memo path =
      search (upstreamsOf leaves) (isHolding leaves) fuel path name memo := by
  induction fuel generalizing name memo path with
  | zero => rfl
  | succ fuel ih =>
    unfold holdersOf search
    cases memo.lookup name with
    | some h => rfl
    | none =>
      dsimp only
      split
      · rfl
      · rw [upstreamsOf]
        cases byName leaves name with
        | none => rfl
        | some leaf =>
          dsimp only
          rw [List.foldl_filter]
          have hturn : (fun (acc : Finset String × Memo) up =>
              match byName leaves up with
              | none => acc
              | some u => ((if holding u.state then insert up acc.1 else acc.1) ∪
                  (holdersOf leaves fuel up acc.2 (name :: path)).1,
                  (holdersOf leaves fuel up acc.2 (name :: path)).2)) =
              fun acc up => if (byName leaves up).isSome then
                ((if isHolding leaves up then insert up acc.1 else acc.1) ∪
                  (search (upstreamsOf leaves) (isHolding leaves) fuel (name :: path) up acc.2).1,
                  (search (upstreamsOf leaves) (isHolding leaves) fuel (name :: path) up acc.2).2)
                else acc := by
            funext acc up
            rw [ih, isHolding]
            cases byName leaves up <;> rfl
          exact congrArg (fun f => ((leaf.upstreams.foldl f (∅, memo)).1,
            (name, (leaf.upstreams.foldl f (∅, memo)).1) ::
              (leaf.upstreams.foldl f (∅, memo)).2)) hturn

end Upstreams

section Decisions

variable (leaves : List LeafView)

/-- What the loop finds for each leaf, in the order of its turns. -/
def decisions : Memo → List LeafView → List (LeafView × Finset String)
  | _, [] => []
  | memo, leaf :: rest =>
    (leaf, (heldBy leaves memo leaf).1) :: decisions (heldBy leaves memo leaf).2 rest

def remembered (memo : Memo) (rest : List LeafView) : Memo :=
  rest.foldl (fun memo leaf => (heldBy leaves memo leaf).2) memo

def blockedOf (d : LeafView × Finset String) : Option BlockedLeaf :=
  if d.2.Nonempty then some ⟨d.1.name, d.2.sort (· ≤ ·)⟩ else none

variable {leaves}

theorem foldl_judgeLeaf (cap : Nat) (rest : List LeafView) (memo : Memo)
    (acc : LeavesRollup × Nat) : rest.foldl (judgeLeaf leaves cap) (memo, acc) =
      (remembered leaves memo rest,
        (decisions leaves memo rest).foldl (fun acc d => tally cap acc d.1 d.2) acc) := by
  induction rest generalizing memo acc with
  | nil => rfl
  | cons leaf rest ih => exact ih (heldBy leaves memo leaf).2 _

theorem map_fst_decisions (memo : Memo) (rest : List LeafView) :
    (decisions leaves memo rest).map Prod.fst = rest := by
  induction rest generalizing memo with
  | nil => rfl
  | cons leaf rest ih => rw [decisions, List.map_cons, ih]

theorem tally_count (cap : Nat) (acc : LeavesRollup × Nat) (d : LeafView × Finset String) :
    (tally cap acc d.1 d.2).1.counts.blocked =
      acc.1.counts.blocked + (blockedOf d).toList.length := by
  unfold tally blockedOf
  dsimp only
  split
  · split <;> rfl
  · split <;> first | rfl | (split <;> rfl)

theorem take_append_singleton {β : Type} (cap : Nat) (l : List β) (b : β) :
    (if (l.take cap).length < cap then l.take cap ++ [b] else l.take cap) =
      (l ++ [b]).take cap := by
  rw [List.length_take]
  split
  · next h =>
    have hlen : l.length < cap := by omega
    rw [List.take_of_length_le (by omega), List.take_of_length_le (by simp; omega)]
  · next h => rw [List.take_append_of_le_length (by omega)]

/-- A turn lists what it finds while there is room. -/
def ListsTurn {β : Type} (cap : Nat) (field : LeavesRollup → List β)
    (found : LeafView × Finset String → Option β) : Prop :=
  ∀ (acc : LeavesRollup × Nat) (d : LeafView × Finset String),
    field (tally cap acc d.1 d.2).1 = match found d with
      | none => field acc.1
      | some b => if (field acc.1).length < cap then field acc.1 ++ [b] else field acc.1

theorem tally_blocked (cap : Nat) : ListsTurn cap LeavesRollup.blocked blockedOf := by
  intro acc d
  unfold tally blockedOf
  dsimp only
  split
  · dsimp only
    split <;> rfl
  · dsimp only
    cases d.1.state <;> dsimp only <;> split <;> rfl

theorem foldl_tally_listed {β : Type} {cap : Nat} {field : LeavesRollup → List β}
    {found : LeafView × Finset String → Option β} (hturn : ListsTurn cap field found)
    (ds : List (LeafView × Finset String)) (acc : LeavesRollup × Nat) (listed : List β)
    (h : field acc.1 = listed.take cap) :
    field (ds.foldl (fun acc d => tally cap acc d.1 d.2) acc).1 =
      (listed ++ ds.filterMap found).take cap := by
  induction ds generalizing acc listed with
  | nil => rw [List.foldl_nil, h, List.filterMap_nil, List.append_nil]
  | cons d ds ih =>
    rw [List.foldl_cons, List.filterMap_cons]
    have hd := hturn acc d
    cases hb : found d with
    | none =>
      rw [hb] at hd
      exact ih _ listed (hd.trans h)
    | some b =>
      rw [hb] at hd
      dsimp only at hd
      rw [h, take_append_singleton] at hd
      rw [ih _ (listed ++ [b]) hd, List.append_assoc, List.singleton_append]

theorem foldl_tally_count (cap : Nat) (ds : List (LeafView × Finset String))
    (acc : LeavesRollup × Nat) :
    (ds.foldl (fun acc d => tally cap acc d.1 d.2) acc).1.counts.blocked =
      acc.1.counts.blocked + (ds.filterMap blockedOf).length := by
  induction ds generalizing acc with
  | nil => rfl
  | cons d ds ih =>
    rw [List.foldl_cons, ih, tally_count, List.filterMap_cons]
    cases blockedOf d with
    | none => rfl
    | some b =>
      simp only [Option.toList_some, List.length_cons, List.length_nil]
      omega

theorem judge_listed {β : Type} {cap : Nat} {field : LeavesRollup → List β}
    {found : LeafView × Finset String → Option β} (hturn : ListsTurn cap field found)
    (hstart : ∀ total, field { LeavesRollup.default with total := total } = [])
    (leaves : List LeafView) :
    field ((sorted leaves).foldl (judgeLeaf leaves cap) ([],
      { LeavesRollup.default with total := min leaves.length (2 ^ 32 - 1) }, 0)).2.1 =
      ((decisions leaves [] (sorted leaves)).filterMap found).take cap := by
  have h := foldl_tally_listed hturn (decisions leaves [] (sorted leaves))
    ({ LeavesRollup.default with total := min leaves.length (2 ^ 32 - 1) }, 0) []
    ((hstart _).trans List.take_nil.symm)
  rw [List.nil_append] at h
  rw [foldl_judgeLeaf]
  exact h

theorem judge_blocked (leaves : List LeafView) (cap : Nat) : (judge leaves cap).blocked =
    ((decisions leaves [] (sorted leaves)).filterMap blockedOf).take cap :=
  judge_listed (tally_blocked cap) (fun _ => rfl) leaves

theorem judge_count (leaves : List LeafView) (cap : Nat) : (judge leaves cap).counts.blocked =
    ((decisions leaves [] (sorted leaves)).filterMap blockedOf).length := by
  have h := foldl_tally_count cap (decisions leaves [] (sorted leaves))
    ({ LeavesRollup.default with total := min leaves.length (2 ^ 32 - 1) }, 0)
  rw [judge, foldl_judgeLeaf]
  refine h.trans ?_
  exact Nat.zero_add _

theorem length_sorted (leaves : List LeafView) : (sorted leaves).length = leaves.length :=
  List.length_insertionSort _ _

theorem mem_sorted_iff {leaf : LeafView} : leaf ∈ sorted leaves ↔ leaf ∈ leaves :=
  List.mem_insertionSort _

/-- With room for as many leaves as there are, nothing is cut off. -/
theorem judge_blocked_all (leaves : List LeafView) : (judge leaves leaves.length).blocked =
    (decisions leaves [] (sorted leaves)).filterMap blockedOf := by
  rw [judge_blocked, List.take_of_length_le]
  refine (List.length_filterMap_le _ _).trans ?_
  rw [← List.length_map Prod.fst, map_fst_decisions, length_sorted]

end Decisions

section Search

variable {leaves : List LeafView}

theorem byName_isSome_iff {name : String} :
    (byName leaves name).isSome ↔ name ∈ leaves.map LeafView.name := by
  rw [byName, List.find?_isSome]
  simp

/-- What the memo holds is explained, and the edges left out close cycles. -/
structure Sound (leaves : List LeafView) (memo : Memo) : Prop where
  explained : Explained (upstreamsOf leaves) (fun n => isHolding leaves n = true) memo
  closes : Closes (upstreamsOf leaves) (memo.map Prod.fst)

theorem sound_nil (leaves : List LeafView) : Sound leaves [] := ⟨.nil, nofun⟩

theorem upstreamsOf_known {a b : String} (h : b ∈ upstreamsOf leaves a) :
    b ∈ (leaves.map LeafView.name).toFinset := by
  unfold upstreamsOf at h
  split at h
  · cases h
  · exact List.mem_toFinset.mpr (byName_isSome_iff.mp (List.mem_filter.mp h).2)

theorem holdersOf_answered {memo : Memo} (h : Sound leaves memo) {leaf : LeafView}
    (hleaf : leaf ∈ leaves) : Answered (upstreamsOf leaves) (isHolding leaves) [] leaf.name memo
      (holdersOf leaves (leaves.length + 1) leaf.name memo []) := by
  have hcard : (leaves.map LeafView.name).toFinset.card < leaves.length + 1 + 0 := by
    have := List.toFinset_card_le (leaves.map LeafView.name)
    rw [List.length_map] at this
    omega
  rw [holdersOf_eq]
  exact search_answered (fun a _ b hb => upstreamsOf_known hb) _ [] leaf.name memo List.nodup_nil
    nofun (List.mem_toFinset.mpr (List.mem_map_of_mem hleaf)) hcard h.explained nofun h.closes nofun

theorem heldBy_suffix {memo : Memo} (h : Sound leaves memo) {leaf : LeafView}
    (hleaf : leaf ∈ leaves) : memo <:+ (heldBy leaves memo leaf).2 ∧
      Sound leaves (heldBy leaves memo leaf).2 := by
  unfold heldBy
  split
  · exact ⟨List.suffix_refl memo, h⟩
  · have ha := holdersOf_answered h hleaf
    exact ⟨ha.suffix, ha.explained, ha.closes⟩

/-- The memo at the end of the loop has grown from every earlier one. -/
theorem remembered_suffix (rest : List LeafView) {memo : Memo} (h : Sound leaves memo)
    (hrest : ∀ leaf ∈ rest, leaf ∈ leaves) : memo <:+ remembered leaves memo rest ∧
      Sound leaves (remembered leaves memo rest) := by
  induction rest generalizing memo with
  | nil => exact ⟨List.suffix_refl memo, h⟩
  | cons leaf rest ih =>
    obtain ⟨hsuffix, hsound⟩ := heldBy_suffix h (hrest leaf List.mem_cons_self)
    obtain ⟨hlater, hfinal⟩ := ih hsound (fun l hl => hrest l (List.mem_cons_of_mem leaf hl))
    exact ⟨hsuffix.trans hlater, hfinal⟩

theorem keys_remembered (rest : List LeafView) (memo : Memo) :
    (remembered leaves memo rest).map Prod.fst =
      ((rest.filter (fun leaf => !holding leaf.state)).map LeafView.name).foldl
        (fun done x => visit (upstreamsOf leaves) (leaves.length + 1) [] x done)
        (memo.map Prod.fst) := by
  induction rest generalizing memo with
  | nil => rfl
  | cons leaf rest ih =>
    refine (ih (heldBy leaves memo leaf).2).trans ?_
    rw [List.filter_cons]
    cases hstate : holding leaf.state with
    | true => rw [heldBy, if_pos hstate]; rfl
    | false =>
      rw [heldBy, if_neg (by rw [hstate]; exact Bool.false_ne_true), holdersOf_eq, keys_search]
      rfl

/-- What the loop finds for a leaf that does not hold is what is found along earlier edges. -/
theorem decisions_mem (rest : List LeafView) {memo : Memo} (h : Sound leaves memo)
    (hrest : ∀ leaf ∈ rest, leaf ∈ leaves) : ∀ d ∈ decisions leaves memo rest,
      (holding d.1.state = true → d.2 = ∅) ∧ (holding d.1.state = false →
        d.1.name ∈ (remembered leaves memo rest).map Prod.fst ∧ ∀ y, y ∈ d.2 ↔
          Found (upstreamsOf leaves) (fun n => isHolding leaves n = true)
            ((remembered leaves memo rest).map Prod.fst) d.1.name y) := by
  induction rest generalizing memo with
  | nil => nofun
  | cons leaf rest ih =>
    intro d hd
    have hleaf := hrest leaf List.mem_cons_self
    have hlater : ∀ l ∈ rest, l ∈ leaves := fun l hl => hrest l (List.mem_cons_of_mem leaf hl)
    obtain ⟨-, hsound⟩ := heldBy_suffix h hleaf
    rcases List.mem_cons.mp hd with rfl | hd
    · dsimp only
      constructor
      · intro hstate
        rw [heldBy, if_pos hstate]
      · intro hstate
        have hfound : heldBy leaves memo leaf =
            holdersOf leaves (leaves.length + 1) leaf.name memo [] := by
          rw [heldBy, if_neg (by rw [hstate]; exact Bool.false_ne_true)]
        have ha := holdersOf_answered h hleaf
        rw [← hfound] at ha
        obtain ⟨hsuffix, hfinal⟩ := remembered_suffix rest hsound hlater
        have hkey := ha.known.resolve_right List.not_mem_nil
        have hsame := lookup_suffix hsuffix hfinal.explained hkey
        obtain ⟨s, hs⟩ := lookup_isSome_iff.mpr hkey
        have hanswer := ha.answer
        rw [hs, Option.getD_some] at hanswer
        refine ⟨(hsuffix.sublist.map Prod.fst).subset hkey, fun y => ?_⟩
        rw [hanswer]
        exact hfinal.explained.mem_iff (hsame.trans hs) y
    · exact ih hsound hlater d hd

end Search

/-- A leaf is counted as blocked: it is listed when the list is long enough for all leaves. -/
def Counted (leaves : List LeafView) (name : String) : Prop :=
  name ∈ (judge leaves leaves.length).blocked.map BlockedLeaf.leaf

/-- The leaves counted as blocked are those that do not hold and depend on one that does, and each
listed one names all of these, in order. -/
structure BlockedExactly (leaves : List LeafView) (cap : Nat) : Prop where
  count : (judge leaves cap).counts.blocked = (judge leaves leaves.length).blocked.length
  counted : ∀ leaf ∈ leaves, Counted leaves leaf.name ↔
    holding leaf.state = false ∧ ∃ holder, Blocks leaves leaf.name holder
  holders : ∀ b ∈ (judge leaves cap).blocked, b.holders.Pairwise (· < ·) ∧
    ∀ holder, holder ∈ b.holders ↔ Blocks leaves b.leaf holder

section Main

variable {leaves : List LeafView}

theorem remembered_sorted (leaves : List LeafView) :
    (remembered leaves [] (sorted leaves)).map Prod.fst = searchOrder leaves :=
  keys_remembered (sorted leaves) []

/-- What the loop finds for the leaves. -/
theorem mem_decisions {d : LeafView × Finset String} (h : d ∈ decisions leaves [] (sorted leaves)) :
    d.1 ∈ leaves ∧ (holding d.1.state = true → d.2 = ∅) ∧ (holding d.1.state = false →
      d.1.name ∈ searchOrder leaves ∧ ∀ y, y ∈ d.2 ↔ StillBlocks leaves d.1.name y) := by
  have hmem := decisions_mem (sorted leaves) (sound_nil leaves)
    (fun l hl => mem_sorted_iff.mp hl) d h
  rw [remembered_sorted] at hmem
  have hfst : d.1 ∈ (decisions leaves [] (sorted leaves)).map Prod.fst := List.mem_map_of_mem h
  rw [map_fst_decisions] at hfst
  exact ⟨mem_sorted_iff.mp hfst, hmem⟩

theorem exists_decision {leaf : LeafView} (h : leaf ∈ leaves) :
    ∃ s, (leaf, s) ∈ decisions leaves [] (sorted leaves) := by
  have hfst : leaf ∈ (decisions leaves [] (sorted leaves)).map Prod.fst := by
    rw [map_fst_decisions]
    exact mem_sorted_iff.mpr h
  obtain ⟨d, hd, rfl⟩ := List.mem_map.mp hfst
  exact ⟨d.2, hd⟩

theorem blockedOf_eq_some_iff {d : LeafView × Finset String} {b : BlockedLeaf} :
    blockedOf d = some b ↔ d.2.Nonempty ∧ b = ⟨d.1.name, d.2.sort (· ≤ ·)⟩ := by
  unfold blockedOf
  split
  · next h => simp [h, eq_comm]
  · next h => simp [h]

/-- Every listed leaf comes from a turn of the loop that found its holders. -/
theorem mem_blocked {cap : Nat} {b : BlockedLeaf} (h : b ∈ (judge leaves cap).blocked) :
    ∃ leaf ∈ leaves, holding leaf.state = false ∧ b.leaf = leaf.name ∧
      b.holders.Pairwise (· < ·) ∧ b.holders ≠ [] ∧
      ∀ y, y ∈ b.holders ↔ StillBlocks leaves leaf.name y := by
  rw [judge_blocked] at h
  obtain ⟨d, hd, hb⟩ := List.mem_filterMap.mp (List.mem_of_mem_take h)
  obtain ⟨hnonempty, rfl⟩ := blockedOf_eq_some_iff.mp hb
  obtain ⟨hleaf, hholding, hfound⟩ := mem_decisions hd
  have hstate : holding d.1.state = false := by
    rw [← Bool.not_eq_true]
    intro hstate
    rw [hholding hstate] at hnonempty
    exact Finset.not_nonempty_empty hnonempty
  refine ⟨d.1, hleaf, hstate, rfl, (Finset.sortedLT_sort d.2).pairwise, ?_, fun y => ?_⟩
  · intro hnil
    obtain ⟨y, hy⟩ := hnonempty
    have hlisted := (Finset.mem_sort (· ≤ ·)).mpr hy
    rw [show d.2.sort (· ≤ ·) = [] from hnil] at hlisted
    cases hlisted
  · rw [← (hfound hstate).2]
    exact Finset.mem_sort (· ≤ ·)

theorem counted_iff (hn : (leaves.map LeafView.name).Nodup) {leaf : LeafView} (h : leaf ∈ leaves) :
    Counted leaves leaf.name ↔
      holding leaf.state = false ∧ ∃ holder, StillBlocks leaves leaf.name holder := by
  constructor
  · intro hc
    obtain ⟨b, hb, hname⟩ := List.mem_map.mp hc
    obtain ⟨other, hother, hstate, hleaf, -, hne, hiff⟩ := mem_blocked hb
    have hsame := List.inj_on_of_nodup_map hn hother h (hleaf.symm.trans hname)
    rw [hsame] at hstate hiff
    obtain ⟨y, hy⟩ := List.exists_mem_of_ne_nil _ hne
    exact ⟨hstate, y, (hiff y).mp hy⟩
  · rintro ⟨hstate, y, hy⟩
    obtain ⟨s, hs⟩ := exists_decision h
    have hfound := ((mem_decisions hs).2.2 hstate).2 y
    refine List.mem_map.mpr ⟨⟨leaf.name, s.sort (· ≤ ·)⟩, ?_, rfl⟩
    rw [judge_blocked_all]
    exact List.mem_filterMap.mpr
      ⟨(leaf, s), hs, blockedOf_eq_some_iff.mpr ⟨⟨y, hfound.mpr hy⟩, rfl⟩⟩

theorem blocked_exactly_iff (leaves : List LeafView) (hn : (leaves.map LeafView.name).Nodup) :
    (∀ cap, BlockedExactly leaves cap) ↔ ∀ leaf ∈ leaves, holding leaf.state = false →
      ∀ holder, Blocks leaves leaf.name holder → StillBlocks leaves leaf.name holder := by
  constructor
  · intro h leaf hleaf hstate holder hblocks
    have hexact := h leaves.length
    have hcounted := (hexact.counted leaf hleaf).mpr ⟨hstate, holder, hblocks⟩
    obtain ⟨b, hb, hname⟩ := List.mem_map.mp hcounted
    obtain ⟨other, hother, -, hleaf', -, -, hiff⟩ := mem_blocked hb
    have hlisted := ((hexact.holders b hb).2 holder).mpr (hname ▸ hblocks)
    have hfound := (hiff holder).mp hlisted
    rwa [← hleaf', hname] at hfound
  · intro h cap
    have hiff {leaf : LeafView} (hleaf : leaf ∈ leaves) (hstate : holding leaf.state = false)
        (y : String) : StillBlocks leaves leaf.name y ↔ Blocks leaves leaf.name y :=
      ⟨Found.reached, h leaf hleaf hstate y⟩
    refine ⟨?_, fun leaf hleaf => ?_, fun b hb => ?_⟩
    · rw [judge_count, judge_blocked_all]
    · rw [counted_iff hn hleaf]
      apply and_congr_right
      intro hstate
      exact exists_congr (hiff hleaf hstate)
    · obtain ⟨leaf, hleaf, hstate, hname, hsorted, -, hholders⟩ := mem_blocked hb
      refine ⟨hsorted, fun y => ?_⟩
      rw [hholders, hname, hiff hleaf hstate]

/-- Where no leaf depends on itself the edges left out are none. -/
theorem still_blocks_of_acyclic
    (hacyclic : ∀ a, ¬ Relation.TransGen (fun v u => u ∈ upstreamsOf leaves v) a a)
    {leaf : LeafView} (hleaf : leaf ∈ leaves) (hstate : holding leaf.state = false)
    {holder : String} (h : Blocks leaves leaf.name holder) :
    StillBlocks leaves leaf.name holder := by
  obtain ⟨s, hs⟩ := exists_decision hleaf
  obtain ⟨-, hsound⟩ := remembered_suffix (sorted leaves) (sound_nil leaves)
    (fun l hl => mem_sorted_iff.mp hl)
  have hcloses := hsound.closes
  rw [remembered_sorted] at hcloses
  exact hcloses.found hacyclic ((mem_decisions hs).2.2 hstate).1 h

end Main

/-- A waits for B and for the failed C, B for A: B is asked about first on behalf of A, while A is
being looked at. -/
def cutCycle : List LeafView :=
  [⟨"a", .ready, ["b", "c"]⟩, ⟨"b", .ready, ["a"]⟩, ⟨"c", .failed "boom" none, []⟩]

/-- The same without the way back. -/
def waitingChain : List LeafView :=
  [⟨"a", .ready, ["b", "c"]⟩, ⟨"b", .ready, ["c"]⟩, ⟨"c", .failed "boom" none, []⟩]

theorem waiting_chain_blocked_exactly :
    (∀ leaf ∈ waitingChain, holding leaf.state = false → ∀ holder,
      Blocks waitingChain leaf.name holder → StillBlocks waitingChain leaf.name holder) ∧
    ∀ cap, BlockedExactly waitingChain cap := by
  -- the names go up along the edges
  have hup (v u : String) (h : u ∈ upstreamsOf waitingChain v) : v < u := by
    unfold upstreamsOf at h
    split at h
    · cases h
    · next leaf hleaf =>
      have hmem := List.mem_reverse.mp (List.mem_of_find?_eq_some hleaf)
      have hname : leaf.name = v := by simpa using List.find?_some hleaf
      have hall : ∀ leaf ∈ waitingChain, ∀ u ∈ leaf.upstreams, leaf.name < u := by decide +kernel
      exact hname ▸ hall leaf hmem u (List.mem_of_mem_filter h)
  have hchain {v u : String}
      (h : Relation.TransGen (fun v u => u ∈ upstreamsOf waitingChain v) v u) : v < u := by
    induction h with
    | single h => exact hup _ _ h
    | tail _ h ih => exact ih.trans (hup _ _ h)
  have hstill : ∀ leaf ∈ waitingChain, holding leaf.state = false → ∀ holder,
      Blocks waitingChain leaf.name holder → StillBlocks waitingChain leaf.name holder :=
    fun leaf hleaf hstate holder h =>
      still_blocks_of_acyclic (fun a ha => lt_irrefl a (hchain ha)) hleaf hstate h
  exact ⟨hstill, (blocked_exactly_iff waitingChain (by decide +kernel)).mpr hstill⟩

/-- B depends on C by way of A, but the empty answer it got while A was being looked at stands. -/
theorem cut_cycle_forgets : ¬ ∀ leaves : List LeafView, (leaves.map LeafView.name).Nodup →
    ∀ cap, BlockedExactly leaves cap := by
  intro h
  have hexact := (h cutCycle (by decide +kernel) 3).counted ⟨"b", .ready, ["a"]⟩
    (by simp [cutCycle])
  have hedge (v u : String) (hvu : u ∈ upstreamsOf cutCycle v) :
      Relation.TransGen (fun v u => u ∈ upstreamsOf cutCycle v) v u := .single hvu
  have hblocks : Blocks cutCycle "b" "c" :=
    ⟨by decide +kernel, (hedge "b" "a" (by decide +kernel)).tail (by decide +kernel)⟩
  have hnot : ¬ Counted cutCycle "b" := by
    unfold Counted
    decide +kernel
  exact hnot (hexact.mpr ⟨rfl, "c", hblocks⟩)

end PangeaOperator.LeafRollup
