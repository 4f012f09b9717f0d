import Mathlib
import PangeaOperator.LeafGate

/-!
# What the gate hands out

Three budgets are taken one after the other from a snapshot, while permits are dropped. Along a run
the live permits are compared with the caps, and a call that is queued with one that never was.
-/

namespace PangeaOperator

theorem inScopeOf_append (l m : List BudgetPermit) (scope : String) :
    inScopeOf (l ++ m) scope = inScopeOf l scope + inScopeOf m scope := List.countP_append

theorem inScopeOf_sublist {l m : List BudgetPermit} (h : l.Sublist m) (scope : String) :
    inScopeOf l scope ≤ inScopeOf m scope := h.countP_le

namespace FairBudget

variable {x : Shigoto} {b : FairBudget} {held live : List BudgetPermit}

theorem inForce_congr {f : FairBudget} (hcfg : b.cfg = f.cfg)
    (hby : b.tree.byScope = f.tree.byScope) : b.inForce = f.inForce := by
  unfold inForce
  rw [hcfg, hby]

theorem Tracks.perm {m : List BudgetPermit} (h : b.Tracks live) (hp : live.Perm m) :
    b.Tracks m where
  global := h.global
  runningGlobal := h.runningGlobal.trans hp.length_eq
  runningScope scope := (h.runningScope scope).trans (hp.countP_eq _)
  pool := hp.length_eq ▸ h.pool

/-- The drop of a permit beside those a call holds. -/
theorem Tracks.release_live (hx : x.Exact) (h : b.Tracks (held ++ live)) {p : BudgetPermit}
    (hp : p ∈ live) : (b.release x p.scope).Tracks (held ++ live.erase p) := by
  have hout : (p :: (held ++ live).erase p).Perm (held ++ live) :=
    (List.perm_cons_erase (List.mem_append_right held hp)).symm
  have hin : (held ++ live).Perm (p :: (held ++ live.erase p)) :=
    ((List.perm_cons_erase hp).append_left held).trans List.perm_middle
  exact (tracks_release hx h (List.mem_append_right held hp)).perm (hout.trans hin).cons_inv

end FairBudget

namespace LeafGate

open LeafAdmit

section Drops

variable {x : Shigoto}

def Live.drops (l : Live) (parts : List Part) : Live := parts.foldl Live.drop l

/-- The parts dropped before the first accesses of a call. -/
def Call.during (call : Call) (k : Nat) : List Part := (List.range k).flatMap call.between

theorem Call.during_succ (call : Call) (k : Nat) :
    call.during (k + 1) = call.during k ++ call.between k := by
  simp [during, List.range_succ]

/-- The permits that are still live are among those that were. -/
structure Live.Sub (l m : Live) : Prop where
  scopes : l.scopes.Sublist m.scopes
  credentials : l.credentials.Sublist m.credentials
  drift : l.drift.Sublist m.drift

theorem Live.Sub.refl (l : Live) : l.Sub l := ⟨.refl _, .refl _, .refl _⟩

theorem Live.Sub.trans {l m n : Live} (hlm : l.Sub m) (hmn : m.Sub n) : l.Sub n :=
  ⟨hlm.scopes.trans hmn.scopes, hlm.credentials.trans hmn.credentials, hlm.drift.trans hmn.drift⟩

theorem Live.drop_sub (l : Live) (part : Part) : (l.drop part).Sub l := by
  cases part with
  | scope p => exact ⟨List.erase_sublist, .refl _, .refl _⟩
  | credential p => exact ⟨.refl _, List.erase_sublist, .refl _⟩
  | drift p => exact ⟨.refl _, .refl _, List.erase_sublist⟩

theorem Live.drops_sub (l : Live) (parts : List Part) : (l.drops parts).Sub l := by
  induction parts generalizing l with
  | nil => exact .refl l
  | cons part parts ih => exact (ih (l.drop part)).trans (l.drop_sub part)

theorem Live.drops_append (l : Live) (ps qs : List Part) :
    l.drops (ps ++ qs) = (l.drops ps).drops qs := List.foldl_append

/-- The budgets count the live permits and those that a call holds itself. -/
structure Budgets.Holds (b : Budgets) (scopes credentials drift : List BudgetPermit) : Prop where
  scopes : b.scopes.Tracks (scopes ++ b.live.scopes)
  credentials : b.credentials.Tracks (credentials ++ b.live.credentials)
  drift : b.drift.Tracks (drift ++ b.live.drift)

namespace Budgets

theorem holds_new (cfg : BudgetConfig) : (new cfg).Holds [] [] [] :=
  ⟨FairBudget.tracks_new _, FairBudget.tracks_new _, FairBudget.tracks_new _⟩

@[simp] theorem releases_nil (b : Budgets) : b.releases x [] = b := rfl
@[simp] theorem releases_cons (b : Budgets) (part : Part) (parts : List Part) :
    b.releases x (part :: parts) = (b.release x part).releases x parts := rfl

theorem releases_append (b : Budgets) (ps qs : List Part) :
    b.releases x (ps ++ qs) = (b.releases x ps).releases x qs := List.foldl_append

theorem release_live (b : Budgets) (part : Part) : (b.release x part).live = b.live.drop part := by
  cases part <;> unfold release Live.drop <;> dsimp only <;> split
  all_goals first
    | rfl
    | next h => rw [List.erase_of_not_mem h]

theorem releases_live (b : Budgets) (parts : List Part) :
    (b.releases x parts).live = b.live.drops parts := by
  induction parts generalizing b with
  | nil => rfl
  | cons part parts ih => rw [releases_cons, ih, release_live]; rfl

variable {b : Budgets} {s c d : List BudgetPermit}

theorem Holds.release (hx : x.Exact) (h : b.Holds s c d) (part : Part) :
    (b.release x part).Holds s c d := by
  cases part <;> unfold Budgets.release <;> dsimp only <;> split
  · next hp => exact ⟨h.scopes.release_live hx hp, h.credentials, h.drift⟩
  · exact h
  · next hp => exact ⟨h.scopes, h.credentials.release_live hx hp, h.drift⟩
  · exact h
  · next hp => exact ⟨h.scopes, h.credentials, h.drift.release_live hx hp⟩
  · exact h

theorem Holds.releases (hx : x.Exact) (h : b.Holds s c d) (parts : List Part) :
    (b.releases x parts).Holds s c d := by
  induction parts generalizing b with
  | nil => exact h
  | cons part parts ih => exact ih (h.release hx part)

/-- Drops leave the caps of the scopes alone. -/
theorem Holds.inForce_release (hx : x.Exact) (h : b.Holds s c d) (part : Part) :
    (b.release x part).scopes.cfg = b.scopes.cfg ∧
      (b.release x part).scopes.tree.byScope = b.scopes.tree.byScope := by
  cases part <;> unfold Budgets.release <;> dsimp only <;> split
  · next hp =>
    exact ⟨rfl, FairBudget.byScope_release hx h.scopes (List.mem_append_right s hp)⟩
  all_goals exact ⟨rfl, rfl⟩

theorem Holds.caps_releases (hx : x.Exact) (h : b.Holds s c d) (parts : List Part) :
    (b.releases x parts).scopes.cfg = b.scopes.cfg ∧
      (b.releases x parts).scopes.tree.byScope = b.scopes.tree.byScope := by
  induction parts generalizing b with
  | nil => exact ⟨rfl, rfl⟩
  | cons part parts ih =>
    obtain ⟨hcfg, hby⟩ := ih (h.release hx part)
    obtain ⟨hcfg', hby'⟩ := h.inForce_release hx part
    exact ⟨hcfg.trans hcfg', hby.trans hby'⟩

end Budgets

end Drops

section Snapshot

variable {x : Shigoto}

theorem range'_three (i n : Nat) :
    List.range' i (3 * (n + 1)) = i :: (i + 1) :: (i + 2) :: List.range' (i + 3) (3 * n) := by
  rw [show 3 * (n + 1) = 3 * n + 1 + 1 + 1 by omega]
  simp only [List.range'_succ]

/-- The loop over the waiting takes nothing: it only lets drops pass. -/
theorem readCounts_budgets (between : Nat → List Part) (ws : List Waiting) (i : Nat) (b : Budgets)
    (f : InFlight) : (readCounts x between ws i b f).1 =
      b.releases x ((List.range' i (3 * ws.length)).flatMap between) := by
  induction ws generalizing i b f with
  | nil => rfl
  | cons w ws ih =>
    unfold readCounts
    dsimp only
    rw [ih, List.length_cons, range'_three]
    simp only [List.flatMap_cons, Budgets.releases_append]

theorem readCounts_total (between : Nat → List Part) (ws : List Waiting) (i : Nat) (b : Budgets)
    (f : InFlight) : (readCounts x between ws i b f).2.total = f.total := by
  induction ws generalizing i b f with
  | nil => rfl
  | cons w ws ih =>
    unfold readCounts
    dsimp only
    rw [ih]
    cases w.candidate.credential <;> rfl

/-- A count read before the last drops is no smaller than the count after them. -/
theorem readCounts_byScope (hx : x.Exact) (between : Nat → List Part) {ws : List Waiting} {i : Nat}
    {b : Budgets} {f : InFlight} {s c d : List BudgetPermit} (h : b.Holds s c d) (scope : String)
    (hread : (∃ w ∈ ws, w.candidate.scope = scope) ∨
      inScopeOf b.live.scopes scope ≤ f.byScope scope) :
    inScopeOf (readCounts x between ws i b f).1.live.scopes scope ≤
      (readCounts x between ws i b f).2.byScope scope := by
  induction ws generalizing i b f with
  | nil =>
    rcases hread with ⟨w, hw, -⟩ | hle
    · cases hw
    · exact hle
  | cons w ws ih =>
    have hsub (b : Budgets) (parts : List Part) :
        inScopeOf (b.releases x parts).live.scopes scope ≤ inScopeOf b.live.scopes scope := by
      rw [Budgets.releases_live]
      exact inScopeOf_sublist (b.live.drops_sub parts).scopes scope
    unfold readCounts
    dsimp only
    refine ih (((h.releases hx _).releases hx _).releases hx _) ?_
    by_cases hw : w.candidate.scope = scope
    · refine .inr ?_
      have hcount : inScopeOf (b.releases x (between i)).live.scopes scope ≤
          (b.releases x (between i)).scopes.inFlight scope := by
        rw [FairBudget.inFlight, (h.releases hx (between i)).scopes.runningScope, inScopeOf_append]
        exact Nat.le_add_left _ _
      have hlater := ((hsub _ (between (i + 2))).trans (hsub _ (between (i + 1)))).trans hcount
      cases w.candidate.credential <;>
        simpa only [setCount, hw, if_true] using hlater
    · rcases hread with ⟨v, hv, hs⟩ | hle
      · rcases List.mem_cons.mp hv with rfl | hv
        · exact absurd hs hw
        · exact .inl ⟨v, hv, hs⟩
      · refine .inr ?_
        have hlater := (((hsub _ (between (i + 2))).trans (hsub _ (between (i + 1)))).trans
          (hsub b (between i))).trans hle
        cases w.candidate.credential <;>
          simpa only [setCount, if_neg (Ne.symm hw)] using hlater

end Snapshot

section Taking

variable {x : Shigoto} {cfg : LeafConfig} {b : Budgets} {s c d : List BudgetPermit}

/-- The credential's part of a permit. -/
def credentialPart (cfg : LeafConfig) (c : Candidate) : Option BudgetPermit :=
  if 0 < cfg.perCredentialCap then c.credential.map BudgetPermit.mk else none

def driftPart (cfg : LeafConfig) (c : Candidate) : Option BudgetPermit :=
  if c.workClass = .drift ∧ 0 < cfg.driftSharePermille then some ⟨c.scope⟩ else none

theorem credentialPart_elsewhere {w : Candidate} {cred : String} (h : cred ∉ w.credential) :
    inScopeOf (credentialPart cfg w).toList cred = 0 := by
  unfold credentialPart
  split
  · cases hc : w.credential with
    | none => rfl
    | some own =>
      have hne : own ≠ cred := fun he => h (by rw [hc, he]; rfl)
      simp [inScopeOf, hne]
  · rfl

open Gate

theorem takeCredential_frame (x : Shigoto) (cfg : LeafConfig) (b : Budgets) (c : Candidate) :
    (takeCredential x cfg b c).2.live = b.live ∧
      (takeCredential x cfg b c).2.scopes = b.scopes := by
  unfold takeCredential
  cases c.credential with
  | none => exact ⟨rfl, rfl⟩
  | some cred =>
    dsimp only
    split
    · split <;> exact ⟨rfl, rfl⟩
    · exact ⟨rfl, rfl⟩

theorem takeDrift_frame (x : Shigoto) (caps : Caps) (b : Budgets) (c : Candidate) :
    (takeDrift x caps b c).2.live = b.live ∧ (takeDrift x caps b c).2.scopes = b.scopes := by
  unfold takeDrift
  dsimp only
  split
  · split <;> exact ⟨rfl, rfl⟩
  · exact ⟨rfl, rfl⟩

theorem takeCredential_holds (hx : x.Exact) (h : b.Holds s [] []) (cfg : LeafConfig)
    (c : Candidate) : (takeCredential x cfg b c).2.Holds s
      (takeCredential x cfg b c).1.join.toList [] := by
  unfold takeCredential
  cases c.credential with
  | none => exact h
  | some cred =>
    dsimp only
    split
    · have hcall := FairBudget.tracks_call hx h.credentials cred (some cfg.perCredentialCap)
      split
      · next p hp =>
        rw [hp] at hcall
        exact ⟨h.scopes, hcall, h.drift⟩
      · next hp =>
        rw [hp] at hcall
        exact ⟨h.scopes, hcall, h.drift⟩
    · exact h

theorem takeDrift_holds (hx : x.Exact) (h : b.Holds s c []) (caps : Caps) (w : Candidate) :
    (takeDrift x caps b w).2.Holds s c (takeDrift x caps b w).1.join.toList := by
  unfold takeDrift
  dsimp only
  split
  · have hcall := FairBudget.tracks_call hx h.drift w.scope
      (some (driftSlots (caps.scopeCap w.scope) caps.driftSharePermille))
    split
    · next p hp =>
      rw [hp] at hcall
      exact ⟨h.scopes, h.credentials, hcall⟩
    · next hp =>
      rw [hp] at hcall
      exact ⟨h.scopes, h.credentials, hcall⟩
  · exact h

theorem takeScope_holds (hx : x.Exact) (h : b.Holds [] [] []) (scope : String)
    (scopeCap : Option Nat) :
    { b with scopes := (b.scopes.tryAcquireCapped x scope scopeCap).2 : Budgets }.Holds
      (b.scopes.tryAcquireCapped x scope scopeCap).1.toList [] [] :=
  ⟨FairBudget.tracks_call hx h.scopes scope scopeCap, h.credentials, h.drift⟩

theorem giveScope_holds (hx : x.Exact) {p : BudgetPermit} (h : b.Holds (p :: s) c d) :
    (giveScope x b p).Holds s c d := by
  have hback := FairBudget.tracks_release hx h.scopes List.mem_cons_self
  rw [List.cons_append, List.erase_cons_head] at hback
  exact ⟨hback, h.credentials, h.drift⟩

theorem giveCredential_holds (hx : x.Exact) {held : Option BudgetPermit}
    (h : b.Holds s held.toList d) : (giveCredential x b held).Holds s [] d := by
  cases held with
  | none => exact h
  | some p =>
    have hback := FairBudget.tracks_release hx h.credentials List.mem_cons_self
    rw [Option.toList_some, List.cons_append, List.erase_cons_head] at hback
    exact ⟨h.scopes, hback, h.drift⟩

theorem giveCredential_frame (x : Shigoto) (b : Budgets) (held : Option BudgetPermit) :
    (giveCredential x b held).live = b.live ∧ (giveCredential x b held).scopes = b.scopes := by
  cases held <;> exact ⟨rfl, rfl⟩

theorem keep_holds {permit : LeafPermit}
    (h : b.Holds [permit.scope] permit.credential.toList permit.drift.toList) :
    (keep b permit).Holds [] [] [] := ⟨h.scopes, h.credentials, h.drift⟩

theorem lt_of_granted {f : FairBudget} {live : List BudgetPermit} (hx : x.Exact) (h : f.Tracks live)
    {scope : String} {n : Nat} {p : BudgetPermit}
    (hp : (f.tryAcquireCapped x scope (some n)).1 = some p) : inScopeOf live scope < n := by
  have hroom := (FairBudget.granted_iff hx h scope (some n)).mp (by rw [hp]; rfl)
  exact hroom.2.trans_le (Nat.min_le_left _ _)

theorem takeCredential_some (hx : x.Exact) (h : b.Holds s [] []) {w : Candidate}
    {held : Option BudgetPermit} (hout : (takeCredential x cfg b w).1 = some held) :
    held = credentialPart cfg w ∧ ∀ cred ∈ w.credential, 0 < cfg.perCredentialCap →
      inScopeOf b.live.credentials cred < cfg.perCredentialCap := by
  unfold takeCredential at hout
  unfold credentialPart
  cases hcred : w.credential with
  | none =>
    rw [hcred] at hout
    exact ⟨by simpa using hout.symm, nofun⟩
  | some cred =>
    rw [hcred] at hout
    dsimp only at hout
    split at hout
    · next hon =>
      split at hout
      · next p hp =>
        rw [if_pos hon]
        refine ⟨by simpa [FairBudget.permit_scope hp] using hout.symm, fun cred' hc _ => ?_⟩
        rw [← Option.some.inj hc]
        exact lt_of_granted hx h.credentials hp
      · cases hout
    · next hoff =>
      rw [if_neg hoff]
      exact ⟨(Option.some.inj hout).symm, fun _ _ hon => absurd hon hoff⟩

theorem takeDrift_some (hx : x.Exact) (h : b.Holds s c []) {caps : Caps} {w : Candidate}
    {held : Option BudgetPermit} (hcaps : caps.driftSharePermille = cfg.driftSharePermille)
    (hout : (takeDrift x caps b w).1 = some held) :
    held = driftPart cfg w ∧ (w.workClass = .drift → 0 < cfg.driftSharePermille →
      inScopeOf b.live.drift w.scope <
        driftSlots (caps.scopeCap w.scope) cfg.driftSharePermille) := by
  unfold takeDrift at hout
  unfold driftPart
  rw [hcaps] at hout
  dsimp only at hout
  split at hout
  · next hon =>
    rw [if_pos hon]
    split at hout
    · next p hp =>
      refine ⟨by simpa [FairBudget.permit_scope hp] using hout.symm, fun _ _ => ?_⟩
      exact lt_of_granted hx h.drift hp
    · cases hout
  · next hoff =>
    rw [if_neg hoff]
    exact ⟨(Option.some.inj hout).symm, fun hd hs => absurd ⟨hd, hs⟩ hoff⟩

end Taking

section Enter

variable {x : Shigoto} {cfg : LeafConfig} {g : Gate} {call : Call}

/-- The access at which a call takes its scope. -/
def scopeAccess (cfg : LeafConfig) (g : Gate) (call : Call) : Nat :=
  1 + 3 * (g.enqueue cfg call).entries.length

/-- The live permits when a call takes its scope, and when it takes its drift slot. -/
def atScope (cfg : LeafConfig) (g : Gate) (call : Call) : Live :=
  g.budgets.live.drops (call.during (scopeAccess cfg g call + 1))

def atDrift (cfg : LeafConfig) (g : Gate) (call : Call) : Live :=
  g.budgets.live.drops (call.during (scopeAccess cfg g call + 3))

/-- The cap of the candidate's scope in the snapshot. -/
def snapshotCap (cfg : LeafConfig) (g : Gate) (call : Call) : Nat :=
  (capsOf cfg g.budgets.scopes.cfg (g.enqueue cfg call)).scopeCap call.candidate.scope

/-- What an admission tells of the state it happened in. -/
structure Granted (cfg : LeafConfig) (g : Gate) (call : Call) (permit : LeafPermit) (g' : Gate) :
    Prop where
  scopePart : permit.scope = ⟨call.candidate.scope⟩
  credentialPart : permit.credential = credentialPart cfg call.candidate
  driftPart : permit.drift = driftPart cfg call.candidate
  queue : g'.queue = (g.enqueue cfg call).remove call.candidate.name
  live : g'.budgets.live = (Gate.keep { g.budgets with live := atDrift cfg g call } permit).live
  pool : (atScope cfg g call).scopes.length < g.budgets.scopes.cfg.global
  calibrated : cfg.calibrate → (atScope cfg g call).scopes.length < 1
  inForce : inScopeOf (atScope cfg g call).scopes call.candidate.scope <
    g.budgets.scopes.inForce call.candidate.scope call.scopeCap
  snapshot : inScopeOf (atScope cfg g call).scopes call.candidate.scope < snapshotCap cfg g call
  credential : ∀ cred ∈ call.candidate.credential, 0 < cfg.perCredentialCap →
    inScopeOf g'.budgets.live.credentials cred ≤ cfg.perCredentialCap
  drift : call.candidate.workClass = .drift → 0 < cfg.driftSharePermille →
    inScopeOf (atDrift cfg g call).drift call.candidate.scope <
      driftSlots (snapshotCap cfg g call) cfg.driftSharePermille

/-- A call that is queued leaves the budgets to the drops that came between. -/
structure Denied (cfg : LeafConfig) (g : Gate) (call : Call) (g' : Gate) : Prop where
  queue : g'.queue = g.enqueue cfg call
  live : ∃ k, g'.budgets.live = g.budgets.live.drops (call.during k)

theorem releases_during (b : Budgets) (call : Call) (k : Nat) :
    (b.releases x (call.during k)).releases x (call.between k) =
      b.releases x (call.during (k + 1)) := by
  rw [Call.during_succ, Budgets.releases_append]

/-- The budgets after the loop over the waiting. -/
theorem read_budgets (cfg : LeafConfig) (g : Gate) (call : Call) (f : InFlight) :
    (readCounts x call.between (g.enqueue cfg call).entries 1
      (g.budgets.releases x (call.between 0)) f).1 =
        g.budgets.releases x (call.during (scopeAccess cfg g call)) := by
  rw [readCounts_budgets, ← Budgets.releases_append, scopeAccess, Call.during,
    List.range_eq_range', Nat.add_comm, List.range'_succ, List.flatMap_cons]

theorem mem_enqueue (cfg : LeafConfig) (g : Gate) (call : Call) :
    ⟨call.now, g.waiter call, call.scopeCap, false, cfg.parkQueued⟩ ∈
      (g.enqueue cfg call).entries := List.mem_append_right _ List.mem_cons_self

theorem Queue.eq_of_name (q : Queue) {v w : Waiting} (hv : v ∈ q.entries) (hw : w ∈ q.entries)
    (hname : v.name = w.name) : v = w := by
  have hnodup : (q.entries.map Waiting.name).Nodup :=
    List.pairwise_map.mpr (q.sorted.imp (fun {a b} h => h.ne))
  exact List.inj_on_of_nodup_map hnodup hv hw hname

theorem during_sub (l : Live) (call : Call) {j k : Nat} (h : j ≤ k) :
    (l.drops (call.during k)).Sub (l.drops (call.during j)) := by
  induction k, h using Nat.le_induction with
  | base => exact .refl _
  | succ k _ ih =>
    rw [Call.during_succ, Live.drops_append]
    exact (Live.drops_sub _ _).trans ih

theorem atDrift_sub (cfg : LeafConfig) (g : Gate) (call : Call) :
    (atDrift cfg g call).Sub (atScope cfg g call) :=
  during_sub g.budgets.live call (Nat.add_le_add_left (by omega) _)

/-- What a name admitted from the snapshot tells of the counts when its scope is taken. -/
theorem snapshot_room (hx : x.Exact) (h : g.budgets.Holds [] [] [])
    (hmem : call.candidate.name ∈ admitLeaves (g.enqueue cfg call).candidates
      (capsOf cfg g.budgets.scopes.cfg (g.enqueue cfg call))
      (readCounts x call.between (g.enqueue cfg call).entries 1
        (g.budgets.releases x (call.between 0))
        { InFlight.default with
          total := (g.budgets.releases x (call.between 0)).scopes.totalInFlight }).2) :
    (cfg.calibrate → (atScope cfg g call).scopes.length < 1) ∧
      inScopeOf (atScope cfg g call).scopes call.candidate.scope < snapshotCap cfg g call := by
  obtain ⟨c, hc, hname, htotal, hfits⟩ := fits_of_mem_admitLeaves hmem
  obtain ⟨w, hw, rfl⟩ := List.mem_map.mp hc
  have hwaiter := (g.enqueue cfg call).eq_of_name hw (mem_enqueue cfg g call) hname
  have hscope : w.candidate.scope = call.candidate.scope := by rw [hwaiter]; rfl
  have hfirst := h.releases hx (call.between 0)
  have hat : atScope cfg g call =
      (g.budgets.live.drops (call.during (scopeAccess cfg g call))).drops
      (call.between (scopeAccess cfg g call)) := by
    rw [← Live.drops_append, ← Call.during_succ, atScope]
  constructor
  · intro hcal
    have hstart : (atScope cfg g call).scopes.length ≤
        (g.budgets.releases x (call.between 0)).live.scopes.length := by
      have hzero : call.during 1 = call.between 0 := by simp [Call.during]
      rw [Budgets.releases_live, ← hzero]
      exact (during_sub g.budgets.live call (Nat.le_add_left 1 _)).scopes.length_le
    rw [readCounts_total] at htotal
    have hone : (capsOf cfg g.budgets.scopes.cfg (g.enqueue cfg call)).global = 1 := if_pos hcal
    rw [hone] at htotal
    exact (hstart.trans (Nat.le_of_eq hfirst.scopes.runningGlobal.symm)).trans_lt htotal
  · have hread := readCounts_byScope hx call.between (i := 1) (f := { InFlight.default with
      total := (g.budgets.releases x (call.between 0)).scopes.totalInFlight }) hfirst
      w.candidate.scope (.inl ⟨w, hw, rfl⟩)
    rw [read_budgets, Budgets.releases_live] at hread
    have hlater := inScopeOf_sublist (hat ▸ Live.drops_sub _ _).scopes w.candidate.scope
    have hroom := (hlater.trans hread).trans_lt hfits.1
    rwa [hscope] at hroom

/-- The budgets between two accesses of a call: the drops so far, and what the call holds. -/
structure Stage (g : Gate) (call : Call) (k : Nat) (s c d : List BudgetPermit) (b : Budgets) :
    Prop where
  holds : b.Holds s c d
  live : b.live = g.budgets.live.drops (call.during k)
  caps : b.scopes.cfg = g.budgets.scopes.cfg

namespace Stage

variable {k : Nat} {s c d : List BudgetPermit} {b : Budgets}

theorem drops (hx : x.Exact) (h : Stage g call k s c d b) :
    Stage g call (k + 1) s c d (b.releases x (call.between k)) where
  holds := h.holds.releases hx _
  live := by rw [Budgets.releases_live, h.live, ← Live.drops_append, ← Call.during_succ]
  caps := (h.holds.caps_releases hx _).1.trans h.caps

theorem during (hx : x.Exact) (h : g.budgets.Holds [] [] []) (call : Call) (k : Nat) :
    Stage g call k [] [] [] (g.budgets.releases x (call.during k)) where
  holds := h.releases hx _
  live := Budgets.releases_live _ _
  caps := (h.caps_releases hx _).1

theorem takeScope (hx : x.Exact) (h : Stage g call k [] [] [] b) (scope : String)
    (scopeCap : Option Nat) :
    Stage g call k (b.scopes.tryAcquireCapped x scope scopeCap).1.toList [] []
      { b with scopes := (b.scopes.tryAcquireCapped x scope scopeCap).2 } where
  holds := takeScope_holds hx h.holds scope scopeCap
  live := h.live
  caps := (FairBudget.cfg_call x b.scopes scope scopeCap).trans h.caps

theorem takeCredential (hx : x.Exact) (h : Stage g call k s [] [] b) (cfg : LeafConfig)
    (w : Candidate) :
    Stage g call k s (Gate.takeCredential x cfg b w).1.join.toList []
      (Gate.takeCredential x cfg b w).2 where
  holds := takeCredential_holds hx h.holds cfg w
  live := (takeCredential_frame x cfg b w).1.trans h.live
  caps := (congrArg FairBudget.cfg (takeCredential_frame x cfg b w).2).trans h.caps

theorem takeDrift (hx : x.Exact) (h : Stage g call k s c [] b) (caps : Caps) (w : Candidate) :
    Stage g call k s c (Gate.takeDrift x caps b w).1.join.toList (Gate.takeDrift x caps b w).2 where
  holds := takeDrift_holds hx h.holds caps w
  live := (takeDrift_frame x caps b w).1.trans h.live
  caps := (congrArg FairBudget.cfg (takeDrift_frame x caps b w).2).trans h.caps

theorem giveScope (hx : x.Exact) {p : BudgetPermit} (h : Stage g call k (p :: s) c d b) :
    Stage g call k s c d (Gate.giveScope x b p) :=
  ⟨giveScope_holds hx h.holds, h.live, h.caps⟩

theorem giveCredential (hx : x.Exact) {held : Option BudgetPermit}
    (h : Stage g call k s held.toList d b) :
    Stage g call k s [] d (Gate.giveCredential x b held) where
  holds := giveCredential_holds hx h.holds
  live := (giveCredential_frame x b held).1.trans h.live
  caps := (congrArg FairBudget.cfg (giveCredential_frame x b held).2).trans h.caps

/-- The cap in force for a scope when it is taken is the one in force before the call. -/
theorem room (hx : x.Exact) (h : g.budgets.Holds [] [] []) {scope : String} {p : BudgetPermit}
    {scopeCap : Option Nat} (hout : ((g.budgets.releases x (call.during k)).scopes.tryAcquireCapped
      x scope scopeCap).1 = some p) :
    (g.budgets.live.drops (call.during k)).scopes.length < g.budgets.scopes.cfg.global ∧
      inScopeOf (g.budgets.live.drops (call.during k)).scopes scope <
        g.budgets.scopes.inForce scope scopeCap := by
  obtain ⟨hcfg, hby⟩ := h.caps_releases hx (call.during k)
  have hroom := (FairBudget.granted_iff hx (h.releases hx (call.during k)).scopes scope
    scopeCap).mp (by rw [hout]; rfl)
  rw [List.nil_append, Budgets.releases_live] at hroom
  rw [← FairBudget.inForce_congr hcfg hby, ← hcfg]
  exact ⟨hroom.1.trans_le (Nat.min_le_left _ _), hroom.2⟩

end Stage

/-- One call, by its outcome. -/
structure Settled (cfg : LeafConfig) (g : Gate) (call : Call) (out : Verdict × Gate) : Prop where
  holds : out.2.budgets.Holds [] [] []
  epoch : out.2.epoch = g.epoch
  caps : out.2.budgets.scopes.cfg = g.budgets.scopes.cfg
  outcome : match out.1 with
    | .admitted permit => Granted cfg g call permit out.2
    | .queued _ => Denied cfg g call out.2

/-- A stage that ends without a permit. -/
theorem Stage.denied {k : Nat} {b : Budgets} (h : Stage g call k [] [] [] b) (denial : Denial) :
    Settled cfg g call (.queued denial, { g with queue := g.enqueue cfg call, budgets := b }) :=
  ⟨h.holds, rfl, h.caps, rfl, k, h.live⟩

/-- The live permits of a credential after one more was taken below its cap. -/
theorem credential_bound {held : Option BudgetPermit} {l m : Live} (hsub : m.Sub l) {cred : String}
    {n : Nat} (hlow : inScopeOf l.credentials cred < n) :
    inScopeOf (held.toList ++ m.credentials) cred ≤ n := by
  have hless := (inScopeOf_sublist hsub.credentials cred).trans_lt hlow
  have hone := (inScopeOf_le_length held.toList cred).trans Option.length_toList_le
  rw [inScopeOf_append]
  omega

theorem enter_settled (hx : x.Exact) (h : g.budgets.Holds [] [] []) :
    Settled cfg g call (g.enter x cfg call) := by
  have haccess : 1 + 3 * (g.enqueue cfg call).entries.length = scopeAccess cfg g call := rfl
  unfold Gate.enter
  dsimp only
  rw [read_budgets, haccess, releases_during]
  split
  · next hmem =>
    obtain ⟨hcal, hsnap⟩ := snapshot_room hx h hmem
    have hscope := (Stage.during hx h call (scopeAccess cfg g call + 1)).takeScope hx
      (g.waiter call).scope call.scopeCap
    split
    · next hout =>
      rw [hout] at hscope
      exact hscope.denied _
    · next p hout =>
      rw [hout] at hscope
      have hbefore := hscope.drops hx
      have hcred := hbefore.takeCredential hx cfg (g.waiter call)
      split
      · next hout₁ =>
        rw [hout₁] at hcred
        exact (hcred.giveScope hx).denied _
      · next held hout₁ =>
        obtain ⟨hheld, hlow⟩ := takeCredential_some hx hbefore.holds hout₁
        rw [hout₁] at hcred
        have hbefore₂ := hcred.drops hx
        have hdrift := hbefore₂.takeDrift hx
          (capsOf cfg g.budgets.scopes.cfg (g.enqueue cfg call)) (g.waiter call)
        split
        · next hout₂ =>
          rw [hout₂] at hdrift
          exact ((hdrift.giveCredential hx).giveScope hx).denied _
        · next driftHeld hout₂ =>
          obtain ⟨hd, hslots⟩ := takeDrift_some hx hbefore₂.holds
            (show _ = cfg.driftSharePermille from rfl) hout₂
          obtain ⟨hpool, hforce⟩ := Stage.room hx h hout
          rw [hout₂] at hdrift
          refine ⟨keep_holds hdrift.holds, rfl, hdrift.caps, ?_⟩
          exact {
            scopePart := FairBudget.permit_scope hout
            credentialPart := hheld
            driftPart := hd
            queue := rfl
            live := by
              unfold Gate.keep atDrift
              dsimp only
              rw [hdrift.live]
            pool := hpool
            calibrated := hcal
            inForce := hforce
            snapshot := hsnap
            credential := fun cred hc hon => by
              change inScopeOf (held.toList ++ _) cred ≤ _
              rw [hdrift.live, Call.during_succ, Live.drops_append, ← hbefore.live]
              exact credential_bound (Live.drops_sub _ _) (hlow cred hc hon)
            drift := fun hclass hshare => by
              rw [atDrift, ← hbefore₂.live]
              exact hslots hclass hshare }
  · exact (Stage.during hx h call _).denied _

end Enter

namespace Queue

theorem get_eq_some {q : Queue} {key : String} {w : Waiting} (h : q.get key = some w) :
    w ∈ q.entries ∧ w.name = key :=
  ⟨List.mem_of_find?_eq_some h, by simpa using List.find?_some h⟩

theorem get_of_mem {q : Queue} {w : Waiting} (hw : w ∈ q.entries) : q.get w.name = some w := by
  cases hget : q.get w.name with
  | none => exact absurd (decide_eq_true rfl) (List.find?_eq_none.mp hget w hw)
  | some v =>
    obtain ⟨hv, hname⟩ := get_eq_some hget
    rw [q.eq_of_name hv hw hname]

theorem get_isSome_of_mem {q : Queue} {w : Waiting} (hw : w ∈ q.entries) :
    (q.get w.name).isSome := by rw [get_of_mem hw]; rfl

/-- An entry of a map after an insertion was inserted or was there under another name. -/
theorem mem_insert {q : Queue} {v w : Waiting} (h : v ∈ (q.insert w).entries) :
    v = w ∨ v ∈ q.entries ∧ v.name ≠ w.name := by
  rcases List.mem_append.mp h with h | h
  · obtain ⟨hv, hlt⟩ := List.mem_filter.mp h
    exact .inr ⟨hv, (of_decide_eq_true hlt).ne⟩
  · rcases List.mem_cons.mp h with rfl | h
    · exact .inl rfl
    · obtain ⟨hv, hlt⟩ := List.mem_filter.mp h
      exact .inr ⟨hv, (of_decide_eq_true hlt).ne'⟩

end Queue

/-- The gate along a run, with the caps declared by the last calls it admitted and the instants
since which the names have been in the map. -/
structure GateRun where
  gate : Gate
  scopeCap : String → Nat
  driftCap : String → Nat
  started : String → Option Nat

inductive GateEvent where
  | enter (call : Call)
  | drop (part : Part)
  | wake (k : WakeOnRelease) (now : Nat)

/-- The drops of a queued call aside, the counts are as they were. -/
structure Budgets.SameCounts (b b' : Budgets) : Prop where
  total : b.scopes.totalInFlight = b'.scopes.totalInFlight
  scope : ∀ s, b.scopes.inFlight s = b'.scopes.inFlight s
  credential : ∀ s, b.credentials.inFlight s = b'.credentials.inFlight s
  drift : ∀ s, b.drift.inFlight s = b'.drift.inFlight s

namespace GateRun

def new (budget : BudgetConfig) (epoch : Nat) : GateRun :=
  ⟨⟨.empty, .new budget, epoch⟩, fun _ => budget.perScope, fun _ => budget.perScope, fun _ => none⟩

/-- A name that stays keeps its instant, one that enters takes the present one. -/
def follow (kept after : Queue) (now : Nat) (started : String → Option Nat) (name : String) :
    Option Nat :=
  if (after.get name).isSome then
    if (kept.get name).isSome then started name else some now
  else none

/-- The cap a call declares for its scope. -/
def declared (r : GateRun) (call : Call) : Nat :=
  call.scopeCap.getD r.gate.budgets.scopes.cfg.perScope

def step (x : Shigoto) (cfg : LeafConfig) (r : GateRun) : GateEvent → GateRun
  | .enter call =>
    let out := r.gate.enter x cfg call
    let c := call.candidate
    let started := follow (r.gate.queue.retain call.now) out.2.queue call.now r.started
    match out.1 with
    | .admitted _ =>
      ⟨out.2, setCount r.scopeCap c.scope (r.declared call),
        if c.workClass = .drift then setCount r.driftCap c.scope (r.declared call) else r.driftCap,
        started⟩
    | .queued _ => ⟨out.2, r.scopeCap, r.driftCap, started⟩
  | .drop part => { r with gate := { r.gate with budgets := r.gate.budgets.release x part } }
  | .wake k now =>
    let queue := (k.drop r.gate.queue now).2
    { r with gate := { r.gate with queue := queue }, started := follow queue queue now r.started }

/-- The live permits are within every cap. -/
structure Bounded (cfg : LeafConfig) (budget : BudgetConfig) (r : GateRun) : Prop where
  global : r.gate.budgets.live.scopes.length ≤ budget.global
  calibrate : cfg.calibrate → r.gate.budgets.live.scopes.length ≤ 1
  scope : ∀ scope, inScopeOf r.gate.budgets.live.scopes scope ≤ r.scopeCap scope
  credential : ∀ cred, 0 < cfg.perCredentialCap →
    inScopeOf r.gate.budgets.live.credentials cred ≤ cfg.perCredentialCap
  drift : ∀ scope, inScopeOf r.gate.budgets.live.drift scope ≤
    driftSlots (r.driftCap scope) cfg.driftSharePermille

/-- A wait's instant as the candidates carry it. -/
def sinceOf (epoch start : Nat) : Nat := min ((start - epoch) / 1000000) u64Max

/-- A permit has a part for each cap on its leaf, and they are live beside what was. -/
structure Counted (cfg : LeafConfig) (c : Candidate) (permit : LeafPermit) (before after : Live) :
    Prop where
  scope : permit.scope = ⟨c.scope⟩
  credential : permit.credential = credentialPart cfg c
  drift : permit.drift = driftPart cfg c
  live : ∃ l : Live, l.Sub before ∧ after = ⟨permit.scope :: l.scopes,
    permit.credential.toList ++ l.credentials, permit.drift.toList ++ l.drift⟩

/-- A call that is queued leaves the counts to the drops that came meanwhile, and the candidate in
the map since its wait began; one that is admitted is counted. -/
def Accounted (x : Shigoto) (cfg : LeafConfig) (r : GateRun) : GateEvent → Prop
  | .enter call =>
    match r.gate.enter x cfg call with
    | (.admitted permit, g) =>
      Counted cfg call.candidate permit r.gate.budgets.live g.budgets.live
    | (.queued _, g) =>
      (∃ k, g.budgets.SameCounts (r.gate.budgets.releases x (call.during k))) ∧
      ∃ w start, g.queue.get call.candidate.name = some w ∧
        (r.step x cfg (.enter call)).started call.candidate.name = some start ∧
        w.candidate = { call.candidate with since := sinceOf r.gate.epoch start }
  | _ => True

/-- Where the cap that a call declares is reached, so is one that the gate asks: the cap left in
the tree or that of the snapshot. -/
def DeclaredDecides (cfg : LeafConfig) (r : GateRun) : GateEvent → Prop
  | .enter call =>
    let c := call.candidate
    let inScope := inScopeOf (atScope cfg r.gate call).scopes c.scope
    let drifting := inScopeOf (atDrift cfg r.gate call).drift c.scope
    let slots := fun n => driftSlots n cfg.driftSharePermille
    (r.declared call ≤ inScope → r.gate.budgets.scopes.inForce c.scope call.scopeCap ≤ inScope ∨
      snapshotCap cfg r.gate call ≤ inScope) ∧
    (c.workClass = .drift → 0 < cfg.driftSharePermille → slots (r.declared call) ≤ drifting →
      slots (snapshotCap cfg r.gate call) ≤ drifting)
  | _ => True

section Run

variable {x : Shigoto} {cfg : LeafConfig} {budget : BudgetConfig} {r : GateRun}

/-- The budgets count what is live, and an entry carries the instant its wait began. -/
structure Sound (budget : BudgetConfig) (r : GateRun) : Prop where
  holds : r.gate.budgets.Holds [] [] []
  caps : r.gate.budgets.scopes.cfg = budget
  waits : ∀ w ∈ r.gate.queue.entries, ∃ start, r.started w.name = some start ∧
    w.candidate.since = sinceOf r.gate.epoch start

theorem sound_new (budget : BudgetConfig) (epoch : Nat) : Sound budget (new budget epoch) :=
  ⟨Budgets.holds_new budget, rfl, nofun⟩

theorem follow_of_kept {kept after : Queue} {w : Waiting} (hafter : w ∈ after.entries)
    (hkept : (kept.get w.name).isSome) (now : Nat) (started : String → Option Nat) :
    follow kept after now started w.name = started w.name := by
  rw [follow, if_pos (Queue.get_isSome_of_mem hafter), if_pos hkept]

theorem follow_of_new {kept after : Queue} {w : Waiting} (hafter : w ∈ after.entries)
    (hkept : kept.get w.name = none) (now : Nat) (started : String → Option Nat) :
    follow kept after now started w.name = some now := by
  rw [follow, if_pos (Queue.get_isSome_of_mem hafter), hkept]
  rfl

/-- Whoever is in the map after a call carries the instant of its wait. -/
theorem Sound.waits_enqueue (h : Sound budget r) (call : Call) {after : Queue} {w : Waiting}
    (hafter : w ∈ after.entries) (hw : w ∈ (r.gate.enqueue cfg call).entries) :
    ∃ start, follow (r.gate.queue.retain call.now) after call.now r.started w.name = some start ∧
      w.candidate.since = sinceOf r.gate.epoch start := by
  rcases Queue.mem_insert hw with heq | ⟨hold, -⟩
  · -- the caller itself, with the `since` it had if it was waiting already
    cases hget : (r.gate.queue.retain call.now).get w.name with
    | none =>
      have hsince : w.candidate.since = sinceOf r.gate.epoch call.now := by
        rw [heq] at hget ⊢
        change (r.gate.waiter call).since = _
        unfold Gate.waiter
        change (r.gate.queue.retain call.now).get call.candidate.name = none at hget
        rw [hget]
        rfl
      exact ⟨call.now, follow_of_new hafter hget _ _, hsince⟩
    | some v =>
      obtain ⟨hv, hname⟩ := Queue.get_eq_some hget
      obtain ⟨start, hstart, hsince⟩ := h.waits v (List.mem_filter.mp hv).1
      refine ⟨start, ?_, ?_⟩
      · rw [follow_of_kept hafter (by rw [hget]; rfl), ← hname, hstart]
      · rw [heq] at hget ⊢
        change (r.gate.waiter call).since = _
        unfold Gate.waiter
        change (r.gate.queue.retain call.now).get call.candidate.name = some v at hget
        rw [hget]
        exact hsince
  · obtain ⟨start, hstart, hsince⟩ := h.waits w (List.mem_filter.mp hold).1
    exact ⟨start, by rw [follow_of_kept hafter (Queue.get_isSome_of_mem hold), hstart], hsince⟩

theorem step_gate (x : Shigoto) (cfg : LeafConfig) (r : GateRun) (call : Call) :
    (r.step x cfg (.enter call)).gate = (r.gate.enter x cfg call).2 := by
  unfold step
  dsimp only
  split <;> rfl

theorem step_started (x : Shigoto) (cfg : LeafConfig) (r : GateRun) (call : Call) :
    (r.step x cfg (.enter call)).started = follow (r.gate.queue.retain call.now)
      (r.gate.enter x cfg call).2.queue call.now r.started := by
  unfold step
  dsimp only
  split <;> rfl

/-- The map after a call holds nobody but those it was decided from. -/
theorem Settled.mem_enqueue {g : Gate} {call : Call} {out : Verdict × Gate}
    (h : Settled cfg g call out) {w : Waiting} (hw : w ∈ out.2.queue.entries) :
    w ∈ (g.enqueue cfg call).entries := by
  have houtcome := h.outcome
  split at houtcome
  · rw [houtcome.queue] at hw
    exact (List.mem_filter.mp hw).1
  · rwa [houtcome.queue] at hw

theorem Sound.step (hx : x.Exact) (h : Sound budget r) (e : GateEvent) :
    Sound budget (r.step x cfg e) := by
  cases e with
  | enter call =>
    have hs : Settled cfg r.gate call (r.gate.enter x cfg call) := enter_settled hx h.holds
    refine ⟨?_, ?_, fun w hw => ?_⟩
    · rw [step_gate]
      exact hs.holds
    · rw [step_gate]
      exact hs.caps.trans h.caps
    · rw [step_gate] at hw
      rw [step_gate, hs.epoch, step_started]
      exact h.waits_enqueue call hw (Settled.mem_enqueue hs hw)
  | drop part =>
    exact ⟨h.holds.release hx part, (h.holds.inForce_release hx part).1.trans h.caps, h.waits⟩
  | wake k now =>
    refine ⟨h.holds, h.caps, fun w hw => ?_⟩
    change w ∈ (k.drop r.gate.queue now).2.entries at hw
    have hkept (started : String → Option Nat) : follow (k.drop r.gate.queue now).2
        (k.drop r.gate.queue now).2 now started w.name = started w.name :=
      follow_of_kept hw (Queue.get_isSome_of_mem hw) now started
    have hold : ∃ v ∈ r.gate.queue.entries, v.name = w.name ∧ v.candidate = w.candidate := by
      revert hw
      unfold WakeOnRelease.drop
      split
      · intro hw
        obtain ⟨v, hv, rfl⟩ := List.mem_map.mp hw
        refine ⟨v, (List.mem_filter.mp hv).1, ?_⟩
        split <;> exact ⟨rfl, rfl⟩
      · exact fun hw => ⟨w, hw, rfl, rfl⟩
    obtain ⟨v, hv, hname, hcand⟩ := hold
    obtain ⟨start, hstart, hsince⟩ := h.waits v hv
    refine ⟨start, ?_, ?_⟩
    · change follow _ _ now r.started w.name = _
      rw [hkept, ← hname, hstart]
    · rw [← hcand, hsince]
      rfl

theorem bounded_new (cfg : LeafConfig) (budget : BudgetConfig) (epoch : Nat) :
    Bounded cfg budget (new budget epoch) :=
  ⟨Nat.zero_le _, fun _ => Nat.zero_le _, fun _ => Nat.zero_le _, fun _ _ => Nat.zero_le _,
    fun _ => Nat.zero_le _⟩

/-- Drops only free room. -/
theorem Bounded.of_sub {r' : GateRun} (h : Bounded cfg budget r)
    (hsub : r'.gate.budgets.live.Sub r.gate.budgets.live) (hscope : r'.scopeCap = r.scopeCap)
    (hdrift : r'.driftCap = r.driftCap) : Bounded cfg budget r' where
  global := hsub.scopes.length_le.trans h.global
  calibrate hcal := hsub.scopes.length_le.trans (h.calibrate hcal)
  scope s := by
    rw [hscope]
    exact (inScopeOf_sublist hsub.scopes s).trans (h.scope s)
  credential cred hon := (inScopeOf_sublist hsub.credentials cred).trans (h.credential cred hon)
  drift s := by
    rw [hdrift]
    exact (inScopeOf_sublist hsub.drift s).trans (h.drift s)

/-- One more permit of a scope, below its new cap; the other scopes keep theirs. -/
theorem scope_bound {l m : List BudgetPermit} {caps : String → Nat} {scope : String} {n : Nat}
    (hsub : l.Sublist m) (hcaps : ∀ s, inScopeOf m s ≤ caps s) (hlow : inScopeOf l scope < n)
    (s : String) : inScopeOf (⟨scope⟩ :: l) s ≤ setCount caps scope n s := by
  rw [inScopeOf_cons, setCount]
  by_cases hs : s = scope
  · rw [hs, if_pos rfl, if_pos rfl]
    exact hlow
  · rw [if_neg (Ne.symm hs), if_neg hs]
    exact (inScopeOf_sublist hsub s).trans (hcaps s)

theorem apply_setCount (f : Nat → Nat) (caps : String → Nat) (scope : String) (n : Nat)
    (s : String) :
    f (setCount caps scope n s) = setCount (fun s => f (caps s)) scope (f n) s := by
  unfold setCount
  split <;> rfl

theorem driftSlots_zero_share (n : Nat) : driftSlots n 0 = 0 := if_pos (.inl rfl)

/-- The drift permits after an admission, against the caps of the last drift calls. -/
theorem drift_bound {call : Call} {permit : LeafPermit} {g' : Gate} (h : Bounded cfg budget r)
    (hgranted : Granted cfg r.gate call permit g')
    (hlow : call.candidate.workClass = .drift → 0 < cfg.driftSharePermille →
      inScopeOf (atDrift cfg r.gate call).drift call.candidate.scope <
        driftSlots (r.declared call) cfg.driftSharePermille) (s : String) :
    inScopeOf (permit.drift.toList ++ (atDrift cfg r.gate call).drift) s ≤
      driftSlots ((if call.candidate.workClass = .drift then
        setCount r.driftCap call.candidate.scope (r.declared call) else r.driftCap) s)
          cfg.driftSharePermille := by
  have hsub : (atDrift cfg r.gate call).Sub r.gate.budgets.live := Live.drops_sub _ _
  have hbefore := (inScopeOf_sublist hsub.drift s).trans (h.drift s)
  rw [hgranted.driftPart]
  unfold driftPart
  by_cases hclass : call.candidate.workClass = .drift
  · by_cases hshare : 0 < cfg.driftSharePermille
    · rw [if_pos ⟨hclass, hshare⟩, if_pos hclass, apply_setCount (driftSlots · _)]
      exact scope_bound hsub.drift h.drift (hlow hclass hshare) s
    · have hoff : cfg.driftSharePermille = 0 := by omega
      rw [hoff, driftSlots_zero_share] at hbefore
      rw [if_neg (fun hand => hshare hand.2), hoff, driftSlots_zero_share]
      exact hbefore
  · rw [if_neg (fun hand => hclass hand.1), if_neg hclass]
    exact hbefore

/-- Where the declared caps decide, an admitted call finds room under them. -/
theorem granted_declared_room {call : Call} {permit : LeafPermit} {g' : Gate}
    (h : Granted cfg r.gate call permit g') (hdecides : DeclaredDecides cfg r (.enter call)) :
    inScopeOf (atScope cfg r.gate call).scopes call.candidate.scope < r.declared call ∧
      (call.candidate.workClass = .drift → 0 < cfg.driftSharePermille →
        inScopeOf (atDrift cfg r.gate call).drift call.candidate.scope <
          driftSlots (r.declared call) cfg.driftSharePermille) := by
  obtain ⟨hscope, hdrift⟩ := hdecides
  constructor
  · by_contra hfull
    rcases hscope (not_lt.mp hfull) with hforce | hsnap
    · exact absurd h.inForce (not_lt.mpr hforce)
    · exact absurd h.snapshot (not_lt.mpr hsnap)
  · intro hclass hshare
    by_contra hfull
    exact absurd (h.drift hclass hshare) (not_lt.mpr (hdrift hclass hshare (not_lt.mp hfull)))

theorem Bounded.enter (hx : x.Exact) (hs : Sound budget r) (h : Bounded cfg budget r) {call : Call}
    (hdecides : DeclaredDecides cfg r (.enter call)) :
    Bounded cfg budget (r.step x cfg (.enter call)) := by
  have hsettled : Settled cfg r.gate call (r.gate.enter x cfg call) := enter_settled hx hs.holds
  have houtcome := hsettled.outcome
  unfold GateRun.step
  dsimp only
  split
  · next permit hout =>
    rw [hout] at houtcome
    obtain ⟨hlow, hlowDrift⟩ := granted_declared_room houtcome hdecides
    have hsub : (atDrift cfg r.gate call).Sub r.gate.budgets.live := Live.drops_sub _ _
    have hlater := (atDrift_sub cfg r.gate call).scopes
    have hpool := houtcome.pool
    rw [hs.caps] at hpool
    refine ⟨?_, fun hcal => ?_, fun s => ?_, fun cred hon => ?_, fun s => ?_⟩
    · change (r.gate.enter x cfg call).2.budgets.live.scopes.length ≤ _
      rw [houtcome.live]
      exact (Nat.succ_le_succ hlater.length_le).trans hpool
    · change (r.gate.enter x cfg call).2.budgets.live.scopes.length ≤ _
      rw [houtcome.live]
      exact (Nat.succ_le_succ hlater.length_le).trans (houtcome.calibrated hcal)
    · change inScopeOf (r.gate.enter x cfg call).2.budgets.live.scopes s ≤ _
      rw [houtcome.live]
      change inScopeOf (permit.scope :: (atDrift cfg r.gate call).scopes) s ≤ _
      rw [houtcome.scopePart]
      exact scope_bound hsub.scopes h.scope
        ((inScopeOf_sublist hlater _).trans_lt hlow) s
    · by_cases hown : cred ∈ call.candidate.credential
      · exact houtcome.credential cred hown hon
      · change inScopeOf (r.gate.enter x cfg call).2.budgets.live.credentials cred ≤ _
        rw [houtcome.live]
        change inScopeOf
          (permit.credential.toList ++ (atDrift cfg r.gate call).credentials) cred ≤ _
        rw [houtcome.credentialPart, inScopeOf_append, credentialPart_elsewhere hown, Nat.zero_add]
        exact (inScopeOf_sublist hsub.credentials cred).trans (h.credential cred hon)
    · change inScopeOf (r.gate.enter x cfg call).2.budgets.live.drift s ≤ _
      rw [houtcome.live]
      exact drift_bound h houtcome hlowDrift s
  · next denial hout =>
    rw [hout] at houtcome
    obtain ⟨k, hlive⟩ := houtcome.live
    refine h.of_sub ?_ rfl rfl
    change (r.gate.enter x cfg call).2.budgets.live.Sub _
    rw [hlive]
    exact Live.drops_sub _ _

theorem Bounded.step (hx : x.Exact) (hs : Sound budget r) (h : Bounded cfg budget r)
    {e : GateEvent} (hdecides : DeclaredDecides cfg r e) : Bounded cfg budget (r.step x cfg e) := by
  cases e with
  | enter call => exact h.enter hx hs hdecides
  | drop part =>
    refine h.of_sub ?_ rfl rfl
    change (r.gate.budgets.release x part).live.Sub _
    rw [Budgets.release_live]
    exact Live.drop_sub _ _
  | wake k now => exact h.of_sub (.refl _) rfl rfl

theorem sameCounts_of_live {b b' : Budgets} (h : b.Holds [] [] []) (h' : b'.Holds [] [] [])
    (hlive : b.live = b'.live) : b.SameCounts b' where
  total := by
    refine h.scopes.runningGlobal.trans (.trans ?_ h'.scopes.runningGlobal.symm)
    rw [hlive]
  scope s := by
    refine (h.scopes.runningScope s).trans (.trans ?_ (h'.scopes.runningScope s).symm)
    rw [hlive]
  credential s := by
    refine (h.credentials.runningScope s).trans (.trans ?_ (h'.credentials.runningScope s).symm)
    rw [hlive]
  drift s := by
    refine (h.drift.runningScope s).trans (.trans ?_ (h'.drift.runningScope s).symm)
    rw [hlive]

theorem Sound.accounted (hx : x.Exact) (cfg : LeafConfig) (r : GateRun) (e : GateEvent)
    (h : Sound budget r) : Accounted x cfg r e := by
  cases e with
  | drop part => trivial
  | wake k now => trivial
  | enter call =>
    have hsettled : Settled cfg r.gate call (r.gate.enter x cfg call) := enter_settled hx h.holds
    have hafter : Sound budget (r.step x cfg (.enter call)) := h.step hx (.enter call)
    have houtcome := hsettled.outcome
    unfold Accounted
    dsimp only
    split
    · next permit g hout =>
      rw [hout] at houtcome
      exact ⟨houtcome.scopePart, houtcome.credentialPart, houtcome.driftPart,
        atDrift cfg r.gate call, Live.drops_sub _ _, houtcome.live⟩
    · next denial g hout =>
      rw [hout] at houtcome hsettled
      have hgate : (r.step x cfg (.enter call)).gate = g := by rw [step_gate, hout]
      obtain ⟨k, hlive⟩ := houtcome.live
      refine ⟨⟨k, ?_⟩, ?_⟩
      · exact sameCounts_of_live hsettled.holds (h.holds.releases hx _)
          (hlive.trans (Budgets.releases_live _ _).symm)
      · have hmem := mem_enqueue cfg r.gate call
        rw [← houtcome.queue, ← hgate] at hmem
        obtain ⟨start, hstart, hsince⟩ := hafter.waits _ hmem
        have hget := Queue.get_of_mem hmem
        rw [hgate] at hget hsince
        rw [hsettled.epoch] at hsince
        refine ⟨_, start, hget, hstart, ?_⟩
        rw [← hsince]
        rfl

/-- What a step keeps where the declared caps decide. -/
theorem within_step (hx : x.Exact) (r : GateRun) (e : GateEvent)
    (hdecides : DeclaredDecides cfg r e)
    (h : Sound budget r ∧ Bounded cfg budget r) :
    Sound budget (r.step x cfg e) ∧ Bounded cfg budget (r.step x cfg e) :=
  ⟨h.1.step hx e, h.2.step hx h.1 hdecides⟩

end Run

instance (cfg : LeafConfig) (r : GateRun) (e : GateEvent) : Decidable (DeclaredDecides cfg r e) :=
  match e with
  | .enter _ => inferInstanceAs (Decidable ((_ → _ ∨ _) ∧ (_ → _ → _ → _)))
  | .drop _ => isTrue trivial
  | .wake _ _ => isTrue trivial

/-- Every run whose calls are decided by the caps they declare stays within them, and the queued
calls of every run cost nothing. -/
theorem gate_stays_within_caps {x : Shigoto} (hx : x.Exact) (cfg : LeafConfig)
    (budget : BudgetConfig) (epoch : Nat) (es : List GateEvent)
    (hdecides : Along (step x cfg) (new budget epoch) es (DeclaredDecides cfg)) :
    Bounded cfg budget (run (step x cfg) (new budget epoch) es) ∧
      Along (step x cfg) (new budget epoch) es (Accounted x cfg) := by
  constructor
  · exact (run_invariant_of_along (within_step hx)
      ⟨sound_new budget epoch, bounded_new cfg budget epoch⟩ hdecides).2
  · exact along_of_invariant (fun r e h => Sound.step hx h e) (Sound.accounted hx cfg)
      (sound_new budget epoch) es

def twoPerCredential : LeafConfig := ⟨2, 500, false, true, .on⟩

def leaf (name : String) (credential : Option String) (workClass : WorkClass) : Candidate :=
  ⟨name, "s", credential, workClass, 0, 0⟩

def callOf (c : Candidate) (scopeCap : Option Nat) : GateEvent :=
  .enter ⟨c, scopeCap, 0, fun _ => []⟩

/-- Two leaves fill a scope, a third waits until a permit of it is dropped; one is drift. -/
def thirdWaits : List GateEvent :=
  [callOf (leaf "a" (some "g") .change) none, callOf (leaf "b" none .drift) none,
    callOf (leaf "c" (some "g") .change) none, .drop (.scope ⟨"s"⟩), .wake ⟨"s", .on, true⟩ 0,
    callOf (leaf "c" (some "g") .change) none]

theorem third_waits_within_caps :
    Bounded twoPerCredential .default
        (run (step unrankedShigoto twoPerCredential) (new .default 0) thirdWaits) ∧
      Along (step unrankedShigoto twoPerCredential) (new .default 0) thirdWaits
        (Accounted unrankedShigoto twoPerCredential) :=
  gate_stays_within_caps CapRun.unrankedShigoto_exact twoPerCredential .default 0 thirdWaits
    (by decide +kernel)

/-- A cap of four outlives the catalog that declared it, in the tree and with a leaf that waits for
its credential: a call without one is the third in a scope of two. -/
def capOutlived : List GateEvent :=
  [callOf (leaf "x" (some "g") .change) (some 4), callOf (leaf "y" (some "g") .change) (some 4),
    callOf (leaf "w" (some "g") .change) (some 4), callOf (leaf "n" none .change) none]

theorem outlived_cap_over_admits : ¬ ∀ (x : Shigoto), x.Exact → ∀ (cfg : LeafConfig)
    (budget : BudgetConfig) (epoch : Nat) (es : List GateEvent),
    Bounded cfg budget (run (step x cfg) (new budget epoch) es) ∧
      Along (step x cfg) (new budget epoch) es (Accounted x cfg) := by
  intro h
  have hscope := (h unrankedShigoto CapRun.unrankedShigoto_exact twoPerCredential .default 0
    capOutlived).1.scope "s"
  revert hscope
  decide +kernel

end GateRun

end LeafGate

end PangeaOperator
