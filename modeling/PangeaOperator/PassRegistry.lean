import PangeaOperator.Crd
import PangeaOperator.Lib.Run

/-!
# The registry of running passes

`controller/template/pass_registry.rs`. A reconcile registers under its template's key, its
heartbeats are noted there, and the watchdog may preempt it. A key is held by the pass that was
started last under it, until that pass ends or is preempted.
-/

namespace PangeaOperator

def passKey (ns name : String) : String := "/".intercalate [ns, name]

def StallState.redispatches : StallState → Bool
  | .pendingNotStarted | .heartbeatLost | .orphanedPhase | .noProgress => true
  | .queuedBehind | .unnamed => false

def localPassIsStuck (stall : StallState) (lastSign now heartbeat : Time) : Bool :=
  match stall with
  | .noProgress => true
  | other => other.redispatches && decide (now - lastSign > heartbeat)

structure PassEntry where
  id : Nat
  lastSign : Time
  deriving DecidableEq, Repr

/-- The registry, the registrations of the passes that have not ended, and the passes whose abort
handle was used. -/
structure PassRegistry where
  entries : String → Option PassEntry
  next : Nat
  registrations : List (Nat × String)
  aborted : List Nat

namespace PassRegistry

def new : PassRegistry := ⟨fun _ => none, 0, [], []⟩

variable (r : PassRegistry)

def setEntry (key : String) (e : Option PassEntry) : PassRegistry :=
  { r with entries := fun k => if k = key then e else r.entries k }

/-- How a pass begins. The counter and the map are not changed in one step, but nothing else reads
the counter. -/
def start (key : String) (now : Time) : PassRegistry :=
  { r.setEntry key (some ⟨r.next, now⟩) with
    next := r.next + 1
    registrations := (r.next, key) :: r.registrations }

def beatLanded (key : String) (at_ : Time) : PassRegistry :=
  match r.entries key with
  | some e => r.setEntry key (some { e with lastSign := max e.lastSign at_ })
  | none => r

def holds (key : String) : Bool := (r.entries key).isSome

/-- The registration of a pass that returns, or whose task is dropped. -/
def drop (id : Nat) (key : String) : PassRegistry :=
  let r' := { r with registrations := r.registrations.filter (·.1 ≠ id) }
  if (r.entries key).any (·.id == id) then r'.setEntry key none else r'

def preempt (key : String) (stall : StallState) (now heartbeat : Time) : Bool × PassRegistry :=
  match r.entries key with
  | some e =>
    if localPassIsStuck stall e.lastSign now heartbeat then
      (true, { r.setEntry key none with aborted := e.id :: r.aborted })
    else (false, r)
  | none => (false, r)

end PassRegistry

/-- What happens to the registry: passes start and end, their heartbeats land, the watchdog
preempts. -/
inductive RegistryEvent where
  | start (key : String) (now : Time)
  | beatLanded (key : String) (at_ : Time)
  | ended (id : Nat)
  | preempt (key : String) (stall : StallState) (now heartbeat : Time)
  deriving DecidableEq, Repr

open PassRegistry

/-- A pass that has no registration left does not end again. -/
def registryStep (r : PassRegistry) : RegistryEvent → PassRegistry
  | .start key now => r.start key now
  | .beatLanded key at_ => r.beatLanded key at_
  | .ended id =>
    match r.registrations.find? (·.1 == id) with
    | some (_, key) => r.drop id key
    | none => r
  | .preempt key stall now heartbeat => (r.preempt key stall now heartbeat).2

def registryAfter (es : List RegistryEvent) : PassRegistry := run registryStep .new es

@[simp] theorem registryAfter_nil : registryAfter [] = .new := rfl

@[simp] theorem registryAfter_concat (es : List RegistryEvent) (e : RegistryEvent) :
    registryAfter (es ++ [e]) = registryStep (registryAfter es) e := run_append _ _ _ _

/-! ## What the registry keeps -/

structure PassRegistry.Sound (r : PassRegistry) : Prop where
  registered : ∀ i k, (i, k) ∈ r.registrations → i < r.next
  apart : ∀ i k k', (i, k) ∈ r.registrations → (i, k') ∈ r.registrations → k = k'
  entered : ∀ k e, r.entries k = some e → (e.id, k) ∈ r.registrations
  preempted : ∀ i ∈ r.aborted, i < r.next
  live : ∀ k e, r.entries k = some e → e.id ∉ r.aborted

namespace PassRegistry

variable {r : PassRegistry}

@[simp] theorem entries_setEntry (key : String) (e : Option PassEntry) (k : String) :
    (r.setEntry key e).entries k = if k = key then e else r.entries k := rfl

theorem beatLanded_cases (r : PassRegistry) (key : String) (at_ : Time) :
    (r.entries key = none ∧ r.beatLanded key at_ = r) ∨
      ∃ e, r.entries key = some e ∧
        r.beatLanded key at_ = r.setEntry key (some { e with lastSign := max e.lastSign at_ }) := by
  unfold beatLanded
  cases h : r.entries key with
  | none => exact .inl ⟨rfl, rfl⟩
  | some e => exact .inr ⟨e, rfl, rfl⟩

theorem preempt_cases (r : PassRegistry) (key : String) (stall : StallState)
    (now heartbeat : Time) :
    r.preempt key stall now heartbeat = (false, r) ∨
      ∃ e, r.entries key = some e ∧ localPassIsStuck stall e.lastSign now heartbeat = true ∧
        r.preempt key stall now heartbeat =
          (true, { r.setEntry key none with aborted := e.id :: r.aborted }) := by
  unfold preempt
  cases h : r.entries key with
  | none => exact .inl rfl
  | some e =>
    cases hs : localPassIsStuck stall e.lastSign now heartbeat with
    | false => exact .inl (by simp [hs])
    | true => exact .inr ⟨e, rfl, hs, by simp [hs]⟩

/-- A registration that ends takes its own entry away and no other. -/
theorem ended_cases (h : r.Sound) (id : Nat) :
    registryStep r (.ended id) = r ∧ (∀ k e, r.entries k = some e → e.id ≠ id) ∨
      ∃ key, (id, key) ∈ r.registrations ∧ registryStep r (.ended id) = r.drop id key := by
  simp only [registryStep]
  cases hf : r.registrations.find? (·.1 == id) with
  | none =>
    refine .inl ⟨rfl, ?_⟩
    rintro k e he rfl
    simpa using List.find?_eq_none.mp hf _ (h.entered k e he)
  | some p =>
    obtain ⟨i, key⟩ := p
    have hi := List.find?_some hf
    simp only [beq_iff_eq] at hi
    subst hi
    exact .inr ⟨key, List.mem_of_find?_eq_some hf, rfl⟩

theorem entries_drop (h : r.Sound) {id : Nat} {key : String} (hmem : (id, key) ∈ r.registrations)
    (k : String) (e : PassEntry) :
    (r.drop id key).entries k = some e ↔ r.entries k = some e ∧ e.id ≠ id := by
  have hkey : ∀ k' e', r.entries k' = some e' → e'.id = id → k' = key := by
    intro k' e' he' hid
    exact h.apart id k' key (hid ▸ h.entered k' e' he') hmem
  unfold drop
  split
  · next hany =>
    obtain ⟨d, hd, hdid⟩ : ∃ d, r.entries key = some d ∧ d.id = id := by
      simpa [Option.any_eq_true] using hany
    simp only [entries_setEntry]
    split
    · next hk =>
      subst hk
      refine iff_of_false (by simp) ?_
      rintro ⟨he, hne⟩
      rw [hd] at he
      exact hne (Option.some.inj he ▸ hdid)
    · next hk =>
      exact ⟨fun he => ⟨he, fun hid => hk (hkey k e he hid)⟩, And.left⟩
  · next hany =>
    refine ⟨fun he => ⟨he, fun hid => hany ?_⟩, And.left⟩
    obtain rfl := hkey k e he hid
    simp [show r.entries k = some e from he, hid]

theorem sound_new : Sound .new where
  registered := by simp [new]
  apart := by simp [new]
  entered := by simp [new]
  preempted := by simp [new]
  live := by simp [new]

theorem Sound.start (h : r.Sound) (key : String) (now : Time) : (r.start key now).Sound where
  registered i k hik := by
    rcases List.mem_cons.mp hik with he | hik
    · cases he
      exact Nat.lt_succ_self _
    · exact Nat.lt_succ_of_lt (h.registered i k hik)
  apart i k k' hik hik' := by
    rcases List.mem_cons.mp hik with he | hik <;> rcases List.mem_cons.mp hik' with he' | hik'
    · cases he
      cases he'
      rfl
    · cases he
      exact absurd (h.registered _ _ hik') (Nat.lt_irrefl _)
    · cases he'
      exact absurd (h.registered _ _ hik) (Nat.lt_irrefl _)
    · exact h.apart i k k' hik hik'
  entered k e he := by
    simp only [PassRegistry.start, entries_setEntry] at he
    split at he
    · next hk =>
      cases he
      exact hk ▸ List.mem_cons_self
    · exact List.mem_cons_of_mem _ (h.entered k e he)
  preempted i hi := Nat.lt_succ_of_lt (h.preempted i hi)
  live k e he := by
    simp only [PassRegistry.start, entries_setEntry] at he
    split at he
    · cases he
      exact fun hmem => Nat.lt_irrefl _ (h.preempted _ hmem)
    · exact h.live k e he

/-- Taking an entry away, or noting a sign in it, keeps the rest. -/
theorem Sound.setEntry (h : r.Sound) (key : String) {e : Option PassEntry}
    (he : ∀ d, e = some d → ∃ d', r.entries key = some d' ∧ d'.id = d.id) :
    (r.setEntry key e).Sound where
  registered := h.registered
  apart := h.apart
  entered k d hd := by
    simp only [entries_setEntry] at hd
    split at hd
    · next hk =>
      obtain ⟨d', hd', hid⟩ := he d hd
      exact hk.symm ▸ hid ▸ h.entered key d' hd'
    · exact h.entered k d hd
  preempted := h.preempted
  live k d hd := by
    simp only [entries_setEntry] at hd
    split at hd
    · obtain ⟨d', hd', hid⟩ := he d hd
      exact hid ▸ h.live key d' hd'
    · exact h.live k d hd

theorem Sound.drop (h : r.Sound) {id : Nat} {key : String} (hmem : (id, key) ∈ r.registrations) :
    (r.drop id key).Sound := by
  have hentries := entries_drop h hmem
  have hregs : (r.drop id key).registrations = r.registrations.filter (·.1 ≠ id) := by
    unfold PassRegistry.drop
    split <;> rfl
  have hrest : (r.drop id key).next = r.next ∧ (r.drop id key).aborted = r.aborted := by
    unfold PassRegistry.drop
    split <;> exact ⟨rfl, rfl⟩
  refine ⟨fun i k hik => ?_, fun i k k' hik hik' => ?_, fun k e he => ?_, fun i hi => ?_,
    fun k e he => ?_⟩
  · rw [hregs] at hik
    exact hrest.1 ▸ h.registered i k (List.mem_filter.mp hik).1
  · rw [hregs] at hik hik'
    exact h.apart i k k' (List.mem_filter.mp hik).1 (List.mem_filter.mp hik').1
  · obtain ⟨he, hne⟩ := (hentries k e).mp he
    rw [hregs]
    exact List.mem_filter.mpr ⟨h.entered k e he, by simpa using hne⟩
  · rw [hrest.2] at hi
    exact hrest.1 ▸ h.preempted i hi
  · rw [hrest.2]
    exact h.live k e ((hentries k e).mp he).1

theorem Sound.step (h : r.Sound) (e : RegistryEvent) : (registryStep r e).Sound := by
  cases e with
  | start key now => exact h.start key now
  | beatLanded key at_ =>
    rcases beatLanded_cases r key at_ with ⟨-, heq⟩ | ⟨e, he, heq⟩ <;> simp only [registryStep, heq]
    · exact h
    · refine h.setEntry key (fun d hd => ⟨e, he, ?_⟩)
      cases hd
      rfl
  | ended id =>
    rcases ended_cases h id with ⟨heq, -⟩ | ⟨key, hmem, heq⟩ <;> rw [heq]
    · exact h
    · exact h.drop hmem
  | preempt key stall now heartbeat =>
    rcases preempt_cases r key stall now heartbeat with heq | ⟨e, he, -, heq⟩ <;>
      simp only [registryStep, heq]
    · exact h
    · have hset := h.setEntry key (e := none) (by simp)
      refine ⟨hset.registered, hset.apart, hset.entered, ?_, ?_⟩
      · intro i hi
        rcases List.mem_cons.mp hi with rfl | hi
        · exact h.registered _ _ (h.entered key e he)
        · exact h.preempted i hi
      · intro k d hd hmem
        have hk : k ≠ key := by
          rintro rfl
          simp at hd
        simp only [entries_setEntry, hk, if_false] at hd
        rcases List.mem_cons.mp hmem with hid | hmem
        · exact hk (h.apart _ _ _ (hid ▸ h.entered k d hd) (h.entered key e he))
        · exact h.live k d hd hmem

theorem sound_registryAfter (es : List RegistryEvent) : (registryAfter es).Sound :=
  run_invariant (fun _ e h => h.step e) sound_new es

end PassRegistry

/-! ## Which pass holds a key -/

/-- The time at which a heartbeat under the key landed. -/
def RegistryEvent.beat (key : String) : RegistryEvent → Option Time
  | .beatLanded k at_ => if k = key then some at_ else none
  | _ => none

theorem beats_concat (key : String) (es : List RegistryEvent) (x : RegistryEvent) :
    (es ++ [x]).filterMap (RegistryEvent.beat key) =
      es.filterMap (RegistryEvent.beat key) ++ (x.beat key).toList := by
  rw [List.filterMap_append]
  cases h : x.beat key <;> simp [h]

/-- This pass was started last under the key and has neither ended nor been preempted. The signs of
it are its start and the heartbeats that landed under the key since. -/
def CurrentPass (es : List RegistryEvent) (key : String) (id : Nat) (signs : List Time) : Prop :=
  ∃ before now after, es = before ++ .start key now :: after ∧ (registryAfter before).next = id ∧
    (∀ t, .start key t ∉ after) ∧ .ended id ∉ after ∧ id ∉ (registryAfter es).aborted ∧
    signs = now :: after.filterMap (RegistryEvent.beat key)

/-- The entry shows the current pass with its last sign. -/
def LatestPass (es : List RegistryEvent) (key : String) (e : PassEntry) : Prop :=
  ∃ signs, CurrentPass es key e.id signs ∧ signs.maximum = e.lastSign

theorem append_start_eq {es before after : List RegistryEvent} {x : RegistryEvent} {key : String}
    {now : Time} : es ++ [x] = before ++ .start key now :: after ↔
      (es = before ∧ x = .start key now ∧ after = []) ∨
        ∃ after', after = after' ++ [x] ∧ es = before ++ .start key now :: after' := by
  constructor
  · intro h
    rcases List.eq_nil_or_concat after with rfl | ⟨after', y, rfl⟩
    · obtain ⟨hes, hx⟩ := List.append_inj' h rfl
      exact .inl ⟨hes, (List.cons.inj hx).1, rfl⟩
    · rw [List.concat_eq_append, ← List.cons_append, ← List.append_assoc] at h
      obtain ⟨hes, hx⟩ := List.append_inj' h rfl
      obtain rfl := (List.cons.inj hx).1
      exact .inr ⟨after', by simp, hes⟩
  · rintro (⟨rfl, rfl, rfl⟩ | ⟨after', rfl, rfl⟩)
    · rfl
    · simp

theorem current_start {es : List RegistryEvent} {k key : String} {now : Time} {id : Nat}
    {signs : List Time} : CurrentPass (es ++ [.start k now]) key id signs ↔
      if k = key then id = (registryAfter es).next ∧ signs = [now]
      else CurrentPass es key id signs := by
  have haborted : (registryAfter (es ++ [.start k now])).aborted = (registryAfter es).aborted := by
    rw [registryAfter_concat]
    rfl
  have hfresh : (registryAfter es).next ∉ (registryAfter es).aborted := fun h =>
    Nat.lt_irrefl _ ((sound_registryAfter es).preempted _ h)
  split
  · next hk =>
    subst hk
    constructor
    · rintro ⟨before, t, after, heq, hid, hstart, -, -, hsigns⟩
      rcases append_start_eq.mp heq with ⟨rfl, hx, rfl⟩ | ⟨after', rfl, -⟩
      · cases hx
        exact ⟨hid.symm, hsigns⟩
      · exact absurd (List.mem_append_right _ List.mem_cons_self) (hstart now)
    · rintro ⟨rfl, rfl⟩
      exact ⟨es, now, [], rfl, rfl, by simp, by simp, haborted ▸ hfresh, rfl⟩
  · next hk =>
    constructor
    · rintro ⟨before, t, after, heq, hid, hstart, hended, hlive, hsigns⟩
      rcases append_start_eq.mp heq with ⟨-, hx, -⟩ | ⟨after', rfl, rfl⟩
      · cases hx
        exact absurd rfl hk
      · refine ⟨before, t, after', rfl, hid, fun u hu => hstart u (List.mem_append_left _ hu),
          fun hu => hended (List.mem_append_left _ hu), haborted ▸ hlive, ?_⟩
        rw [hsigns, beats_concat]
        simp [RegistryEvent.beat]
    · rintro ⟨before, t, after, rfl, hid, hstart, hended, hlive, hsigns⟩
      refine ⟨before, t, after ++ [.start k now], by simp, hid, ?_, ?_, haborted ▸ hlive, ?_⟩
      · intro u hu
        rcases List.mem_append.mp hu with hu | hu
        · exact hstart u hu
        · cases List.mem_singleton.mp hu
          exact hk rfl
      · simpa using hended
      · rw [hsigns, beats_concat]
        simp [RegistryEvent.beat]

theorem aborted_registryStep (r : PassRegistry) (x : RegistryEvent) {i : Nat} (h : i ∈ r.aborted) :
    i ∈ (registryStep r x).aborted := by
  cases x with
  | start key now => exact h
  | beatLanded key at_ =>
    rcases beatLanded_cases r key at_ with ⟨-, heq⟩ | ⟨e, -, heq⟩ <;>
      · simp only [registryStep, heq]
        exact h
  | ended id =>
    simp only [registryStep]
    split
    · unfold drop
      split <;> exact h
    · exact h
  | preempt key stall now heartbeat =>
    rcases preempt_cases r key stall now heartbeat with heq | ⟨e, -, -, heq⟩ <;>
      simp only [registryStep, heq]
    · exact h
    · exact List.mem_cons_of_mem _ h

/-- An event that starts no pass leaves the current passes, but for those it ends or preempts. -/
theorem current_concat {es : List RegistryEvent} {x : RegistryEvent} (hx : ∀ k t, x ≠ .start k t)
    {key : String} {id : Nat} {signs : List Time} : CurrentPass (es ++ [x]) key id signs ↔
      x ≠ .ended id ∧ id ∉ (registryStep (registryAfter es) x).aborted ∧
        ∃ signs', CurrentPass es key id signs' ∧ signs = signs' ++ (x.beat key).toList := by
  constructor
  · rintro ⟨before, now, after, heq, hid, hstart, hended, hlive, rfl⟩
    rcases append_start_eq.mp heq with ⟨-, hstarted, -⟩ | ⟨after', rfl, rfl⟩
    · exact absurd hstarted (hx key now)
    · rw [registryAfter_concat] at hlive
      refine ⟨?_, hlive, now :: after'.filterMap (RegistryEvent.beat key), ?_, by
        rw [beats_concat, List.cons_append]⟩
      · rintro rfl
        exact hended (by simp)
      · exact ⟨before, now, after', rfl, hid, fun t ht => hstart t (List.mem_append_left _ ht),
          fun h => hended (List.mem_append_left _ h),
          fun h => hlive (aborted_registryStep _ x h), rfl⟩
  · rintro ⟨hended, hlive, signs', ⟨before, now, after, rfl, hid, hstart, hended', -, rfl⟩, rfl⟩
    refine ⟨before, now, after ++ [x], by simp, hid, ?_, ?_, ?_, ?_⟩
    · intro t ht
      rcases List.mem_append.mp ht with ht | ht
      · exact hstart t ht
      · exact hx key t (List.mem_singleton.mp ht).symm
    · intro h
      rcases List.mem_append.mp h with h | h
      · exact hended' h
      · exact hended (List.mem_singleton.mp h).symm
    · rwa [registryAfter_concat]
    · rw [beats_concat, List.cons_append]

theorem latest_concat {es : List RegistryEvent} {x : RegistryEvent} (hx : ∀ k t, x ≠ .start k t)
    {key : String} (hbeat : x.beat key = none) {e : PassEntry} : LatestPass (es ++ [x]) key e ↔
      x ≠ .ended e.id ∧ e.id ∉ (registryStep (registryAfter es) x).aborted ∧
        LatestPass es key e := by
  constructor
  · rintro ⟨signs, hc, hlast⟩
    obtain ⟨hended, hlive, signs', hc', rfl⟩ := (current_concat hx).mp hc
    rw [hbeat, Option.toList_none, List.append_nil] at hlast
    exact ⟨hended, hlive, signs', hc', hlast⟩
  · rintro ⟨hended, hlive, signs, hc, hlast⟩
    refine ⟨signs, (current_concat hx).mpr ⟨hended, hlive, signs, hc, ?_⟩, hlast⟩
    simp [hbeat]

theorem latest_of_current {es : List RegistryEvent} {key : String} {id : Nat} {signs : List Time}
    (h : CurrentPass es key id signs) : ∃ m : Time, signs.maximum = (m : WithBot Time) ∧
      LatestPass es key ⟨id, m⟩ := by
  have hne : signs ≠ [] := by
    obtain ⟨before, now, after, -, -, -, -, -, rfl⟩ := h
    exact List.cons_ne_nil _ _
  obtain ⟨m, hm⟩ := WithBot.ne_bot_iff_exists.mp (List.maximum_ne_bot_of_ne_nil hne)
  exact ⟨m, hm.symm, signs, h, hm.symm⟩

theorem latest_beat {es : List RegistryEvent} {key : String} {at_ : Time}
    (ih : ∀ k e, (registryAfter es).entries k = some e ↔ LatestPass es k e) (e : PassEntry) :
    (registryStep (registryAfter es) (.beatLanded key at_)).entries key = some e ↔
      LatestPass (es ++ [.beatLanded key at_]) key e := by
  have hbeat : (RegistryEvent.beatLanded key at_).beat key = some at_ := by
    simp [RegistryEvent.beat]
  rcases beatLanded_cases (registryAfter es) key at_ with ⟨hnone, heq⟩ | ⟨d, hd, heq⟩
  · simp only [registryStep, heq, hnone]
    refine iff_of_false (by simp) ?_
    rintro ⟨signs, hc, -⟩
    obtain ⟨-, -, signs', hc', -⟩ := (current_concat (by simp)).mp hc
    obtain ⟨m, -, hlatest⟩ := latest_of_current hc'
    rw [← ih, hnone] at hlatest
    cases hlatest
  · simp only [registryStep, heq, entries_setEntry, if_true]
    constructor
    · rintro h
      cases h
      obtain ⟨signs, hc, hlast⟩ := (ih key d).mp hd
      refine ⟨signs ++ [at_], (current_concat (by simp)).mpr ⟨by simp, ?_, signs, hc, ?_⟩, ?_⟩
      · simp only [registryStep, heq]
        exact (sound_registryAfter es).live key d hd
      · rw [hbeat, Option.toList_some]
      · rw [List.maximum_concat, hlast]
        rfl
    · rintro ⟨signs, hc, hlast⟩
      obtain ⟨-, -, signs', hc', rfl⟩ := (current_concat (by simp)).mp hc
      obtain ⟨m, hm, hlatest⟩ := latest_of_current hc'
      rw [← ih, hd] at hlatest
      obtain rfl := Option.some.inj hlatest
      rw [hbeat, Option.toList_some, List.maximum_concat, hm] at hlast
      have hmax : max m at_ = e.lastSign := WithBot.coe_inj.mp hlast
      obtain ⟨id, lastSign⟩ := e
      obtain rfl := hmax
      rfl

/-- The registry holds exactly the current passes, each with its last sign. -/
theorem entries_iff (es : List RegistryEvent) (key : String) (e : PassEntry) :
    (registryAfter es).entries key = some e ↔ LatestPass es key e := by
  induction es using List.reverseRecOn generalizing key e with
  | nil =>
    refine iff_of_false (by simp [PassRegistry.new]) ?_
    rintro ⟨signs, ⟨before, now, after, heq, -⟩, -⟩
    simp at heq
  | append_singleton es x ih =>
    have hsound := sound_registryAfter es
    rw [registryAfter_concat]
    cases x with
    | start k now =>
      simp only [registryStep, PassRegistry.start, entries_setEntry]
      split
      · next hk =>
        subst hk
        constructor
        · rintro h
          cases h
          refine ⟨[now], ?_, List.maximum_singleton now⟩
          rw [current_start, if_pos rfl]
          exact ⟨rfl, rfl⟩
        · rintro ⟨signs, hc, hlast⟩
          rw [current_start, if_pos rfl] at hc
          obtain ⟨hid, rfl⟩ := hc
          have hnow : now = e.lastSign := WithBot.coe_inj.mp hlast
          obtain ⟨id, lastSign⟩ := e
          obtain rfl := hid
          obtain rfl := hnow
          rfl
      · next hk =>
        rw [ih]
        constructor <;> rintro ⟨signs, hc, h⟩ <;> refine ⟨signs, ?_, h⟩
        · rwa [current_start, if_neg (Ne.symm hk)]
        · rwa [current_start, if_neg (Ne.symm hk)] at hc
    | beatLanded k at_ =>
      by_cases hk : k = key
      · subst hk
        exact latest_beat ih e
      · have hbeat : (RegistryEvent.beatLanded k at_).beat key = none := by
          simp [RegistryEvent.beat, hk]
        rw [latest_concat (by simp) hbeat, ← ih]
        rcases beatLanded_cases (registryAfter es) k at_ with ⟨-, heq⟩ | ⟨d, -, heq⟩ <;>
          simp only [registryStep, heq, entries_setEntry, Ne.symm hk, if_false]
        · exact ⟨fun he => ⟨by simp, hsound.live key e he, he⟩, fun h => h.2.2⟩
        · exact ⟨fun he => ⟨by simp, hsound.live key e he, he⟩, fun h => h.2.2⟩
    | ended id =>
      rw [latest_concat (by simp) rfl, ← ih]
      rcases ended_cases hsound id with ⟨heq, hother⟩ | ⟨k, hmem, heq⟩ <;> rw [heq]
      · exact ⟨fun he => ⟨by simpa using (hother key e he).symm, hsound.live key e he, he⟩,
          fun h => h.2.2⟩
      · rw [entries_drop hsound hmem]
        have haborted : ((registryAfter es).drop id k).aborted = (registryAfter es).aborted := by
          unfold drop
          split <;> rfl
        rw [haborted]
        exact ⟨fun h => ⟨by simpa using h.2.symm, hsound.live key e h.1, h.1⟩,
          fun h => ⟨h.2.2, by simpa using Ne.symm h.1⟩⟩
    | preempt k stall now heartbeat =>
      rw [latest_concat (by simp) rfl, ← ih]
      rcases preempt_cases (registryAfter es) k stall now heartbeat with heq | ⟨d, hd, -, heq⟩ <;>
        simp only [registryStep, heq]
      · exact ⟨fun he => ⟨by simp, hsound.live key e he, he⟩, fun h => h.2.2⟩
      · simp only [entries_setEntry, List.mem_cons, not_or]
        split
        · next hk =>
          subst hk
          refine iff_of_false (by simp) ?_
          rintro ⟨-, ⟨hne, -⟩, he⟩
          exact hne (congrArg PassEntry.id (Option.some.inj (he.symm.trans hd)))
        · next hk =>
          refine ⟨fun he => ⟨by simp, ⟨fun hid => hk ?_, hsound.live key e he⟩, he⟩,
            fun h => h.2.2⟩
          exact hsound.apart _ _ _ (hid ▸ hsound.entered key e he) (hsound.entered k d hd)

/-- No heartbeat and no start of the pass lies within the deadline, or it makes no progress. -/
def PassStuck (stall : StallState) (now heartbeat : Time) (signs : List Time) : Prop :=
  stall = .noProgress ∨ (stall.redispatches = true ∧ ∀ s ∈ signs, now - s > heartbeat)

theorem localPassIsStuck_iff {stall : StallState} {last now heartbeat : Time} {signs : List Time}
    (h : signs.maximum = (last : WithBot Time)) :
    localPassIsStuck stall last now heartbeat = true ↔ PassStuck stall now heartbeat signs := by
  obtain ⟨hmem, hle⟩ := List.maximum_eq_coe_iff.mp h
  have hall : now - last > heartbeat ↔ ∀ s ∈ signs, now - s > heartbeat :=
    ⟨fun hlast s hs => lt_of_lt_of_le hlast (Int.sub_le_sub_left (hle s hs) now),
      fun hs => hs last hmem⟩
  cases stall <;> simp [localPassIsStuck, PassStuck, StallState.redispatches, ← hall]

theorem holds_iff (es : List RegistryEvent) (key : String) :
    (registryAfter es).holds key = true ↔ ∃ id signs, CurrentPass es key id signs := by
  rw [holds, Option.isSome_iff_exists]
  constructor
  · rintro ⟨e, he⟩
    obtain ⟨signs, hc, -⟩ := (entries_iff es key e).mp he
    exact ⟨e.id, signs, hc⟩
  · rintro ⟨id, signs, hc⟩
    obtain ⟨m, -, hlatest⟩ := latest_of_current hc
    exact ⟨_, (entries_iff es key _).mpr hlatest⟩

theorem preempt_aborted_iff (es : List RegistryEvent) (key : String) (stall : StallState)
    (now heartbeat : Time) (id : Nat) :
    ((registryAfter es).preempt key stall now heartbeat).2.aborted =
        id :: (registryAfter es).aborted ↔
      ∃ signs, CurrentPass es key id signs ∧ PassStuck stall now heartbeat signs := by
  constructor
  · intro h
    rcases preempt_cases (registryAfter es) key stall now heartbeat with heq | ⟨e, he, hs, heq⟩ <;>
      rw [heq] at h
    · simp at h
    · obtain rfl : e.id = id := (List.cons.inj h).1
      obtain ⟨signs, hc, hlast⟩ := (entries_iff es key e).mp he
      exact ⟨signs, hc, (localPassIsStuck_iff hlast).mp hs⟩
  · rintro ⟨signs, hc, hs⟩
    obtain ⟨m, hm, hlatest⟩ := latest_of_current hc
    have he := (entries_iff es key ⟨id, m⟩).mpr hlatest
    have hstuck := (localPassIsStuck_iff hm).mpr hs
    simp [preempt, he, hstuck]

/-- After any run of passes, heartbeats and preemptions, a key is held exactly while the pass
started last under it goes on, and the watchdog's next preemption aborts that pass, if it is stuck,
and no other. -/
theorem holds_current (es : List RegistryEvent) (key : String) :
    ((registryAfter es).holds key = true ↔ ∃ id signs, CurrentPass es key id signs) ∧
      ∀ stall now heartbeat id, ((registryAfter es).preempt key stall now heartbeat).2.aborted =
          id :: (registryAfter es).aborted ↔
        ∃ signs, CurrentPass es key id signs ∧ PassStuck stall now heartbeat signs :=
  ⟨holds_iff es key,
    fun stall now heartbeat id => preempt_aborted_iff es key stall now heartbeat id⟩

/-- The end of a superseded pass leaves the key to the newer one. -/
example : (registryAfter [.start "ns/t" 0, .start "ns/t" 5, .ended 0]).entries "ns/t" =
    some ⟨1, 5⟩ := by
  decide

end PangeaOperator
