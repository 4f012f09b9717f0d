import PangeaOperator.BareApply

/-!
# The imports of the conflict rounds

How often a run of the rounds of `controller/conflict.rs` imports an address. What was tried is
left out when a round collects its candidates, and marked while they are imported; so the
rounds never repeat an import, and a round does where an output lists an address twice.
-/

namespace PangeaOperator

open Json Applying

/-- The addresses among the calls that are imported, in order. -/
def importAddresses (events : List ApplyEvent) : List String :=
  events.filterMap (fun e => match e with
    | .importCall address _ => some address
    | _ => none)

theorem importAddresses_append (es fs : List ApplyEvent) :
    importAddresses (es ++ fs) = importAddresses es ++ importAddresses fs := List.filterMap_append

namespace ConflictRounds

variable (valueText : Doc → String) (parseValue : String → Option Doc)
  (fromJson : String → Option Plan) (destroyProtection : Bool) (c : ConflictInput)

/-- The id that a round derives for an address. -/
def roundId (round : Nat) (address : String) : Option String :=
  conflictImportId valueText c (gatherAttrs parseValue (c.rounds round)) address

/-- The import call for a wanted address, and whether it succeeds. -/
def importOf (round : Nat) (want : (String × ConflictKind) × Nat) : Option (String × Bool) :=
  (roundId valueText parseValue c round want.1.1).map
    (fun _ => (want.1.1, ((c.rounds round).imports want.2).any (fun r => r.success)))

/-- The import calls of a round, with whether they succeed. -/
def importLog (round : Nat) (st : ConflictState) : List (String × Bool) :=
  (wantedConflicts c st).zipIdx.filterMap (importOf valueText parseValue c round)

/-- The addresses of the calls that succeed. -/
def successes (log : List (String × Bool)) : List String := (log.filter Prod.snd).map Prod.fst

/-- What a part of a run adds to a state: calls, successes, the addresses it has tried, applies. -/
structure Adds (st st' : ConflictState) (log : List (String × Bool)) (tried : List String)
    (applies : Nat) : Prop where
  calls : importAddresses st'.events = importAddresses st.events ++ log.map Prod.fst
  imported : st'.imported = st.imported ++ successes log
  tried : ∀ a, a ∈ st'.tried ↔ a ∈ st.tried ∨ a ∈ tried
  applies : (applyCalls st'.events).length = (applyCalls st.events).length + applies

/-- It does not matter to what a run adds which round the state is in. -/
theorem Adds.restart {start st st' : ConflictState} {log : List (String × Bool)}
    {tried : List String} {applies : Nat} (h : Adds start st' log tried applies)
    (hevents : start.events = st.events) (himported : start.imported = st.imported)
    (htried : start.tried = st.tried) : Adds st st' log tried applies := by
  refine ⟨?_, ?_, fun a => ?_, ?_⟩
  · rw [h.calls, hevents]
  · rw [h.imported, himported]
  · rw [h.tried, htried]
  · rw [h.applies, hevents]

theorem Adds.nothing {st st' : ConflictState} (hevents : st'.events = st.events)
    (himported : st'.imported = st.imported) (htried : st'.tried = st.tried) :
    Adds st st' [] [] 0 := by
  refine ⟨?_, ?_, ?_, ?_⟩
  · simp [hevents]
  · simp [himported, successes]
  · simp [htried]
  · simp [hevents]

/-- One more call, which is no import. -/
theorem Adds.snoc {st st' st'' : ConflictState} {log : List (String × Bool)} {tried : List String}
    {applies : Nat} (h : Adds st st' log tried applies) {e : ApplyEvent}
    (he : importAddresses [e] = []) (hevents : st''.events = st'.events ++ [e])
    (himported : st''.imported = st'.imported) (htried : st''.tried = st'.tried) :
    Adds st st'' log tried (applies + (applyCalls [e]).length) := by
  refine ⟨?_, ?_, ?_, ?_⟩
  · rw [hevents, importAddresses_append, he, List.append_nil, h.calls]
  · rw [himported, h.imported]
  · rw [htried]
    exact h.tried
  · rw [hevents, applyCalls_append, List.length_append, h.applies, Nat.add_assoc]

theorem successes_append (l l' : List (String × Bool)) :
    successes (l ++ l') = successes l ++ successes l' := by simp [successes]

theorem Adds.then {st st' st'' : ConflictState} {log log' : List (String × Bool)}
    {tried tried' : List String} {applies applies' : Nat} (h : Adds st st' log tried applies)
    (h' : Adds st' st'' log' tried' applies') :
    Adds st st'' (log ++ log') (tried ++ tried') (applies + applies') := by
  refine ⟨?_, ?_, ?_, ?_⟩
  · rw [h'.calls, h.calls, List.map_append, List.append_assoc]
  · rw [h'.imported, h.imported, successes_append, List.append_assoc]
  · intro a
    rw [h'.tried, h.tried, List.mem_append, or_assoc]
  · rw [h'.applies, h.applies, Nat.add_assoc]

theorem mem_successes {log : List (String × Bool)} {a : String} :
    a ∈ successes log ↔ (a, true) ∈ log := by
  simp [successes]

section Round

variable (round : Nat)

/-- One wanted address: its call is logged if it has an id, and it is tried either way. -/
theorem adds_adoptConflict (acc : ConflictState × Nat) (want : (String × ConflictKind) × Nat) :
    let acc' := adoptConflict valueText c (gatherAttrs parseValue (c.rounds round))
      (c.rounds round).imports acc want
    let log := (importOf valueText parseValue c round want).toList
    Adds acc.1 acc'.1 log [want.1.1] 0 ∧ acc'.2 = acc.2 + (successes log).length := by
  unfold adoptConflict importOf roundId
  dsimp only
  cases conflictImportId valueText c (gatherAttrs parseValue (c.rounds round)) want.1.1 with
  | none =>
    refine ⟨⟨?_, ?_, ?_, ?_⟩, ?_⟩ <;> simp [successes, or_comm]
  | some id =>
    by_cases hsuccess : ((c.rounds round).imports want.2).any (fun r => r.success) = true
    · simp only [hsuccess, if_true]
      refine ⟨⟨?_, ?_, ?_, ?_⟩, ?_⟩ <;>
        simp [successes, importAddresses, applyCalls, or_comm]
    · simp only [hsuccess]
      refine ⟨⟨?_, ?_, ?_, ?_⟩, ?_⟩ <;>
        simp [successes, importAddresses, applyCalls, or_comm]

theorem adds_foldl (wants : List ((String × ConflictKind) × Nat)) (acc : ConflictState × Nat) :
    let acc' := wants.foldl (adoptConflict valueText c (gatherAttrs parseValue (c.rounds round))
      (c.rounds round).imports) acc
    let log := wants.filterMap (importOf valueText parseValue c round)
    Adds acc.1 acc'.1 log (wants.map (fun want => want.1.1)) 0 ∧
      acc'.2 = acc.2 + (successes log).length := by
  induction wants generalizing acc with
  | nil => exact ⟨Adds.nothing rfl rfl rfl, by simp [successes]⟩
  | cons want wants ih =>
    obtain ⟨hhead, hcount⟩ := adds_adoptConflict valueText parseValue c round acc want
    obtain ⟨htail, hcounts⟩ := ih (adoptConflict valueText c
      (gatherAttrs parseValue (c.rounds round)) (c.rounds round).imports acc want)
    have hlog : (want :: wants).filterMap (importOf valueText parseValue c round) =
        (importOf valueText parseValue c round want).toList ++
          wants.filterMap (importOf valueText parseValue c round) := by
      cases h : importOf valueText parseValue c round want <;> simp [h]
    dsimp only
    rw [List.foldl_cons, hlog, hcounts, hcount, successes_append, List.length_append]
    exact ⟨hhead.then htail, by omega⟩

/-- The imports of a round are its log, and its count is that of the successes. -/
theorem adds_adoptConflicts (st : ConflictState) :
    let adopted := adoptConflicts valueText parseValue c round st
    Adds st adopted.1 (importLog valueText parseValue c round st)
        ((wantedConflicts c st).map Prod.fst) 0 ∧
      adopted.2 = (successes (importLog valueText parseValue c round st)).length := by
  obtain ⟨hadds, hcount⟩ := adds_foldl valueText parseValue c round (wantedConflicts c st).zipIdx
    ({ st with roundsRun := round + 1 }, 0)
  have htried : (wantedConflicts c st).zipIdx.map (fun want => want.1.1) =
      (wantedConflicts c st).map Prod.fst := by
    rw [← Function.comp_def Prod.fst, ← List.map_map, List.zipIdx_map_fst]
  rw [htried] at hadds
  rw [Nat.zero_add] at hcount
  exact ⟨hadds.restart rfl rfl rfl, hcount⟩

/-- The apply of a round, if its gate lets it through. -/
theorem adds_reapply (a : RoundAnswers) (st : ConflictState) :
    ∃ applies ≤ 1, Adds st (reapply fromJson destroyProtection a st).1 [] [] applies := by
  unfold reapply
  dsimp only
  have hset : Adds st (if destroyProtection = true then
      { st with events := st.events ++
          [.freshActionSet (freshActionSetBeforeBareApply fromJson a.reads)] }
      else st) [] [] 0 := by
    split
    · have hnothing : Adds st st [] [] 0 := .nothing rfl rfl rfl
      exact hnothing.snoc (e := .freshActionSet _) rfl rfl rfl rfl
    · exact Adds.nothing rfl rfl rfl
  split
  · exact ⟨0, by omega, hset.snoc (e := .block _) rfl rfl rfl rfl⟩
  · refine ⟨1, Nat.le_refl 1, ?_⟩
    split
    · exact hset.snoc (e := .apply .bare) rfl rfl rfl rfl
    · exact hset.snoc (e := .apply .bare) rfl rfl rfl rfl

/-- A round adds its log, tries all it wants, and applies at most once, after a success. -/
theorem adds_conflictRound (st : ConflictState) :
    ∃ applies ≤ 1, (0 < applies → successes (importLog valueText parseValue c round st) ≠ []) ∧
      Adds st (conflictRound valueText parseValue fromJson destroyProtection c round st).1
        (importLog valueText parseValue c round st) ((wantedConflicts c st).map Prod.fst)
        applies := by
  obtain ⟨hadds, hcount⟩ := adds_adoptConflicts valueText parseValue c round st
  unfold conflictRound
  dsimp only
  split
  · next hnone =>
    have hwanted : wantedConflicts c st = [] := List.isEmpty_iff.mp hnone
    refine ⟨0, by omega, fun h => absurd h (by omega), ?_⟩
    have hnothing : Adds st st [] [] 0 := .nothing rfl rfl rfl
    simpa [importLog, hwanted] using hnothing
  · split
    · exact ⟨0, by omega, fun h => absurd h (by omega), hadds⟩
    · next hany =>
      obtain ⟨applies, hle, hreapply⟩ := adds_reapply fromJson destroyProtection (c.rounds round)
        (adoptConflicts valueText parseValue c round st).1
      refine ⟨applies, hle, fun _ hnone => ?_, by simpa using hadds.then hreapply⟩
      rw [hcount, hnone] at hany
      exact hany rfl

/-- An apply among the calls that a round adds. -/
def Reapplies (st : ConflictState) : Prop :=
  (applyCalls st.events).length <
    (applyCalls (conflictRound valueText parseValue fromJson destroyProtection c round
      st).1.events).length

theorem exists_success_of_reapplies {st : ConflictState}
    (h : Reapplies valueText parseValue fromJson destroyProtection c round st) :
    ∃ a, (a, true) ∈ importLog valueText parseValue c round st := by
  obtain ⟨applies, -, hsuccess, hadds⟩ :=
    adds_conflictRound valueText parseValue fromJson destroyProtection c round st
  rw [Reapplies, hadds.applies] at h
  obtain ⟨a, ha⟩ := List.exists_mem_of_ne_nil _ (hsuccess (by omega))
  exact ⟨a, mem_successes.mp ha⟩

end Round

/-- The rounds of a run with the states that they start from. -/
def roundStarts : Nat → Nat → ConflictState → List (Nat × ConflictState)
  | 0, _, _ => []
  | left + 1, round, st =>
    let next := conflictRound valueText parseValue fromJson destroyProtection c round st
    (round, st) :: if next.2 then roundStarts left (round + 1) next.1 else []

/-- The import calls of a run, round after round. -/
def runLog (starts : List (Nat × ConflictState)) : List (String × Bool) :=
  starts.flatMap (fun start => importLog valueText parseValue c start.1 start.2)

/-- The output that a round reads lists no address twice among the conflicts that the policy
adopts, that have not been tried and that have an id to import. -/
abbrev ListedOnce (round : Nat) (st : ConflictState) : Prop :=
  (((Conflict.classifyApplyConflicts (Conflict.combinedOutput st.result)).filter (fun conflict =>
    conflict.1 ∉ st.tried ∧
    c.effectivePolicy.resolutionFor (Conflict.resourceTypeOf conflict.1) conflict.2 = .adopt ∧
    (roundId valueText parseValue c round conflict.1).isSome)).map Prod.fst).Nodup

/-- The logged addresses of a round are those of the conflicts it adopts and has an id for. -/
theorem map_fst_importLog (round : Nat) (st : ConflictState) :
    (importLog valueText parseValue c round st).map Prod.fst =
      ((Conflict.classifyApplyConflicts (Conflict.combinedOutput st.result)).filter
        (fun conflict => conflict.1 ∉ st.tried ∧
          c.effectivePolicy.resolutionFor (Conflict.resourceTypeOf conflict.1) conflict.2 =
            .adopt ∧
          (roundId valueText parseValue c round conflict.1).isSome)).map Prod.fst := by
  have hlog (wants : List (String × ConflictKind)) (n : Nat) :
      ((wants.zipIdx n).filterMap (importOf valueText parseValue c round)).map Prod.fst =
        (wants.filter (fun want =>
          (roundId valueText parseValue c round want.1).isSome)).map Prod.fst := by
    induction wants generalizing n with
    | nil => rfl
    | cons want wants ih =>
      cases hid : roundId valueText parseValue c round want.1 <;> simp [importOf, hid, ih]
  rw [importLog, hlog, wantedConflicts, List.filter_filter]
  congr 1
  refine List.filter_congr (fun conflict _ => ?_)
  simp only [Bool.decide_and, decide_not, Bool.decide_eq_true]
  grind

theorem not_tried_of_mem_importLog {round : Nat} {st : ConflictState} {a : String}
    (h : a ∈ (importLog valueText parseValue c round st).map Prod.fst) :
    a ∉ st.tried ∧ a ∈ (wantedConflicts c st).map Prod.fst := by
  rw [map_fst_importLog] at h
  obtain ⟨conflict, hconflict, rfl⟩ := List.mem_map.mp h
  obtain ⟨hlisted, hwanted⟩ := List.mem_filter.mp hconflict
  simp only [decide_eq_true_eq] at hwanted
  refine ⟨hwanted.1, List.mem_map_of_mem (List.mem_filter.mpr ⟨hlisted, ?_⟩)⟩
  simp [hwanted.1, hwanted.2.1]

/-- A whole run adds the log of its rounds, and no more applies than there are rounds. -/
theorem adds_conflictRounds (left round : Nat) (st : ConflictState) :
    let starts := roundStarts valueText parseValue fromJson destroyProtection c left round st
    let final := conflictRounds valueText parseValue fromJson destroyProtection c left round st
    ∃ tried, ∃ applies ≤ left, Adds st final (runLog valueText parseValue c starts) tried
      applies := by
  induction left generalizing round st with
  | zero => exact ⟨[], 0, Nat.le_refl 0, Adds.nothing rfl rfl rfl⟩
  | succ left ih =>
    obtain ⟨applies, hle, -, hadds⟩ :=
      adds_conflictRound valueText parseValue fromJson destroyProtection c round st
    unfold roundStarts conflictRounds
    dsimp only
    cases (conflictRound valueText parseValue fromJson destroyProtection c round st).2 with
    | false =>
      refine ⟨(wantedConflicts c st).map Prod.fst, applies, by omega, ?_⟩
      simpa [runLog] using hadds
    | true =>
      obtain ⟨tried, applies', hle', hrest⟩ := ih (round + 1)
        (conflictRound valueText parseValue fromJson destroyProtection c round st).1
      refine ⟨(wantedConflicts c st).map Prod.fst ++ tried, applies + applies', by omega, ?_⟩
      simpa [runLog] using hadds.then hrest

/-- The calls of a round are distinct, and apart from those before it, just in case the output it
reads lists its conflicts once. -/
theorem nodup_conflictRound_iff (round : Nat) {st : ConflictState}
    (htried : ∀ a ∈ importAddresses st.events, a ∈ st.tried)
    (hnodup : (importAddresses st.events).Nodup) :
    (importAddresses (conflictRound valueText parseValue fromJson destroyProtection c round
      st).1.events).Nodup ↔ ListedOnce valueText parseValue c round st := by
  obtain ⟨applies, -, -, hadds⟩ :=
    adds_conflictRound valueText parseValue fromJson destroyProtection c round st
  rw [hadds.calls, List.nodup_append', ListedOnce, ← map_fst_importLog]
  constructor
  · exact fun h => h.2.1
  · intro hlog
    refine ⟨hnodup, hlog, fun a hold hnew => ?_⟩
    exact (not_tried_of_mem_importLog valueText parseValue c hnew).1 (htried a hold)

/-- The calls of a run are distinct just in case all its rounds read such outputs: what an earlier
round has called was tried, and is left out. -/
theorem nodup_conflictRounds_iff (left round : Nat) (st : ConflictState)
    (htried : ∀ a ∈ importAddresses st.events, a ∈ st.tried)
    (hnodup : (importAddresses st.events).Nodup) :
    (importAddresses (conflictRounds valueText parseValue fromJson destroyProtection c left round
      st).events).Nodup ↔
    ∀ start ∈ roundStarts valueText parseValue fromJson destroyProtection c left round st,
      ListedOnce valueText parseValue c start.1 start.2 := by
  induction left generalizing round st with
  | zero => simp [roundStarts, conflictRounds, hnodup]
  | succ left ih =>
    have hround := nodup_conflictRound_iff valueText parseValue fromJson destroyProtection c round
      htried hnodup
    obtain ⟨applies, -, -, hadds⟩ :=
      adds_conflictRound valueText parseValue fromJson destroyProtection c round st
    have htried' : ∀ a ∈ importAddresses (conflictRound valueText parseValue fromJson
        destroyProtection c round st).1.events, a ∈ (conflictRound valueText parseValue fromJson
        destroyProtection c round st).1.tried := by
      intro a ha
      rw [hadds.calls, List.mem_append] at ha
      rw [hadds.tried]
      rcases ha with ha | ha
      · exact .inl (htried a ha)
      · exact .inr (not_tried_of_mem_importLog valueText parseValue c ha).2
    unfold roundStarts conflictRounds
    dsimp only
    cases (conflictRound valueText parseValue fromJson destroyProtection c round st).2 with
    | false => simpa using hround
    | true =>
      obtain ⟨_, _, -, hrest⟩ := adds_conflictRounds valueText parseValue fromJson
        destroyProtection c left (round + 1)
        (conflictRound valueText parseValue fromJson destroyProtection c round st).1
      simp only [if_true, List.forall_mem_cons]
      constructor
      · intro hfinal
        have hsofar : (importAddresses (conflictRound valueText parseValue fromJson
            destroyProtection c round st).1.events).Nodup := by
          rw [hrest.calls] at hfinal
          exact (List.nodup_append'.mp hfinal).1
        exact ⟨hround.mp hsofar, (ih (round + 1) _ htried' hsofar).mp hfinal⟩
      · rintro ⟨honce, hall⟩
        exact (ih (round + 1) _ htried' (hround.mpr honce)).mpr hall

/-- What the rounds of a failed apply are to do: no address is imported twice, there are no more
applies than rounds, each of them follows a success of its own round, and the list of the
imported addresses is that of the successes, each once. -/
structure ImportsOnce (failed : ApplyResult) (final : ConflictState) : Prop where
  calls : (importAddresses final.events).Nodup
  applies : (applyCalls final.events).length ≤ c.effectivePolicy.rounds
  afterSuccess : ∀ start ∈ roundStarts valueText parseValue fromJson destroyProtection c
      c.effectivePolicy.rounds 0 { result := failed },
    Reapplies valueText parseValue fromJson destroyProtection c start.1 start.2 →
      ∃ a, (a, true) ∈ importLog valueText parseValue c start.1 start.2
  nodup : final.imported.Nodup
  imported : ∀ a, a ∈ final.imported ↔ ∃ start ∈ roundStarts valueText parseValue fromJson
      destroyProtection c c.effectivePolicy.rounds 0 { result := failed },
    (a, true) ∈ importLog valueText parseValue c start.1 start.2

/-- They do so just in case no round reads an output that lists an address twice among the
conflicts it adopts. -/
theorem importsOnce_iff {failed : ApplyResult} {final : ConflictState}
    (h : resolveConflictsPostApply valueText parseValue fromJson destroyProtection c failed =
      some (some final)) :
    ImportsOnce valueText parseValue fromJson destroyProtection c failed final ↔
      ∀ start ∈ roundStarts valueText parseValue fromJson destroyProtection c
          c.effectivePolicy.rounds 0 { result := failed },
        ListedOnce valueText parseValue c start.1 start.2 := by
  have hfinal : final = conflictRounds valueText parseValue fromJson destroyProtection c
      c.effectivePolicy.rounds 0 { result := failed } := by
    unfold resolveConflictsPostApply at h
    split at h
    · cases h
    · split at h
      · cases h
      · exact (Option.some.inj (Option.some.inj h)).symm
  subst hfinal
  have hiff := nodup_conflictRounds_iff valueText parseValue fromJson destroyProtection c
    c.effectivePolicy.rounds 0 { result := failed } (by simp [importAddresses])
    (by simp [importAddresses])
  obtain ⟨tried, applies, hle, hadds⟩ := adds_conflictRounds valueText parseValue fromJson
    destroyProtection c c.effectivePolicy.rounds 0 { result := failed }
  constructor
  · intro honce
    exact hiff.mp honce.calls
  · intro hall
    have hcalls := hiff.mpr hall
    refine ⟨hcalls, ?_, ?_, ?_, ?_⟩
    · rw [hadds.applies]
      simpa [applyCalls] using hle
    · intro start _ hreapplies
      exact exists_success_of_reapplies valueText parseValue fromJson destroyProtection c _
        hreapplies
    · rw [hadds.calls] at hcalls
      rw [hadds.imported]
      exact (List.nodup_append'.mp hcalls).2.1.sublist (List.filter_sublist.map Prod.fst)
    · intro a
      rw [hadds.imported]
      simp [runLog, mem_successes]

end ConflictRounds

/-- Two repositories that exist already. -/
def twoRepositories : ApplyResult :=
  ⟨false, "", "Error: 422 name already exists\n  with github_repository.docs,\n" ++
    "Error: 422 name already exists\n  with github_repository.site,\n"⟩

theorem two_repositories_imported_once :
    (importAddresses (conflictRounds (fun _ => "") (fun _ => none) (fun _ => none) false
      adoptRepository adoptRepository.effectivePolicy.rounds 0
      { result := twoRepositories }).events).Nodup :=
  ((ConflictRounds.importsOnce_iff (fun _ => "") (fun _ => none) (fun _ => none) false
    adoptRepository rfl).mpr (by decide +kernel)).calls

/-- One repository that two diagnostics of an apply name. -/
def namedTwice : ApplyResult :=
  ⟨false, "", "Error: 422 name already exists\n  with github_repository.docs,\n" ++
    "Error: could not read back\n  with github_repository.docs,\n" ++
    "Error: 422 name already exists\n  with github_repository.docs,\n"⟩

/-- It is imported twice in one round, and listed twice. -/
theorem namedTwice_imported_twice :
    ((resolveConflictsPostApply (fun _ => "") (fun _ => none) (fun _ => none) false
      adoptRepository namedTwice).bind id).map (fun final =>
        (importAddresses final.events, final.imported)) =
      some (["github_repository.docs", "github_repository.docs"],
        ["github_repository.docs", "github_repository.docs"]) := by
  decide +kernel

end PangeaOperator
