import PangeaOperator.Lib.Run
import PangeaOperator.Ready

/-!
# Runs of drift checks

One drift check after the other, each on the status the one before left. Of a check's
drift list the status keeps the first entries only, and never its fingerprint; the next
check compares with what is kept.
-/

namespace PangeaOperator

open Json SipHash

variable (fromJson : String → Option Plan)

def driftStep (stored : Doc) (c : DriftCheck) : Doc :=
  match Status.read stored with
  | none => stored
  | some s => mergeWrites stored (driftCheck fromJson s c).writes

/-- The verdict of a check on a stored status. -/
def driftVerdict (stored : Doc) (c : DriftCheck) : Option SettlingOutcome :=
  (Status.read stored).bind (fun s => (driftCheck fromJson s c).outcome)

/-- The fields of the drift list that a check compares. -/
def comparedFields : List StatusField := [.driftDetails, .driftFingerprint]

section Frame

variable {f : StatusField} (hf : f ∈ comparedFields) (s : Status) (o : Observed)
include hf

theorem frames_of_names {fs : List (StatusField × Option Doc)} (hn : (fs.map Prod.fst).Nodup)
    (hd : ∀ g ∈ comparedFields, g ∉ fs.map Prod.fst) : Frames (statusBody fs) f :=
  frames_statusBody hn (hd f hf)

theorem not_mem_phaseWritten : f ∉ phaseWritten := by
  have h : ∀ g ∈ comparedFields, g ∉ phaseWritten := by decide
  exact h f hf

theorem frames_opening (c : DriftCheck) : ∀ body ∈ c.opening s, Frames body f := by
  intro body hb
  simp only [DriftCheck.opening, updateDriftCheckTimestamp, List.mem_append, List.mem_cons,
    List.not_mem_nil, or_false] at hb
  rcases hb with (rfl | rfl) | hb
  · exact frames_beginPass s c.begun (not_mem_phaseWritten hf) .planning
  · exact frames_of_names hf (by simp) (by simp [comparedFields])
  · split at hb
    · simp at hb
    · rw [List.mem_singleton.mp hb]
      exact frames_of_names hf (by simp) (by simp [comparedFields])

theorem frames_settle (outcome : SettlingOutcome) (policy : SettlingPolicy) (interval : Time) :
    ∀ body ∈ (settle s outcome policy interval o).1, Frames body f := by
  intro body hb
  unfold settle at hb
  split at hb
  · simp at hb
  · rw [List.mem_singleton.mp hb]
    exact frames_updatePhase s o (not_mem_phaseWritten hf) .drifted
  · rw [List.mem_singleton.mp hb]
    exact frames_updatePhase s o (not_mem_phaseWritten hf) .drifted
  · rw [List.mem_singleton.mp hb]
    exact frames_updatePhaseWithError s o (not_mem_phaseWritten hf) .failed _

end Frame

section Step

variable {stored : Doc} {s : Status} (c : DriftCheck)

theorem reads_driftCheck (hs : Status.read stored = some s) :
    Reads (mergeWrites stored (driftCheck fromJson s c).writes) := by
  refine reads_mergeWrites ?_ ⟨s, hs⟩
  intro body hb
  simp only [driftCheck, DriftCheck.opening, List.mem_append, List.mem_cons, List.not_mem_nil,
    or_false] at hb
  rcases hb with (((rfl | rfl) | hb) | hb) | hb
  · exact keepsReadable_beginPass s c.begun .planning
  · exact keepsReadable_finishSettledPass s c.finished _
  · exact keepsReadable_updateDriftCheckTimestamp s c.stamped body hb
  · exact keepsReadable_settlingStatusPatch s _ _ _ _ _ body (Option.mem_toList.mp hb)
  · unfold settle at hb
    split at hb
    · simp at hb
    · rw [List.mem_singleton.mp hb]
      exact keepsReadable_updatePhase s c.entered .drifted
    · rw [List.mem_singleton.mp hb]
      exact keepsReadable_updatePhase s c.entered .drifted
    · rw [List.mem_singleton.mp hb]
      exact keepsReadable_updatePhaseWithError s c.entered .failed _

/-- The list a settling update builds is the capped drift list, whatever the snapshot held. -/
theorem settlingStatus_driftDetails (policy : SettlingPolicy) (cycles : Nat)
    (prior : Option String) (drifts : List DriftDetail) (freshness : Option Freshness)
    (live : Int) (now : Time) :
    (settlingStatus s (evaluateSettling policy cycles prior drifts) drifts freshness live
      now).driftDetails = drifts.take driftStatusCap := by
  cases drifts with
  | nil =>
    have h := (evaluateSettling_eq_settled_iff policy cycles prior []).mpr rfl
    simp [settlingStatus, h]
  | cons d ds => simp [settlingStatus]

/-- A check either rewrites the list, or stored the same one already. -/
theorem settling_cases :
    (c.settling fromJson s = none ∧ s.driftDetails = (c.drifts fromJson).take driftStatusCap) ∨
      ∃ target : Status,
        c.settling fromJson s = some (scopedStatusPatch target settlingStatusFields) ∧
          target.driftDetails = (c.drifts fromJson).take driftStatusCap := by
  have htarget := settlingStatus_driftDetails (s := s) c.policy s.consecutiveDriftCycles
    (priorFingerprint s) (c.drifts fromJson) c.freshness c.settled.live c.settled.now
  by_cases hn : settlingStatusNeedsPatch s (settlingStatus s (c.outcome fromJson s)
      (c.drifts fromJson) c.freshness c.settled.live c.settled.now) = true
  · exact .inr ⟨_, if_pos hn, htarget⟩
  · refine .inl ⟨if_neg hn, ?_⟩
    by_contra hne
    rw [← htarget] at hne
    simp [settlingStatusNeedsPatch, DriftCheck.outcome, hne] at hn

/-- No write of a check names the fingerprint. -/
theorem frames_driftFingerprint :
    ∀ body ∈ (driftCheck fromJson s c).writes, Frames body .driftFingerprint := by
  have hf : StatusField.driftFingerprint ∈ comparedFields := by simp [comparedFields]
  intro body hb
  simp only [driftCheck, List.mem_append] at hb
  rcases hb with (hb | hb) | hb
  · exact frames_opening hf s c body hb
  · rcases settling_cases fromJson (s := s) c with ⟨hn, -⟩ | ⟨target, ht, -⟩
    · rw [hn] at hb
      simp at hb
    · rw [ht] at hb
      rw [List.mem_singleton.mp hb]
      exact frames_statusBody (by simp [settlingStatusFields]) (by simp [settlingStatusFields])
  · exact frames_settle hf s c.entered _ _ _ body hb

theorem take_driftDetails_settling {mid : Doc}
    (hmid : StatusField.driftDetails.slot.take (mid.get? "driftDetails") = some s.driftDetails) :
    StatusField.driftDetails.slot.take
        ((mergeWrites mid (c.settling fromJson s).toList).get? "driftDetails") =
      some ((c.drifts fromJson).take driftStatusCap) := by
  rcases settling_cases fromJson (s := s) c with ⟨hn, hd⟩ | ⟨target, ht, hd⟩
  · rw [hn, ← hd]
    exact hmid
  · rw [ht, ← hd]
    have hget := get?_patchStatus mid (settlingStatusFields.map (fun f => (f, target.wire f)))
      (by simp [settlingStatusFields]) .driftDetails
    simp only [Option.toList_some, mergeWrites_cons, mergeWrites_nil]
    rw [scopedStatusPatch]
    refine Eq.trans (congrArg _ hget) ?_
    rw [sent_scoped, if_pos (by simp [settlingStatusFields])]
    exact withDefault_take_mergeSlot (Codec.list_flat _) [] _ target.driftDetails

/-- A check leaves the capped list and no fingerprint. -/
theorem read_driftStep (hs : Status.read stored = some s) (hfp : s.driftFingerprint = none) :
    ∃ t, Status.read (driftStep fromJson stored c) = some t ∧ t.driftFingerprint = none ∧
      t.driftDetails = (c.drifts fromJson).take driftStatusCap := by
  have hstep : driftStep fromJson stored c =
      mergeWrites stored (driftCheck fromJson s c).writes := by
    simp [driftStep, hs]
  obtain ⟨t, ht⟩ := reads_driftCheck fromJson c hs
  have hfields := Status.read_eq_some_iff.mp hs
  have hread := Status.read_eq_some_iff.mp ht
  refine ⟨t, hstep ▸ ht, ?_, ?_⟩
  · have hsame := get?_mergeWrites (frames_driftFingerprint fromJson c (s := s)) stored
    have hkept := (congrArg _ hsame).trans (hfields .driftFingerprint)
    exact (Option.some.inj ((hread .driftFingerprint).symm.trans hkept)).trans hfp
  · have hdetails : StatusField.driftDetails ∈ comparedFields := by simp [comparedFields]
    have hnew := hread .driftDetails
    simp only [driftCheck, mergeWrites_append] at hnew
    rw [get?_mergeWrites (frames_settle hdetails s c.entered _ _ _)] at hnew
    have hmid := get?_mergeWrites (frames_opening hdetails s c) stored
    have hkept := take_driftDetails_settling fromJson c
      ((congrArg _ hmid).trans (hfields .driftDetails))
    exact Option.some.inj (hnew.symm.trans hkept)

end Step

/-- What a check leaves in the status it ran on. -/
def Left (stored : Doc) (drifts : List DriftDetail) : Prop :=
  ∃ t, Status.read stored = some t ∧ t.driftFingerprint = none ∧
    t.driftDetails = drifts.take driftStatusCap

/-- A document with no fingerprint, the invariant of a run of checks. -/
def NoFingerprint (stored : Doc) : Prop :=
  ∃ t, Status.read stored = some t ∧ t.driftFingerprint = none

theorem left_driftStep {stored : Doc} (h : NoFingerprint stored) (c : DriftCheck) :
    Left (driftStep fromJson stored c) (c.drifts fromJson) := by
  obtain ⟨s, hs, hfp⟩ := h
  exact read_driftStep fromJson c hs hfp

theorem noFingerprint_run {s : Status} (hs : s.driftFingerprint = none) (cs : List DriftCheck) :
    NoFingerprint (run (driftStep fromJson) s.toJson cs) := by
  refine run_invariant ?_ ⟨s, s.read_toJson, hs⟩ cs
  intro stored c h
  obtain ⟨t, ht, hfp, -⟩ := left_driftStep fromJson h c
  exact ⟨t, ht, hfp⟩

/-- The byte strings a run feeds the hasher: of each list, and of the part of it that is kept. -/
def hashedBytes (cs : List DriftCheck) : Set (List UInt8) :=
  {b | ∃ c ∈ cs, b = fingerprintBytes (c.drifts fromJson) ∨
    b = fingerprintBytes ((c.drifts fromJson).take driftStatusCap)}

/-- Every check with drift is stuck by fingerprint exactly when it found the drift set of the
check before it. -/
def StuckExactly (s : Status) (cs : List DriftCheck) : Prop :=
  ∀ pre c c' post, cs = pre ++ c :: c' :: post → c'.drifts fromJson ≠ [] →
    ∃ outcome,
      driftVerdict fromJson (run (driftStep fromJson) s.toJson (pre ++ [c])) c' = some outcome ∧
        (outcome.IsStuckByFingerprint ↔
          driftSet (c'.drifts fromJson) = driftSet (c.drifts fromJson))

/-- Two lists the comparison tells apart: the first is kept whole, and their entries are not
confused in the hashed texts. -/
structure Comparable (a b : List DriftDetail) : Prop where
  kept : a.length ≤ driftStatusCap
  apart : Apart a b

theorem priorFingerprint_of_left {t : Status} {drifts : List DriftDetail}
    (hfp : t.driftFingerprint = none) (hd : t.driftDetails = drifts.take driftStatusCap)
    (hk : drifts.length ≤ driftStatusCap) :
    priorFingerprint t = if drifts = [] then none else some (fingerprint drifts) := by
  rw [List.take_of_length_le hk] at hd
  simp [priorFingerprint, hfp, hd]

theorem stuck_after_left {stored : Doc} {a : List DriftDetail} {c : DriftCheck}
    (hl : Left stored a) (hc : Comparable a (c.drifts fromJson)) (hne : c.drifts fromJson ≠ [])
    (hash : Set.InjOn sipHash {fingerprintBytes a, fingerprintBytes (c.drifts fromJson)}) :
    ∃ outcome, driftVerdict fromJson stored c = some outcome ∧
      (outcome.IsStuckByFingerprint ↔ driftSet (c.drifts fromJson) = driftSet a) := by
  obtain ⟨t, ht, hfp, hd⟩ := hl
  refine ⟨c.outcome fromJson t, by simp [driftVerdict, ht, driftCheck], ?_⟩
  rw [DriftCheck.outcome, isStuckByFingerprint_iff _ _ _ hne,
    priorFingerprint_of_left hfp hd hc.kept]
  by_cases ha : a = []
  · subst ha
    have hset : driftSet (c.drifts fromJson) ≠ driftSet [] := by
      intro h
      have hcard := congrArg Multiset.card h
      simp only [driftSet, Multiset.coe_card, List.length_map, List.length_nil] at hcard
      exact hne (List.length_eq_zero_iff.mp hcard)
    simp [hset]
  · rw [if_neg ha, Option.some.injEq, fingerprint_eq_iff hash, fingerprintTexts_eq_iff hc.apart,
      eq_comm]

/-- Stuck detection compares whole drift sets in every run whose consecutive lists are
comparable. -/
theorem stuck_by_fingerprint_iff_same_drift_set (s : Status) (cs : List DriftCheck)
    (hs : s.driftFingerprint = none) (hash : Set.InjOn sipHash (hashedBytes fromJson cs))
    (hcmp : ∀ pre c c' post, cs = pre ++ c :: c' :: post →
      Comparable (c.drifts fromJson) (c'.drifts fromJson)) :
    StuckExactly fromJson s cs := by
  intro pre c c' post he hne
  have hpair : {fingerprintBytes (c.drifts fromJson), fingerprintBytes (c'.drifts fromJson)} ⊆
      hashedBytes fromJson cs := by
    intro b hb
    rcases hb with rfl | rfl
    · exact ⟨c, by simp [he], .inl rfl⟩
    · exact ⟨c', by simp [he], .inl rfl⟩
  refine stuck_after_left fromJson ?_ (hcmp pre c c' post he) hne (hash.mono hpair)
  rw [run_append, run_cons, run_nil]
  exact left_driftStep fromJson (noFingerprint_run fromJson hs pre) c

/-- An artifact with updates of `web.0`, `web.1` and so on. -/
def webArtifact (n : Nat) : CycleArtifact where
  actionDistribution := { update := n }
  resourceChanges := (List.range n).map (fun i => ⟨"web." ++ toString i, .update, .functional⟩)

def webCheck (n : Nat) : DriftCheck :=
  { failedPlanInput.check with plan := ⟨some (webArtifact n), "", true, true, ""⟩ }

def webDrifts (n : Nat) : List DriftDetail :=
  (List.range n).map (fun i => ⟨"web." ++ toString i, "update", "modify", [], none, none⟩)

theorem webCheck_drifts (n : Nat) : (webCheck n).drifts (fun _ => none) = webDrifts n := by
  simp [DriftCheck.drifts, webCheck, driftDetailsFromPlanResult, driftDetailsFromPlanResultSync,
    planSummaryAndDriftsFromArtifact, CycleArtifact.driftDetails, webArtifact, webDrifts,
    List.filter_map, List.map_map, Function.comp_def, TypedResourceChange.driftDetail,
    planActionToTerraformStr, severityToRisk]

/-- The same single drift twice is stuck. -/
theorem repeated_drift_is_stuck :
    StuckExactly (fun _ => none) {} [webCheck 1, webCheck 1] ∧
      (webCheck 1).drifts (fun _ => none) ≠ [] := by
  refine ⟨?_, by rw [webCheck_drifts]; decide⟩
  refine stuck_by_fingerprint_iff_same_drift_set _ _ _ rfl ?_ ?_
  · refine Set.Subsingleton.injOn ?_ _
    rintro b ⟨c, hc, hb⟩ b' ⟨c', hc', hb'⟩
    have hc1 : c = webCheck 1 := by simpa using hc
    have hc2 : c' = webCheck 1 := by simpa using hc'
    subst hc1 hc2
    rw [webCheck_drifts, List.take_of_length_le (by decide), or_self] at hb hb'
    rw [hb, hb']
  · intro pre c c' post he
    have hmem (x : DriftCheck) (hx : x ∈ pre ++ c :: c' :: post) : x = webCheck 1 := by
      rw [← he] at hx
      simpa using hx
    rw [hmem c (by simp), hmem c' (by simp), webCheck_drifts]
    exact ⟨by decide, by decide, by decide⟩

/-- The same drift of 51 resources twice is not. -/
theorem large_repeated_drift_is_not_stuck :
    ¬(Set.InjOn sipHash (hashedBytes (fun _ => none) [webCheck 51, webCheck 51]) →
      StuckExactly (fun _ => none) {} [webCheck 51, webCheck 51]) := by
  have hbytes : sipHash (fingerprintBytes ((webDrifts 51).take driftStatusCap)) ≠
      sipHash (fingerprintBytes (webDrifts 51)) := by
    decide +kernel
  intro h
  have hinj : Set.InjOn sipHash (hashedBytes (fun _ => none) [webCheck 51, webCheck 51]) := by
    rintro b ⟨c, hc, hb⟩ b' ⟨c', hc', hb'⟩ hh
    have hc1 : c = webCheck 51 := by simpa using hc
    have hc2 : c' = webCheck 51 := by simpa using hc'
    subst hc1 hc2
    rw [webCheck_drifts] at hb hb'
    rcases hb with rfl | rfl <;> rcases hb' with rfl | rfl
    · rfl
    · exact absurd hh.symm hbytes
    · exact absurd hh hbytes
    · rfl
  obtain ⟨outcome, ho, hiff⟩ := h hinj [] (webCheck 51) (webCheck 51) [] rfl
    (by rw [webCheck_drifts]; decide)
  obtain ⟨t, ht, hfp, hd⟩ := left_driftStep (fun _ => none)
    (noFingerprint_run (fun _ => none) (s := {}) rfl []) (webCheck 51)
  rw [List.nil_append, run_cons, run_nil, driftVerdict] at ho
  rw [run_nil] at ht
  rw [ht] at ho
  have hout : (webCheck 51).outcome (fun _ => none) t = outcome := Option.some.inj ho
  have hstuck := hiff.mpr rfl
  rw [← hout, DriftCheck.outcome, isStuckByFingerprint_iff _ _ _ (by rw [webCheck_drifts]; decide),
    webCheck_drifts] at hstuck
  rw [webCheck_drifts] at hd
  have hprior : priorFingerprint t =
      some (fingerprint ((webDrifts 51).take driftStatusCap)) := by
    simp [priorFingerprint, hfp, hd, webDrifts, driftStatusCap]
  rw [hprior, Option.some.injEq] at hstuck
  exact hbytes (hex16_injective hstuck)

end PangeaOperator
