import PangeaOperator.Pass

/-!
# The pass in the stored status

A projection of the same kind patches three members of the stored pass and leaves
the rest, any other projection writes the whole record. Either way the record that
is read back is known exactly, whatever document was stored.
-/

namespace PangeaOperator

open Json

theorem PassStatus.dec_eq_some_iff {v : Doc} {p : PassStatus} :
    PassStatus.dec v = some p ↔
      (Slot.required PassKind.codec).take (v.get? "kind") = some p.kind ∧
      (Slot.required .int).take (v.get? "generation") = some p.generation ∧
      (Slot.nullable .time).take (v.get? "since") = some p.since ∧
      (Slot.nullable .time).take (v.get? "heartbeatAt") = some p.heartbeatAt ∧
      (Slot.nullable .string).take (v.get? "reason") = some p.reason ∧
      (Slot.nullable .int).take (v.get? "queuedGeneration") = some p.queuedGeneration ∧
      (Slot.nullable .time).take (v.get? "queuedSince") = some p.queuedSince ∧
      (Slot.nullable StallState.codec).take (v.get? "stall") = some p.stall ∧
      (Slot.nullable .string).take (v.get? "incarnation") = some p.incarnation := by
  obtain ⟨kind, generation, since, heartbeatAt, reason, queuedGeneration, queuedSince, stall,
    incarnation⟩ := p
  simp [PassStatus.dec, Option.bind_eq_some_iff]

theorem PassStatus.get?_mergePatch_enc (v : Doc) (p : PassStatus) (k : String) :
    (mergePatch v p.enc).get? k = mergeSlot (v.get? k) (lookup k (written p.fields)) :=
  get?_mergePatch_record v (by simp [PassStatus.fields]) k

/-- Writing the whole record leaves nothing of the stored one. -/
theorem PassStatus.dec_mergePatch_enc (v : Doc) (p : PassStatus) :
    PassStatus.dec (mergePatch v p.enc) = some p := by
  rw [PassStatus.dec_eq_some_iff]
  simp only [PassStatus.get?_mergePatch_enc]
  refine ⟨?_, ?_, ?_, ?_, ?_, ?_, ?_, ?_, ?_⟩
  · exact required_take_mergeSlot (Codec.enum_flat _ _ _) _ p.kind
  · exact required_take_mergeSlot Codec.int_flat _ p.generation
  · exact readOption_mergeSlot_getD Codec.time_flat _ p.since
  · exact readOption_mergeSlot_getD Codec.time_flat _ p.heartbeatAt
  · exact readOption_mergeSlot_getD Codec.string_flat _ p.reason
  · exact readOption_mergeSlot_getD Codec.int_flat _ p.queuedGeneration
  · exact readOption_mergeSlot_getD Codec.time_flat _ p.queuedSince
  · exact readOption_mergeSlot_getD (Codec.enum_flat _ _ _) _ p.stall
  · exact readOption_mergeSlot_getD Codec.string_flat _ p.incarnation

theorem passFields_nodup (old new : PassStatus) : ((passFields old new).map Prod.fst).Nodup := by
  unfold passFields
  split <;> split <;> split <;> simp

/-- The stored pass after a projection of the same kind. -/
def patchedPass (old new : PassStatus) : PassStatus :=
  { old with
    generation := new.generation
    queuedGeneration := new.queuedGeneration
    queuedSince := new.queuedSince }

theorem lookup_passFields_other {old new : PassStatus} {k : String} (hg : k ≠ "generation")
    (hq : k ≠ "queuedGeneration") (hs : k ≠ "queuedSince") :
    lookup k (passFields old new) = none := by
  rw [lookup_eq_none_iff]
  unfold passFields
  split <;> split <;> split <;> simp [hg, hq, hs]

theorem lookup_passFields_generation (old new : PassStatus) :
    lookup "generation" (passFields old new) =
      if old.generation ≠ new.generation then some (Codec.int.enc new.generation) else none := by
  unfold passFields
  split <;> split <;> split <;> simp

theorem lookup_passFields_queuedGeneration (old new : PassStatus) :
    lookup "queuedGeneration" (passFields old new) =
      if old.queuedGeneration ≠ new.queuedGeneration then
        some ((new.queuedGeneration.map Codec.int.enc).getD .null) else none := by
  unfold passFields
  split <;> split <;> split <;> simp

theorem lookup_passFields_queuedSince (old new : PassStatus) :
    lookup "queuedSince" (passFields old new) =
      if old.queuedSince ≠ new.queuedSince then
        some ((new.queuedSince.map Codec.time.enc).getD .null) else none := by
  unfold passFields
  split <;> split <;> split <;> simp

theorem PassStatus.dec_mergePatch_passFields {v : Doc} {old : PassStatus} (new : PassStatus)
    (h : PassStatus.dec v = some old) :
    PassStatus.dec (mergePatch v (.obj (passFields old new))) = some (patchedPass old new) := by
  rw [PassStatus.dec_eq_some_iff] at h ⊢
  obtain ⟨hkind, hgen, hsince, hbeat, hreason, hqg, hqs, hstall, hinc⟩ := h
  simp only [get?_mergePatch v _ (passFields_nodup old new)]
  have other {k : String} (hg : k ≠ "generation") (hq : k ≠ "queuedGeneration")
      (hs : k ≠ "queuedSince") :
      mergeSlot (v.get? k) (lookup k (passFields old new)) = v.get? k := by
    rw [lookup_passFields_other hg hq hs, mergeSlot]
  rw [other (k := "kind") (by decide) (by decide) (by decide),
    other (k := "since") (by decide) (by decide) (by decide),
    other (k := "heartbeatAt") (by decide) (by decide) (by decide),
    other (k := "reason") (by decide) (by decide) (by decide),
    other (k := "stall") (by decide) (by decide) (by decide),
    other (k := "incarnation") (by decide) (by decide) (by decide)]
  refine ⟨hkind, ?_, hsince, hbeat, hreason, ?_, ?_, hstall, hinc⟩
  · rw [lookup_passFields_generation]
    split
    · exact required_take_mergeSlot Codec.int_flat _ new.generation
    · next he => rw [mergeSlot, hgen, not_not.mp he]; rfl
  · rw [lookup_passFields_queuedGeneration]
    split
    · exact readOption_mergeSlot_getD Codec.int_flat _ new.queuedGeneration
    · next he => rw [mergeSlot, hqg, not_not.mp he]; rfl
  · rw [lookup_passFields_queuedSince]
    split
    · exact readOption_mergeSlot_getD Codec.time_flat _ new.queuedSince
    · next he => rw [mergeSlot, hqs, not_not.mp he]; rfl

/-- The stored pass after any projection. -/
def mergedPass (stored : Option PassStatus) (new : PassStatus) : PassStatus :=
  match stored with
  | some old => if old.kind = new.kind then patchedPass old new else new
  | none => new

theorem readOption_pass {v : Doc} {old : PassStatus}
    (h : Slot.readOption PassStatus.codec (some v) = some (some old)) :
    v ≠ .null ∧ PassStatus.dec v = some old := by
  cases v <;> simp_all [Slot.readOption, PassStatus.codec]

theorem readOption_pass_merge (stored : Option Doc) (p : PassStatus) :
    Slot.readOption PassStatus.codec (mergeSlot stored (some (PassStatus.codec.enc p))) =
      some (some p) := by
  have hc : PassStatus.codec.Replaces := PassStatus.dec_mergePatch_enc
  exact hc.readOption stored p

theorem readOption_pass_fields {stored : Option Doc} {old : PassStatus} (new : PassStatus)
    (h : Slot.readOption PassStatus.codec stored = some (some old)) :
    Slot.readOption PassStatus.codec (mergeSlot stored (some (.obj (passFields old new)))) =
      some (some (patchedPass old new)) := by
  cases stored with
  | none => simp at h
  | some v =>
    obtain ⟨_, hv⟩ := readOption_pass h
    have hm := PassStatus.dec_mergePatch_passFields new hv
    simp only [mergeSlot, Option.getD_some]
    rw [mergePatch] at hm ⊢
    simp only [Slot.readOption, PassStatus.codec, hm, Option.map_some]

theorem patchedPass_of_passFields_eq_nil {old new : PassStatus} (h : passFields old new = []) :
    patchedPass old new = old := by
  simp only [passFields, List.append_eq_nil_iff, ite_eq_right_iff, List.cons_ne_nil, imp_false,
    not_not] at h
  obtain ⟨⟨hg, hq⟩, hs⟩ := h
  simp [patchedPass, ← hg, ← hq, ← hs]

theorem readOption_passPatch {stored : Option Doc} {s : Option PassStatus} (new : PassStatus)
    (h : Slot.readOption PassStatus.codec stored = some s) :
    Slot.readOption PassStatus.codec (mergeSlot stored (passPatch s new)) =
      some (some (mergedPass s new)) := by
  cases s with
  | none => exact readOption_pass_merge stored new
  | some old =>
    simp only [passPatch, mergedPass]
    split
    · split
      · next hf => rw [mergeSlot, h, patchedPass_of_passFields_eq_nil hf]
      · exact readOption_pass_fields new h
    · exact readOption_pass_merge stored new

/-- The status read back after a projection. -/
def projected (s : Status) (p : StatusProjection) (incarnation : String) : Status :=
  { s with
    pass := some (mergedPass s.pass (p.pass.toStatus incarnation))
    observedGeneration := p.observedGeneration
    conditions := if conditionsDiffer s.conditions p.conditions then p.conditions else s.conditions
    generationLagSince := p.lagSince }

/-- One projection of the stored document; a document that does not read stays as it is. -/
def project (stored : Doc) (live : Int) (now : Time) (deadlines : Deadlines)
    (incarnation : String) : Doc :=
  match Status.read stored with
  | none => stored
  | some s =>
    match projectionPatch s (projectStatus s live now deadlines incarnation) incarnation with
    | none => stored
    | some body => patchStatus stored body

theorem take_projectionFields {stored : Doc} {s : Status} (p : StatusProjection)
    (incarnation : String) (hs : Status.read stored = some s) (f : StatusField) :
    f.slot.take (mergeSlot (stored.get? f.name) (sent (projectionFields s p incarnation) f)) =
      some (f.get (projected s p incarnation)) := by
  rw [Status.read_eq_some_iff] at hs
  cases f
  case pass => exact readOption_passPatch _ (hs .pass)
  case observedGeneration =>
    change (StatusField.slot .observedGeneration).take (mergeSlot _ (ite _ _ _)) = _
    split
    · exact withDefault_take_mergeSlot Codec.int_flat _ _ _
    · next he => exact (hs .observedGeneration).trans (congrArg some (not_not.mp he).symm)
  case conditions =>
    change (StatusField.slot .conditions).take (mergeSlot _ (ite _ _ _)) =
      some (ite _ _ _)
    split
    · exact nonempty_take_mergeSlot _ _
    · exact hs .conditions
  case generationLagSince =>
    change (StatusField.slot .generationLagSince).take (mergeSlot _ (ite _ _ _)) = _
    split
    · exact readOption_mergeSlot_getD Codec.time_flat _ _
    · next he => exact (hs .generationLagSince).trans (congrArg some (not_not.mp he).symm)
  all_goals exact hs _

theorem sent_eq_none {fs : List (StatusField × Option Doc)}
    (h : fs.all (fun m => m.2.isNone) = true) (f : StatusField) : sent fs f = none := by
  rw [List.all_eq_true] at h
  unfold sent
  cases hm : fs.find? (fun m => m.1 = f) with
  | none => rfl
  | some m => simpa using h m (List.mem_of_find?_eq_some hm)

theorem read_project {stored : Doc} {s : Status} (hs : Status.read stored = some s) (live : Int)
    (now : Time) (deadlines : Deadlines) (incarnation : String) :
    Status.read (project stored live now deadlines incarnation) =
      some (projected s (projectStatus s live now deadlines incarnation) incarnation) := by
  have htake := take_projectionFields (projectStatus s live now deadlines incarnation)
    incarnation hs
  simp only [project, hs, projectionPatch]
  split
  · next hnone =>
    split at hnone
    · next hall =>
      rw [Status.read_eq_some_iff]
      intro f
      simpa only [sent_eq_none hall f, mergeSlot] using htake f
    · simp at hnone
  · next body hbody =>
    split at hbody
    · simp at hbody
    · cases hbody
      exact read_patchStatus (by simp [projectionFields]) htake

end PangeaOperator
