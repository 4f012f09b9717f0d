import Mathlib
import PangeaOperator.Lib.SortedMap
import PangeaOperator.Projection

/-!
# Transition times of conditions

`ConditionSet::project` rewrites stored conditions in place, and `merge_condition_transitions` puts
the stored time back on those whose content is as it was. A condition that is rewritten comes with
the time it was stored with.
-/

namespace PangeaOperator

/-- The condition with the same content has the stored time, and one with another status, or of a
new type, has the time of the projection. -/
def TimesMove (s : Status) (live : Int) (now : Time) (deadlines : Deadlines)
    (incarnation : String) : Prop :=
  ∀ c ∈ (projectStatus s live now deadlines incarnation).conditions,
    (∀ d ∈ s.conditions, d.type = c.type → d.status = c.status → d.reason = c.reason →
      d.message = c.message → c.lastTransitionTime = d.lastTransitionTime) ∧
    ((∀ d ∈ s.conditions, d.type = c.type → d.status ≠ c.status) → c.lastTransitionTime = now)

/-- The projection gives the condition another status. -/
def Condition.Flips (pass : PassPhase) (observed live : Int) (c : Condition) : Prop :=
  (c.ClaimsGood ∧ ¬MayClaimGood pass observed live) ∨ c.Behind observed live

instance (pass : PassPhase) (observed live : Int) (c : Condition) :
    Decidable (c.Flips pass observed live) := inferInstanceAs (Decidable (_ ∨ _))

/-- Each condition that is given another status was stored with the time of the projection. -/
def FlipsAtNow (s : Status) (live : Int) (now : Time) (deadlines : Deadlines)
    (incarnation : String) : Prop :=
  let pass := projectedPass s live now deadlines incarnation
  ∀ d ∈ s.conditions, d.Flips pass (pass.observedGeneration s.observedGeneration) live →
    d.lastTransitionTime = now

section Flips

variable (pass : PassPhase) (observed live : Int) (c : Condition)

theorem time_projectCondition :
    (projectCondition pass observed live c).lastTransitionTime = c.lastTransitionTime := by
  rw [projectCondition_eq]
  split
  · rfl
  · split <;> rfl

theorem status_projectCondition_ne_iff :
    (projectCondition pass observed live c).status ≠ c.status ↔ c.Flips pass observed live := by
  rw [projectCondition_eq, Condition.Flips]
  split
  · next hgood =>
    refine iff_of_true (fun h => ?_) (.inl hgood)
    have hfalse : "False" = c.status := h
    exact absurd (hfalse.trans hgood.1.2) (by decide)
  · next hgood =>
    rw [or_iff_right hgood]
    split
    · next hbehind => exact iff_of_true (fun h => hbehind.2.1 h.symm) hbehind
    · next hbehind => exact iff_of_false (fun h => h rfl) hbehind

variable {pass : PassPhase} {observed live : Int} {c : Condition}

theorem Condition.Flips.type_ne_stalled (h : c.Flips pass observed live) : c.type ≠ "Stalled" := by
  rcases h with ⟨⟨ht | ht, -⟩, -⟩ | ⟨ht, -⟩
  · rw [ht]
    decide
  · rw [ht]
    decide
  · rw [ht]
    decide

end Flips

section Merge

variable {prev : List Condition} {n d : Condition}

/-- `merge_condition_transitions` on one condition. -/
def mergeCondition (prev : List Condition) (n : Condition) : Condition :=
  match prev.find? (fun p => p.type = n.type) with
  | some p =>
    if p.status = n.status ∧ p.reason = n.reason ∧ p.message = n.message then
      { n with lastTransitionTime := p.lastTransitionTime }
    else n
  | none => n

theorem mergeConditionTransitions_eq (prev new : List Condition) :
    mergeConditionTransitions prev new = new.map (mergeCondition prev) := rfl

/-- Only the time is merged. -/
theorem key_mergeCondition (prev : List Condition) (n : Condition) :
    (mergeCondition prev n).key = n.key := by
  unfold mergeCondition
  split
  · split <;> rfl
  · rfl

theorem type_mergeCondition (prev : List Condition) (n : Condition) :
    (mergeCondition prev n).type = n.type := congrArg Prod.fst (key_mergeCondition prev n)

theorem status_mergeCondition (prev : List Condition) (n : Condition) :
    (mergeCondition prev n).status = n.status :=
  congrArg (fun k => k.2.1) (key_mergeCondition prev n)

theorem mergeCondition_same (hn : (prev.map Condition.type).Nodup) (hd : d ∈ prev)
    (ht : d.type = n.type)
    (hsame : d.status = n.status ∧ d.reason = n.reason ∧ d.message = n.message) :
    (mergeCondition prev n).lastTransitionTime = d.lastTransitionTime := by
  have hfind : prev.find? (fun p => p.type = n.type) = some d := by
    rw [← ht]
    exact find?_key hn hd
  rw [mergeCondition, hfind]
  dsimp only
  rw [if_pos hsame]

theorem mergeCondition_changed
    (h : ∀ d ∈ prev, d.type = n.type → d.status ≠ n.status) :
    (mergeCondition prev n).lastTransitionTime = n.lastTransitionTime := by
  unfold mergeCondition
  split
  · next p hfind =>
    have ht : p.type = n.type := by simpa using List.find?_some hfind
    have hne := h p (List.mem_of_find?_eq_some hfind) ht
    rw [if_neg fun hsame => hne hsame.1]
  · rfl

end Merge

section Times

variable {s : Status} {live : Int} {now : Time} {deadlines : Deadlines} {incarnation : String}

/-- A projected condition is the stall, or one of the stored conditions. -/
theorem mem_projectStatus_conditions {c : Condition}
    (h : c ∈ (projectStatus s live now deadlines incarnation).conditions) :
    let pass := projectedPass s live now deadlines incarnation
    (c = mergeCondition s.conditions (stalledCondition pass live now)) ∨
      ∃ d ∈ s.conditions, c = mergeCondition s.conditions
        (projectCondition pass (pass.observedGeneration s.observedGeneration) live d) := by
  obtain ⟨n, hn, rfl⟩ := List.mem_map.mp h
  rcases mem_projectConditions hn with ⟨-, d, hd, rfl⟩ | rfl
  · exact .inr ⟨d, hd, rfl⟩
  · exact .inl rfl

theorem time_stalledCondition (pass : PassPhase) :
    (stalledCondition pass live now).lastTransitionTime = now := by
  cases pass <;> rfl

/-- Content that is there as it was has its stored time, whatever was flipped. -/
theorem mergeCondition_time_of_same {n d : Condition} {prev : List Condition}
    (hn : (prev.map Condition.type).Nodup) (hd : d ∈ prev)
    (ht : d.type = (mergeCondition prev n).type) (hs : d.status = (mergeCondition prev n).status)
    (hr : d.reason = (mergeCondition prev n).reason)
    (hm : d.message = (mergeCondition prev n).message) :
    (mergeCondition prev n).lastTransitionTime = d.lastTransitionTime := by
  have hkey := key_mergeCondition prev n
  simp only [Condition.key, Prod.mk.injEq] at hkey
  obtain ⟨htype, hstatus, hreason, hmessage, -⟩ := hkey
  exact mergeCondition_same hn hd (ht.trans htype)
    ⟨hs.trans hstatus, hr.trans hreason, hm.trans hmessage⟩

/-- Another status than every stored condition of the type leaves the time it comes with. -/
theorem mergeCondition_time_of_changed {n : Condition} {prev : List Condition}
    (h : ∀ d ∈ prev, d.type = (mergeCondition prev n).type →
      d.status ≠ (mergeCondition prev n).status) :
    (mergeCondition prev n).lastTransitionTime = n.lastTransitionTime := by
  rw [type_mergeCondition, status_mergeCondition] at h
  exact mergeCondition_changed h

/-- A condition that is not the stall is rewritten in its place. -/
theorem mem_projectStatus_of_stored {d : Condition} (hd : d ∈ s.conditions)
    (ht : d.type ≠ "Stalled") :
    let pass := projectedPass s live now deadlines incarnation
    mergeCondition s.conditions
        (projectCondition pass (pass.observedGeneration s.observedGeneration) live d) ∈
      (projectStatus s live now deadlines incarnation).conditions := by
  refine List.mem_map_of_mem (List.mem_append_left _ (List.mem_filter.mpr
    ⟨List.mem_map_of_mem hd, ?_⟩))
  rw [type_projectCondition]
  exact decide_eq_true ht

/-- The rewritten condition differs in its status from what is stored under its type exactly where
it flips: no other stored condition has the type. -/
theorem changed_iff_flips {pass : PassPhase} {observed : Int} {d : Condition}
    (hdistinct : (s.conditions.map Condition.type).Nodup) (hd : d ∈ s.conditions) :
    (∀ e ∈ s.conditions,
        e.type = (mergeCondition s.conditions (projectCondition pass observed live d)).type →
        e.status ≠ (mergeCondition s.conditions (projectCondition pass observed live d)).status) ↔
      d.Flips pass observed live := by
  rw [type_mergeCondition, status_mergeCondition, type_projectCondition,
    ← status_projectCondition_ne_iff]
  constructor
  · intro h
    exact (h d hd rfl).symm
  · intro h e he ht
    rw [List.inj_on_of_nodup_map hdistinct he hd ht]
    exact h.symm

end Times

/-- The time moves with the status exactly where the time it was stored with is right already. -/
theorem times_move_iff (s : Status) (live : Int) (now : Time) (deadlines : Deadlines)
    (incarnation : String) (hdistinct : (s.conditions.map Condition.type).Nodup) :
    TimesMove s live now deadlines incarnation ↔ FlipsAtNow s live now deadlines incarnation := by
  constructor
  · intro h d hd hflips
    have hchanged := (changed_iff_flips hdistinct hd).mpr hflips
    have hnow := (h _ (mem_projectStatus_of_stored hd hflips.type_ne_stalled)).2 hchanged
    rw [mergeCondition_time_of_changed hchanged, time_projectCondition] at hnow
    exact hnow
  · intro h c hc
    refine ⟨fun d hd ht hs hr hm => ?_, fun hchanged => ?_⟩
    · rcases mem_projectStatus_conditions hc with rfl | ⟨e, -, rfl⟩
      · exact mergeCondition_time_of_same hdistinct hd ht hs hr hm
      · exact mergeCondition_time_of_same hdistinct hd ht hs hr hm
    · rcases mem_projectStatus_conditions hc with rfl | ⟨e, he, rfl⟩
      · rw [mergeCondition_time_of_changed hchanged, time_stalledCondition]
      · rw [mergeCondition_time_of_changed hchanged, time_projectCondition]
        exact h e he ((changed_iff_flips hdistinct he).mp hchanged)

/-- `Ready` since 0, for generation 1. -/
def readyOnce : Status :=
  { conditions := [⟨"Ready", "True", 0, "Ready", "Infrastructure is up to date", some 1⟩]
    observedGeneration := 1 }

/-- The status is projected for the generation it was stored for. -/
theorem times_move_caught_up : TimesMove readyOnce 1 60 {} "operator" :=
  (times_move_iff readyOnce 1 60 {} "operator" (by decide +kernel)).mpr (by
    unfold FlipsAtNow
    decide +kernel)

/-- `Ready` is taken back for the next generation at 60, and still has its old time. -/
theorem taken_back_keeps_time : ¬∀ (s : Status) (live : Int) (now : Time) (deadlines : Deadlines)
    (incarnation : String), (s.conditions.map Condition.type).Nodup →
      TimesMove s live now deadlines incarnation := by
  intro h
  have htaken : ∃ c ∈ (projectStatus readyOnce 2 60 {} "operator").conditions,
      c.status = "False" ∧ c.type = "Ready" ∧ c.lastTransitionTime = 0 := by decide +kernel
  obtain ⟨c, hc, hstatus, -, htime⟩ := htaken
  have hchanged : ∀ d ∈ readyOnce.conditions, d.type = c.type → d.status ≠ c.status := by
    rw [hstatus]
    intro d hd _
    rw [List.mem_singleton.mp hd]
    decide
  have hnow := (h readyOnce 2 60 {} "operator" (by decide +kernel) c hc).2 hchanged
  exact absurd (htime.symm.trans hnow) (by decide)

end PangeaOperator
