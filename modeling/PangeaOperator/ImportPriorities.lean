import PangeaOperator.Import
import PangeaOperator.Lib.SortedMap
import PangeaOperator.Policy

/-!
# The priorities of import resolution

`resolve_import_targets` of `controller/import.rs` asks three layers in turn: the hint of the
address, the template of its type, the id the executor derived. The set of covered addresses
that keeps the layers apart is only written where a hint renders. So a hint that does not
render leaves its address to the layers below, and an address that occurs twice among the
creates is resolved twice by them. And the type is read off the address, as the text before its
first dot.
-/

namespace PangeaOperator

open Json

theorem StrMap.get?_eq_some_iff {α : Type} {m : StrMap α} {k : String} {v : α} :
    m.get? k = some v ↔ (k, v) ∈ m.entries := by
  change (SortedMap.mk m.entries m.sorted).get? k = some v ↔ _
  exact SortedMap.get?_eq_some_iff

def ImportSkip.address : ImportSkip → String
  | hint address _ => address
  | auto address _ _ _ => address
  | inexact address _ => address

section Priorities

variable (valueText : Doc → String) (spec : ImportSpec) (d : Discovery)

/-- What the hint of an address renders to. -/
def hintId (address : String) : Option String :=
  (spec.importHints.get? address).bind
    (fun template => (substituteImportId valueText template spec.variables').toOption)

/-- What the template of a type renders to for an address, where there is one, else the derived id
if it is exact. -/
def idUnder (type address : String) : Option String :=
  match spec.importPolicy.bind (fun p => p.naturalIds.get? type) with
  | some template => (substituteWithPlanned valueText template
      ((lastEntry d.planned address).getD .null) spec.variables').toOption
  | none => (lastEntry d.derived address).bind
      (fun derived => if derived.exact then some derived.id else none)

/-- The id of the layers below, with the template found by the text before the first dot. -/
def textId (address : String) : Option String :=
  idUnder valueText spec d (addressType address) address

end Priorities

/-- The creates of a plan with the resources they are about. -/
structure ResourceDiscovery extends Discovery where
  resources : List ResourceAddress
  created : creates = resources.map ResourceAddress.render

section Priorities

variable (valueText : Doc → String) (spec : ImportSpec) (d : ResourceDiscovery)

/-- The id of the layers below, with the template of the resource's type. -/
def autoId (a : ResourceAddress) : Option String :=
  idUnder valueText spec d.toDiscovery a.type a.render

/-- The one id a resource may be imported under: that of its hint where it has one, whether or not
it renders, and else, with auto import on, that of the layers below. -/
def priorityId (a : ResourceAddress) : Option String :=
  match spec.importHints.get? a.render with
  | some _ => hintId valueText spec a.render
  | none => if ImportPolicy.autoOnConflictOrDefault spec.importPolicy then
      autoId valueText spec d a else none

/-- The targets are creates of the plan, each once and under its own id, none of them skipped. -/
structure HonoursPriorities : Prop where
  planned : ∀ t ∈ (resolveImportTargets valueText spec d.toDiscovery).1, t.address ∈ d.creates
  distinct :
    ((resolveImportTargets valueText spec d.toDiscovery).1.map ImportTarget.address).Nodup
  own : ∀ t ∈ (resolveImportTargets valueText spec d.toDiscovery).1, ∀ a ∈ d.resources,
    t.address = a.render → priorityId valueText spec d a = some t.id
  complete : ∀ a ∈ d.resources, ∀ id, priorityId valueText spec d a = some id →
    ∃ t ∈ (resolveImportTargets valueText spec d.toDiscovery).1, t.address = a.render ∧ t.id = id
  apart : ∀ s ∈ (resolveImportTargets valueText spec d.toDiscovery).2,
    ∀ t ∈ (resolveImportTargets valueText spec d.toDiscovery).1, s.address ≠ t.address

/-- With auto import on, a create has a hint that renders, or one that does not and no id below, or
no hint; then the text before its first dot leads to the id that its type does, and where there is
one it occurs once. -/
def LayersApart : Prop :=
  ImportPolicy.autoOnConflictOrDefault spec.importPolicy = true →
    ∀ a ∈ d.resources, (hintId valueText spec a.render).isSome ∨
      (spec.importHints.get? a.render ≠ none ∧
        textId valueText spec d.toDiscovery a.render = none) ∨
      (spec.importHints.get? a.render = none ∧
        textId valueText spec d.toDiscovery a.render = autoId valueText spec d a ∧
        ((autoId valueText spec d a).isSome → d.creates.count a.render = 1))

end Priorities

section Layers

variable {valueText : Doc → String} {spec : ImportSpec} {d : Discovery}

theorem mem_okTargets {results : List (Except ImportSkip ImportTarget)} {t : ImportTarget} :
    t ∈ okTargets results ↔ .ok t ∈ results := by
  simp only [okTargets, List.mem_filterMap]
  constructor
  · rintro ⟨r, hr, ht⟩
    cases r with
    | error s => cases ht
    | ok u => exact Option.some.inj ht ▸ hr
  · intro h
    exact ⟨_, h, rfl⟩

theorem mem_errorSkips {results : List (Except ImportSkip ImportTarget)} {s : ImportSkip} :
    s ∈ errorSkips results ↔ .error s ∈ results := by
  simp only [errorSkips, List.mem_filterMap]
  constructor
  · rintro ⟨r, hr, hs⟩
    cases r with
    | ok t => cases hs
    | error u => exact Option.some.inj hs ▸ hr
  · intro h
    exact ⟨_, h, rfl⟩

theorem hintTarget_ok_iff {address template : String} {t : ImportTarget} :
    hintTarget valueText spec address template = .ok t ↔
      substituteImportId valueText template spec.variables' = .ok t.id ∧
        t = ⟨address, t.id, .hint⟩ := by
  unfold hintTarget
  cases substituteImportId valueText template spec.variables' with
  | error missing => simp
  | ok id =>
    constructor
    · intro h
      cases h
      exact ⟨rfl, rfl⟩
    · rintro ⟨hid, ht⟩
      rw [ht, Except.ok.inj hid]

theorem address_of_hintTarget_error {address template : String} {s : ImportSkip}
    (h : hintTarget valueText spec address template = .error s) :
    s.address = address ∧
      (substituteImportId valueText template spec.variables').toOption = none := by
  unfold hintTarget at h
  cases hid : substituteImportId valueText template spec.variables' with
  | ok id =>
    rw [hid] at h
    cases h
  | error missing =>
    rw [hid] at h
    cases h
    exact ⟨rfl, rfl⟩

theorem mem_hintResults {r : Except ImportSkip ImportTarget} :
    r ∈ hintResults valueText spec d ↔ ∃ address template,
      spec.importHints.get? address = some template ∧ address ∈ d.creates ∧
        hintTarget valueText spec address template = r := by
  simp only [hintResults, List.mem_map, List.mem_filter, decide_eq_true_eq, Prod.exists,
    StrMap.get?_eq_some_iff, and_assoc]

theorem hintId_of_get? {address template : String}
    (h : spec.importHints.get? address = some template) :
    hintId valueText spec address =
      (substituteImportId valueText template spec.variables').toOption := by
  rw [hintId, h]
  rfl

/-- The hints that render, each under its id. -/
theorem mem_okTargets_hintResults {t : ImportTarget} :
    t ∈ okTargets (hintResults valueText spec d) ↔ t.address ∈ d.creates ∧
      hintId valueText spec t.address = some t.id ∧ t.source = .hint := by
  rw [mem_okTargets, mem_hintResults]
  constructor
  · rintro ⟨address, template, hget, hcreate, htarget⟩
    obtain ⟨hid, ht⟩ := hintTarget_ok_iff.mp htarget
    rw [ht]
    refine ⟨hcreate, ?_, rfl⟩
    rw [hintId_of_get? hget, hid]
    rfl
  · rintro ⟨hcreate, hid, hsource⟩
    obtain ⟨template, hget, hrender⟩ := Option.bind_eq_some_iff.mp hid
    refine ⟨t.address, template, hget, hcreate, hintTarget_ok_iff.mpr ⟨?_, by rw [← hsource]⟩⟩
    cases hsub : substituteImportId valueText template spec.variables' with
    | error missing =>
      rw [hsub] at hrender
      cases hrender
    | ok id =>
      rw [hsub] at hrender
      exact congrArg Except.ok (Option.some.inj hrender)

/-- The addresses a hint resolved. -/
theorem mem_covered {address : String} :
    address ∈ (okTargets (hintResults valueText spec d)).map ImportTarget.address ↔
      address ∈ d.creates ∧ (hintId valueText spec address).isSome := by
  simp only [List.mem_map, mem_okTargets_hintResults, Option.isSome_iff_exists]
  constructor
  · rintro ⟨t, ⟨hcreate, hid, -⟩, rfl⟩
    exact ⟨hcreate, t.id, hid⟩
  · rintro ⟨hcreate, id, hid⟩
    exact ⟨⟨address, id, .hint⟩, ⟨hcreate, hid, rfl⟩, rfl⟩

theorem autoTarget_toOption (address : String) :
    (autoTarget valueText spec d address).bind Except.toOption =
      (textId valueText spec d address).map (fun id => ⟨address, id, .auto⟩) := by
  have htype : spec.importPolicy.bind (fun p => p.naturalIds.get? (addressType address)) =
      spec.importPolicy.bind (fun p => resolveNaturalId address p.naturalIds) := rfl
  unfold autoTarget textId idUnder
  rw [htype]
  cases spec.importPolicy.bind (fun p => resolveNaturalId address p.naturalIds) with
  | none =>
    cases lastEntry d.derived address with
    | none => rfl
    | some derived => cases hexact : derived.exact <;> simp [hexact, Except.toOption]
  | some template =>
    dsimp only
    cases substituteWithPlanned valueText template ((lastEntry d.planned address).getD .null)
      spec.variables' with
    | error missing => rfl
    | ok id => rfl

theorem address_of_autoTarget_error {address : String} {s : ImportSkip}
    (h : autoTarget valueText spec d address = some (.error s)) : s.address = address := by
  unfold autoTarget at h
  cases hnatural : spec.importPolicy.bind (fun p => resolveNaturalId address p.naturalIds) with
  | none =>
    rw [hnatural] at h
    obtain ⟨derived, -, hskip⟩ := Option.map_eq_some_iff.mp h
    split at hskip
    · cases hskip
    · cases hskip
      rfl
  | some template =>
    rw [hnatural] at h
    dsimp only at h
    split at h
    · cases h
    · cases h
      rfl

/-- The layers below, over the creates no hint resolved. -/
theorem okTargets_autoResults : okTargets (autoResults valueText spec d) =
    if ImportPolicy.autoOnConflictOrDefault spec.importPolicy then
      (d.creates.filter (fun address =>
        address ∉ (okTargets (hintResults valueText spec d)).map ImportTarget.address)).filterMap
        (fun address => (textId valueText spec d address).map (fun id => ⟨address, id, .auto⟩))
    else [] := by
  unfold okTargets autoResults
  split
  · rw [List.filterMap_filterMap]
    exact List.filterMap_congr (fun address _ => autoTarget_toOption address)
  · rfl

theorem mem_okTargets_autoResults {t : ImportTarget} :
    t ∈ okTargets (autoResults valueText spec d) ↔
      ImportPolicy.autoOnConflictOrDefault spec.importPolicy = true ∧ t.address ∈ d.creates ∧
        hintId valueText spec t.address = none ∧
        textId valueText spec d t.address = some t.id ∧ t.source = .auto := by
  rw [okTargets_autoResults]
  split
  · next hauto =>
    simp only [List.mem_filterMap, List.mem_filter, decide_eq_true_eq, mem_covered, not_and,
      Bool.not_eq_true, Option.isSome_eq_false_iff, Option.isNone_iff_eq_none,
      Option.map_eq_some_iff, hauto, true_and]
    constructor
    · rintro ⟨address, ⟨hcreate, huncovered⟩, id, hid, rfl⟩
      exact ⟨hcreate, huncovered hcreate, hid, rfl⟩
    · rintro ⟨hcreate, huncovered, hid, hsource⟩
      exact ⟨t.address, ⟨hcreate, fun _ => huncovered⟩, t.id, hid, by rw [← hsource]⟩
  · next hauto => simp [hauto]

theorem targets_eq : (resolveImportTargets valueText spec d).1 =
    okTargets (hintResults valueText spec d) ++ okTargets (autoResults valueText spec d) :=
  List.filterMap_append

theorem mem_targets {t : ImportTarget} :
    t ∈ (resolveImportTargets valueText spec d).1 ↔
      t ∈ okTargets (hintResults valueText spec d) ∨
        t ∈ okTargets (autoResults valueText spec d) := by
  rw [targets_eq, List.mem_append]

theorem mem_skips {s : ImportSkip} :
    s ∈ (resolveImportTargets valueText spec d).2 ↔
      .error s ∈ hintResults valueText spec d ∨ .error s ∈ autoResults valueText spec d := by
  simp only [resolveImportTargets, mem_errorSkips, List.mem_append]

/-- A skipped address has a hint that does not render, or no hint that does and no id below. -/
theorem skipped_cases {s : ImportSkip} (h : s ∈ (resolveImportTargets valueText spec d).2) :
    (spec.importHints.get? s.address ≠ none ∧ hintId valueText spec s.address = none) ∨
      (hintId valueText spec s.address = none ∧ textId valueText spec d s.address = none) := by
  rcases mem_skips.mp h with h | h
  · left
    obtain ⟨address, template, hget, -, hskip⟩ := mem_hintResults.mp h
    obtain ⟨haddress, hfailed⟩ := address_of_hintTarget_error hskip
    rw [haddress, hintId_of_get? hget, hget]
    exact ⟨by simp, hfailed⟩
  · right
    unfold autoResults at h
    split at h
    · obtain ⟨address, hcreate, hskip⟩ := List.mem_filterMap.mp h
      obtain ⟨hcreate, huncovered⟩ := List.mem_filter.mp hcreate
      rw [address_of_autoTarget_error hskip]
      have hnone : (autoTarget valueText spec d address).bind Except.toOption = _ :=
        autoTarget_toOption address
      rw [hskip] at hnone
      refine ⟨?_, Option.map_eq_none_iff.mp hnone.symm⟩
      by_contra hsome
      exact absurd (mem_covered.mpr ⟨hcreate, Option.isSome_iff_ne_none.mpr hsome⟩)
        (by simpa using huncovered)
    · cases h

theorem hinted_sublist (entries : List (String × String)) :
    ((okTargets (entries.map (fun e => hintTarget valueText spec e.1 e.2))).map
      ImportTarget.address).Sublist (entries.map Prod.fst) := by
  induction entries with
  | nil => exact .slnil
  | cons e entries ih =>
    cases htarget : hintTarget valueText spec e.1 e.2 with
    | error s =>
      rw [List.map_cons, htarget]
      exact ih.cons e.1
    | ok t =>
      have haddress : t.address = e.1 := by rw [(hintTarget_ok_iff.mp htarget).2]
      rw [List.map_cons, List.map_cons, htarget, ← haddress]
      exact ih.cons_cons t.address

/-- An address has one hint. -/
theorem nodup_hinted :
    ((okTargets (hintResults valueText spec d)).map ImportTarget.address).Nodup := by
  have hkeys : (spec.importHints.entries.map Prod.fst).Nodup :=
    spec.importHints.sorted.imp fun h => h.ne
  exact (hinted_sublist _).nodup (hkeys.sublist (List.filter_sublist.map Prod.fst))

theorem map_address_below (ids : String → Option String) (addresses : List String) :
    (addresses.filterMap (fun address =>
      (ids address).map (fun id => (⟨address, id, .auto⟩ : ImportTarget)))).map
        ImportTarget.address = addresses.filter (fun address => (ids address).isSome) := by
  induction addresses with
  | nil => rfl
  | cons address addresses ih =>
    cases hid : ids address with
    | none => simpa [hid] using ih
    | some id => simpa [hid] using ih

/-- Below, an address is a target as often as it is a create. -/
theorem count_auto {address : String}
    (hauto : ImportPolicy.autoOnConflictOrDefault spec.importPolicy = true)
    (huncovered : hintId valueText spec address = none)
    (hid : (textId valueText spec d address).isSome) :
    ((okTargets (autoResults valueText spec d)).map ImportTarget.address).count address =
      d.creates.count address := by
  have hnot : address ∉ (okTargets (hintResults valueText spec d)).map ImportTarget.address := by
    rw [mem_covered, huncovered]
    simp
  rw [okTargets_autoResults, if_pos hauto, map_address_below]
  exact (List.count_filter (p := fun a => (textId valueText spec d a).isSome) hid).trans
    (List.count_filter (decide_eq_true hnot))

end Layers

section Honours

variable {valueText : Doc → String} {spec : ImportSpec} {d : ResourceDiscovery}

theorem priorityId_of_hint {a : ResourceAddress} {template : String}
    (h : spec.importHints.get? a.render = some template) :
    priorityId valueText spec d a = hintId valueText spec a.render := by
  rw [priorityId, h]

theorem priorityId_of_no_hint {a : ResourceAddress} (h : spec.importHints.get? a.render = none)
    (hauto : ImportPolicy.autoOnConflictOrDefault spec.importPolicy = true) :
    priorityId valueText spec d a = autoId valueText spec d a := by
  rw [priorityId, h]
  exact if_pos hauto

theorem render_mem_creates {a : ResourceAddress} (h : a ∈ d.resources) : a.render ∈ d.creates := by
  rw [d.created]
  exact List.mem_map_of_mem h

theorem exists_resource {address : String} (h : address ∈ d.creates) :
    ∃ a ∈ d.resources, a.render = address := by
  rw [d.created] at h
  exact List.mem_map.mp h

/-- What the layers below take for a target has no hint, where the layers are apart, and its own
id. -/
theorem LayersApart.below (h : LayersApart valueText spec d) {t : ImportTarget}
    (ht : t ∈ okTargets (autoResults valueText spec d.toDiscovery)) {a : ResourceAddress}
    (ha : a ∈ d.resources) (haddress : t.address = a.render) :
    spec.importHints.get? a.render = none ∧ autoId valueText spec d a = some t.id ∧
      d.creates.count a.render = 1 := by
  obtain ⟨hauto, -, huncovered, hid, -⟩ := mem_okTargets_autoResults.mp ht
  rw [haddress] at huncovered hid
  rcases h hauto a ha with hrenders | ⟨-, hnone⟩ | ⟨hfree, hsame, honce⟩
  · rw [huncovered] at hrenders
    cases hrenders
  · rw [hnone] at hid
    cases hid
  · have hown := hsame.symm.trans hid
    exact ⟨hfree, hown, honce (Option.isSome_of_eq_some hown)⟩

theorem LayersApart.nodup_auto (h : LayersApart valueText spec d) :
    ((okTargets (autoResults valueText spec d.toDiscovery)).map ImportTarget.address).Nodup := by
  refine List.nodup_iff_count_le_one.mpr fun address => ?_
  by_cases hmem : address ∈
      (okTargets (autoResults valueText spec d.toDiscovery)).map ImportTarget.address
  · obtain ⟨t, ht, rfl⟩ := List.mem_map.mp hmem
    obtain ⟨hauto, hcreate, huncovered, hid, -⟩ := mem_okTargets_autoResults.mp ht
    obtain ⟨a, ha, haddress⟩ := exists_resource hcreate
    obtain ⟨-, -, honce⟩ := h.below ht ha haddress.symm
    rw [count_auto hauto huncovered (Option.isSome_of_eq_some hid), ← haddress, honce]
  · rw [List.count_eq_zero_of_not_mem hmem]
    exact Nat.zero_le 1

/-- An id of its own makes a create a target, where the layers are apart. -/
theorem LayersApart.target (h : LayersApart valueText spec d) {a : ResourceAddress} {id : String}
    (ha : a ∈ d.resources) (hid : priorityId valueText spec d a = some id) :
    ∃ t ∈ (resolveImportTargets valueText spec d.toDiscovery).1,
      t.address = a.render ∧ t.id = id := by
  have hcreate := render_mem_creates ha
  cases hget : spec.importHints.get? a.render with
  | some template =>
    rw [priorityId_of_hint hget] at hid
    exact ⟨⟨a.render, id, .hint⟩,
      mem_targets.mpr (.inl (mem_okTargets_hintResults.mpr ⟨hcreate, hid, rfl⟩)), rfl, rfl⟩
  | none =>
    have hhint : hintId valueText spec a.render = none := by rw [hintId, hget]; rfl
    unfold priorityId at hid
    rw [hget] at hid
    dsimp only at hid
    split at hid
    · next hauto =>
      have htext : textId valueText spec d.toDiscovery a.render = some id := by
        rcases h hauto a ha with hrenders | ⟨hhinted, -⟩ | ⟨-, hsame, -⟩
        · rw [hhint] at hrenders
          cases hrenders
        · exact absurd hget hhinted
        · exact hsame.trans hid
      exact ⟨⟨a.render, id, .auto⟩, mem_targets.mpr
        (.inr (mem_okTargets_autoResults.mpr ⟨hauto, hcreate, hhint, htext, rfl⟩)), rfl, rfl⟩
    · cases hid

theorem LayersApart.honours (h : LayersApart valueText spec d) :
    HonoursPriorities valueText spec d where
  planned t ht := by
    rcases mem_targets.mp ht with ht | ht
    · exact (mem_okTargets_hintResults.mp ht).1
    · exact (mem_okTargets_autoResults.mp ht).2.1
  distinct := by
    rw [targets_eq, List.map_append]
    refine nodup_hinted.append h.nodup_auto fun address hhinted hauto => ?_
    obtain ⟨t, ht, rfl⟩ := List.mem_map.mp hauto
    have hrenders := (mem_covered.mp hhinted).2
    rw [(mem_okTargets_autoResults.mp ht).2.2.1] at hrenders
    cases hrenders
  own t ht a ha haddress := by
    rcases mem_targets.mp ht with ht | ht
    · obtain ⟨-, hid, -⟩ := mem_okTargets_hintResults.mp ht
      rw [haddress] at hid
      obtain ⟨template, hget, -⟩ := Option.bind_eq_some_iff.mp hid
      rw [priorityId_of_hint hget, hid]
    · obtain ⟨hfree, hid, -⟩ := h.below ht ha haddress
      rw [priorityId_of_no_hint hfree (mem_okTargets_autoResults.mp ht).1, hid]
  complete _ ha _ hid := h.target ha hid
  apart s hs t ht hsame := by
    -- no id where it is skipped, and one where it is a target
    rcases mem_targets.mp ht with ht | ht
    · have hid := (mem_okTargets_hintResults.mp ht).2.1
      rw [← hsame] at hid
      rcases skipped_cases hs with ⟨-, hnone⟩ | ⟨hnone, -⟩
      · exact absurd (hid.symm.trans hnone) (by simp)
      · exact absurd (hid.symm.trans hnone) (by simp)
    · obtain ⟨-, hcreate, -, hid, -⟩ := mem_okTargets_autoResults.mp ht
      obtain ⟨a, ha, haddress⟩ := exists_resource hcreate
      have hfree := (h.below ht ha haddress.symm).1
      rw [haddress, ← hsame] at hfree
      rcases skipped_cases hs with ⟨hhint, -⟩ | ⟨-, hnone⟩
      · exact hhint hfree
      · exact absurd (hid.symm.trans (hsame ▸ hnone)) (by simp)

section Honoured

variable (h : HonoursPriorities valueText spec d)
  (hauto : ImportPolicy.autoOnConflictOrDefault spec.importPolicy = true) {a : ResourceAddress}
  (ha : a ∈ d.resources) (hnone : hintId valueText spec a.render = none)

include h hauto ha hnone

/-- What the layers below the hints have an id for is a target under it. -/
theorem HonoursPriorities.text_own {id : String}
    (hid : textId valueText spec d.toDiscovery a.render = some id) :
    priorityId valueText spec d a = some id :=
  h.own ⟨a.render, id, .auto⟩ (mem_targets.mpr (.inr
    (mem_okTargets_autoResults.mpr ⟨hauto, render_mem_creates ha, hnone, hid, rfl⟩))) a ha rfl

theorem HonoursPriorities.text_eq_autoId (hget : spec.importHints.get? a.render = none) :
    textId valueText spec d.toDiscovery a.render = autoId valueText spec d a := by
  have hpriority : priorityId valueText spec d a = autoId valueText spec d a :=
    priorityId_of_no_hint hget hauto
  cases hid : textId valueText spec d.toDiscovery a.render with
  | some id => rw [← hpriority, h.text_own hauto ha hnone hid]
  | none =>
    by_contra hsome
    obtain ⟨id, hown⟩ := Option.ne_none_iff_exists'.mp (Ne.symm hsome)
    obtain ⟨t, ht, haddress, -⟩ := h.complete a ha id (hpriority.trans hown)
    rcases mem_targets.mp ht with ht | ht
    · have hhinted := (mem_okTargets_hintResults.mp ht).2.1
      rw [haddress, hnone] at hhinted
      cases hhinted
    · have htext := (mem_okTargets_autoResults.mp ht).2.2.2.1
      rw [haddress, hid] at htext
      cases htext

theorem HonoursPriorities.created_once
    (hsome : (textId valueText spec d.toDiscovery a.render).isSome) :
    d.creates.count a.render = 1 := by
  have hsub : ((okTargets (autoResults valueText spec d.toDiscovery)).map
      ImportTarget.address).Sublist
      ((resolveImportTargets valueText spec d.toDiscovery).1.map ImportTarget.address) := by
    rw [targets_eq]
    exact (List.sublist_append_right _ _).map ImportTarget.address
  have hcount := List.nodup_iff_count_le_one.mp (h.distinct.sublist hsub) a.render
  rw [count_auto hauto hnone hsome] at hcount
  exact le_antisymm hcount (List.count_pos_iff.mpr (render_mem_creates ha))

end Honoured

theorem HonoursPriorities.layersApart (h : HonoursPriorities valueText spec d) :
    LayersApart valueText spec d := by
  intro hauto a ha
  by_cases hrenders : (hintId valueText spec a.render).isSome
  · exact .inl hrenders
  have hnone : hintId valueText spec a.render = none := by simpa using hrenders
  right
  cases hget : spec.importHints.get? a.render with
  | some template =>
    refine .inl ⟨by simp, ?_⟩
    by_contra hsome
    obtain ⟨id, hid⟩ := Option.ne_none_iff_exists'.mp hsome
    have hown := h.text_own hauto ha hnone hid
    rw [priorityId_of_hint hget, hnone] at hown
    cases hown
  | none =>
    have hsame := h.text_eq_autoId hauto ha hnone hget
    exact .inr ⟨rfl, hsame, fun hsome => h.created_once hauto ha hnone (hsame ▸ hsome)⟩

/-- The priorities hold exactly where the layers are apart. -/
theorem honours_priorities_iff (valueText : Doc → String) (spec : ImportSpec)
    (d : ResourceDiscovery) :
    HonoursPriorities valueText spec d ↔ LayersApart valueText spec d :=
  ⟨HonoursPriorities.layersApart, LayersApart.honours⟩

end Honours

/-- The creates of a typed plan: the managed resources it creates. -/
theorem mem_creates_discovery {changes : List DiscoverableChange} {address : String} :
    address ∈ (discoveryFromPlannedChanges changes).creates ↔
      ∃ c ∈ changes, c.action = .create ∧ c.kind = .managed ∧ c.address = address := by
  simp only [discoveryFromPlannedChanges, List.mem_map, List.mem_filter, Bool.and_eq_true,
    decide_eq_true_eq, and_assoc]

/-- A hint with a variable nobody set. -/
def unsetHint : ImportSpec where
  importHints := ⟨[("github_repository.docs", "{{ .docs_repo }}")], by simp⟩
  importPolicy := none
  variables' := .empty

def noHints : ImportSpec := ⟨.empty, none, .empty⟩

/-- A template for repositories. -/
def pinnedRepositories : ImportSpec where
  importHints := .empty
  importPolicy := some { naturalIds := ⟨[("github_repository", "pinned")], by simp⟩ }
  variables' := .empty

def docsChange (address id : String) : DiscoverableChange :=
  ⟨⟨address, .create⟩, none, .managed, some ⟨id, true⟩⟩

def docsResource (modules : List ModuleCall) : ResourceAddress :=
  ⟨modules, "github_repository", "docs", none, by decide⟩

/-- The discovery of creates of `docs`, each in the root module or in `net`, with the ids derived
for them. -/
def docsDiscovery (modules : List ModuleCall) (ids : List String) : ResourceDiscovery where
  toDiscovery := discoveryFromPlannedChanges (ids.map (docsChange (docsResource modules).render))
  resources := ids.map (fun _ => docsResource modules)
  created := by
    induction ids with
    | nil => rfl
    | cons id ids ih => exact congrArg ((docsResource modules).render :: ·) ih

/-- The create whose hint does not render is skipped, and imported under the derived id. Two keyed
instances, which have one address in the plan, are two targets. And a create in a module is imported
under the derived id although its type has a template. -/
theorem layers_overlap :
    ¬ HonoursPriorities (fun _ => "") unsetHint (docsDiscovery [] ["docs"]) ∧
      ¬ HonoursPriorities (fun _ => "") noHints (docsDiscovery [] ["docs", "docs-old"]) ∧
      ¬ HonoursPriorities (fun _ => "") pinnedRepositories
        (docsDiscovery [⟨"net", none⟩] ["docs"]) := by
  refine ⟨fun h => ?_, fun h => ?_, fun h => ?_⟩
  · have htarget : ⟨"github_repository.docs", "docs", .auto⟩ ∈ (resolveImportTargets (fun _ => "")
        unsetHint (docsDiscovery [] ["docs"]).toDiscovery).1 := by decide +kernel
    have hskip : ImportSkip.hint "github_repository.docs" "docs_repo" ∈ (resolveImportTargets
        (fun _ => "") unsetHint (docsDiscovery [] ["docs"]).toDiscovery).2 := by
      decide +kernel
    exact h.apart _ hskip _ htarget rfl
  · have htwice : ¬ ((resolveImportTargets (fun _ => "") noHints
        (docsDiscovery [] ["docs", "docs-old"]).toDiscovery).1.map ImportTarget.address).Nodup := by
      decide +kernel
    exact htwice h.distinct
  · have htarget : ⟨"module.net.github_repository.docs", "docs", .auto⟩ ∈ (resolveImportTargets
        (fun _ => "") pinnedRepositories
        (docsDiscovery [⟨"net", none⟩] ["docs"]).toDiscovery).1 := by decide +kernel
    have hown := h.own _ htarget (docsResource [⟨"net", none⟩]) List.mem_cons_self
      (by decide +kernel)
    have hpinned : priorityId (fun _ => "") pinnedRepositories
        (docsDiscovery [⟨"net", none⟩] ["docs"]) (docsResource [⟨"net", none⟩]) =
        some "pinned" := by
      decide +kernel
    exact absurd (hpinned.symm.trans hown) (by decide)

end PangeaOperator
