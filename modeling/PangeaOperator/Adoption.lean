import PangeaOperator.Import
import PangeaOperator.Protection

/-!
# Creates after a failed adoption

When `handle_applying` may reach its apply call with a create whose import was called for
and neither succeeded nor found the resource absent. The theorem names the answers for
which it cannot; the remaining ones let a duplicate through.
-/

namespace PangeaOperator

open Json Applying

section Adoption

variable (valueText : Doc → String) (parseValue : String → Option Doc) (p : PrepassInput)
  (priorDrifts : List DriftDetail)

/-- What became of the imports that were called for. -/
def attemptedImports : List (String × Option ImportFailure) :=
  if p.importCredentials then
    importResults p (prepassTargets valueText parseValue p priorDrifts)
  else []

/-- An import target that was neither imported nor found absent. -/
def Unadopted (address : String) : Prop :=
  address ∈ (prepassTargets valueText parseValue p priorDrifts).map ImportTarget.address ∧
    ∀ r ∈ attemptedImports valueText parseValue p priorDrifts,
      r.1 = address → r.2 = some .ambiguous

theorem map_fst_importResults (targets : List ImportTarget) :
    (importResults p targets).map Prod.fst = targets.map ImportTarget.address := by
  have h : targets.zipIdx.map (ImportTarget.address ∘ Prod.fst) =
      targets.map ImportTarget.address := by
    rw [← List.map_map, List.zipIdx_map_fst]
  rw [importResults, List.map_map]
  exact h

variable {valueText parseValue p priorDrifts} {address : String}

theorem Unadopted.not_mem_imported (h : Unadopted valueText parseValue p priorDrifts address) :
    address ∉ (runImportPrepass valueText parseValue p priorDrifts).imported := by
  intro hm
  unfold runImportPrepass at hm
  split at hm
  · next hcreds =>
    obtain ⟨r, hr, rfl⟩ := List.mem_map.mp hm
    obtain ⟨hr, hnone⟩ := List.mem_filter.mp hr
    have hamb := h.2 r (by rw [attemptedImports, if_pos hcreds]; exact hr) rfl
    simp [hamb] at hnone
  · simp at hm

/-- With credentials every unadopted target blocks its create. -/
theorem Unadopted.mem_blocking (h : Unadopted valueText parseValue p priorDrifts address)
    (hcreds : p.importCredentials = true) :
    address ∈ (runImportPrepass valueText parseValue p priorDrifts).blocking := by
  obtain ⟨hmem, hamb⟩ := h
  rw [← map_fst_importResults p] at hmem
  obtain ⟨r, hr, rfl⟩ := List.mem_map.mp hmem
  have hattempted : ∀ r' ∈ importResults p (prepassTargets valueText parseValue p priorDrifts),
      r'.1 = r.1 → r'.2 = some .ambiguous := by
    intro r' hr' he
    exact hamb r' (by rw [attemptedImports, if_pos hcreds]; exact hr') he
  rw [ImportPrepass.blocking, runImportPrepass, if_pos hcreds, List.mem_filter]
  refine ⟨?_, ?_⟩
  · refine List.mem_map.mpr ⟨r, List.mem_filter.mpr ⟨hr, ?_⟩, rfl⟩
    simp [hattempted r hr rfl]
  · rw [decide_eq_true_eq]
    intro habsent
    obtain ⟨r', hr', he⟩ := List.mem_map.mp habsent
    obtain ⟨hr', ha⟩ := List.mem_filter.mp hr'
    rw [hattempted r' hr' he] at ha
    simp at ha

theorem planMayBeStale_of_mem_blocking {q : ImportPrepass} (h : address ∈ q.blocking) :
    q.planMayBeStale = true := by
  have hne : q.blocking ≠ [] := List.ne_nil_of_mem h
  simp [ImportPrepass.planMayBeStale, hne]

end Adoption

section Reached

variable (fromJson : String → Option Plan) (s : Status) (i : ApplyingInput)

/-- Every gate but the recheck after the imports lets the apply through. -/
structure OtherGatesOpen : Prop where
  config : i.configAvailable = true
  lock : i.lock = some .proceed
  recorded : destroyProtectionRefusal s i = none
  bare : i.hasPlanFile = false →
    recheckDestroyProtectionBeforeBareApply fromJson i i.beforeApply = none

theorem applyWith_applies_ne_nil (call : ApplyCall) :
    (applyWith fromJson s i call).applies ≠ [] := by
  obtain ⟨n, hn⟩ := applyWith_applies fromJson s i call
  simp [hn]

theorem applies_ne_nil_iff :
    (handleApplying fromJson s i).applies ≠ [] ↔
      OtherGatesOpen fromJson s i ∧
        ∃ replanned, recheckAfterImport fromJson s i = .passed replanned := by
  have hopen : OtherGatesOpen fromJson s i ↔ i.configAvailable = true ∧ i.lock = some .proceed ∧
      destroyProtectionRefusal s i = none ∧
      (i.hasPlanFile = false →
        recheckDestroyProtectionBeforeBareApply fromJson i i.beforeApply = none) :=
    ⟨fun h => ⟨h.config, h.lock, h.recorded, h.bare⟩, fun ⟨a, b, c, d⟩ => ⟨a, b, c, d⟩⟩
  have hnil : ¬ ([] : List ApplyCall) ≠ [] := fun h => h rfl
  rw [hopen, handleApplying_calls_iff (P := (· ≠ [])) fromJson s i hnil,
    applyLocked_calls_iff (P := (· ≠ [])) fromJson s i hnil]
  simp only [ne_eq, applyWith_applies_ne_nil, not_false_eq_true, and_true]
  cases i.hasPlanFile with
  | true =>
    simp
    tauto
  | false =>
    simp
    tauto

/-- The plan made again after the imports, as far as it can be read. -/
def recheckChanges : Option (List (String × String)) :=
  (i.recheck.filter PlanResult.success).bind (fun r => planChanges fromJson r i.recheckBundle)

/-- A recheck that is not read passes everything. -/
theorem recheckAfterImport_of_not_read {r : PlanResult} (hr : i.recheck = some r)
    (hn : recheckChanges fromJson i = none) :
    ∃ replanned, recheckAfterImport fromJson s i = .passed replanned := by
  unfold recheckAfterImport
  cases i.prepass.planMayBeStale with
  | false => exact ⟨false, rfl⟩
  | true =>
    cases hs : r.success with
    | false => exact ⟨false, by simp [hr, hs]⟩
    | true =>
      have hunread : planChanges fromJson r i.recheckBundle = none := by
        simpa [recheckChanges, hr, hs] using hn
      have hfresh : driftDetailsFromPlanResult fromJson r i.recheckBundle = [] := by
        rw [← analysePlan_drifts, analysePlan_of_not_analysed hunread]
      exact ⟨true, by simp [hr, hs, hfresh, findUnimportedCreate,
        findUnapprovedDestructiveEscalation]⟩

/-- A recheck that is read and passes has no create that a failed import blocks. -/
theorem not_create_of_recheck_passed {changes : List (String × String)} {replanned : Bool}
    (hstale : i.prepass.planMayBeStale = true) (hread : recheckChanges fromJson i = some changes)
    (h : recheckAfterImport fromJson s i = .passed replanned) {address : String}
    (hb : address ∈ i.prepass.blocking) : (address, "create") ∉ changes := by
  obtain ⟨r, hr, hchanges⟩ := Option.bind_eq_some_iff.mp hread
  obtain ⟨hr, hs⟩ := Option.filter_eq_some_iff.mp hr
  unfold recheckAfterImport at h
  simp only [hstale, hr, hs, Bool.not_true, Bool.false_eq_true, if_false] at h
  have hnone : findUnimportedCreate i.prepass.blocking
      (driftDetailsFromPlanResult fromJson r i.recheckBundle) = none := by
    by_contra hne
    obtain ⟨d, hd⟩ := Option.ne_none_iff_exists'.mp hne
    simp [hd] at h
  intro hmem
  rw [← (analysePlan_of_planChanges hchanges).2, analysePlan_drifts] at hmem
  obtain ⟨d, hd, he⟩ := List.mem_map.mp hmem
  have haddress : d.address = address := congrArg Prod.fst he
  have haction : d.action = "create" := congrArg Prod.snd he
  have hfound := List.find?_eq_none.mp hnone d hd
  simp [haddress, haction, hb] at hfound

end Reached

/-- The creates an apply carries out. A recheck that went through left the plan it made; without
one every planned create that was not imported is still to be made. -/
structure CarriesOut (fromJson : String → Option Plan) (i : ApplyingInput)
    (planned actions : List (String × String)) : Prop where
  rechecked : i.prepass.planMayBeStale = true → ∀ changes,
    recheckChanges fromJson i = some changes →
      ∀ a, (a, "create") ∈ actions ↔ (a, "create") ∈ changes
  planned : (i.prepass.planMayBeStale = true → recheckChanges fromJson i = none) →
    ∀ a, (a, "create") ∈ actions ↔ (a, "create") ∈ planned ∧ a ∉ i.prepass.imported

section NoDuplicate

variable (valueText : Doc → String) (parseValue : String → Option Doc)
  {fromJson : String → Option Plan} {s : Status} {p : PrepassInput} {i : ApplyingInput}
  {planned actions : List (String × String)}

/-- Without credentials the pre-pass reports nothing. -/
theorem planMayBeStale_of_no_credentials (drifts : List DriftDetail)
    (hcreds : p.importCredentials = false) :
    (runImportPrepass valueText parseValue p drifts).planMayBeStale = false := by
  rw [runImportPrepass, hcreds]
  rfl

/-- A plan that could not be read after the imports, or was not made, holds nothing back. -/
theorem recheck_passes
    (hprepass : i.prepass = runImportPrepass valueText parseValue p s.driftDetails)
    (hunread : p.importCredentials = true → i.recheck ≠ none ∧ recheckChanges fromJson i = none) :
    ∃ replanned, recheckAfterImport fromJson s i = .passed replanned := by
  cases hc : p.importCredentials with
  | true =>
    obtain ⟨r, hr⟩ := Option.ne_none_iff_exists'.mp (hunread hc).1
    exact recheckAfterImport_of_not_read fromJson s i hr (hunread hc).2
  | false =>
    refine ⟨false, (recheckAfterImport_eq_passed_false_iff fromJson s i).mpr ?_⟩
    intro hstale
    rw [hprepass, planMayBeStale_of_no_credentials valueText parseValue _ hc] at hstale
    cases hstale

/-- What the gates let through then is the planned list. -/
theorem recheckChanges_of_unread
    (hprepass : i.prepass = runImportPrepass valueText parseValue p s.driftDetails)
    (hunread : p.importCredentials = true → i.recheck ≠ none ∧ recheckChanges fromJson i = none)
    (hstale : i.prepass.planMayBeStale = true) : recheckChanges fromJson i = none := by
  cases hc : p.importCredentials with
  | true => exact (hunread hc).2
  | false =>
    rw [hprepass, planMayBeStale_of_no_credentials valueText parseValue _ hc] at hstale
    cases hstale

/-- A recheck that was read and passed does not create an unadopted target. -/
theorem not_create_of_read
    (hprepass : i.prepass = runImportPrepass valueText parseValue p s.driftDetails)
    (hactions : CarriesOut fromJson i planned actions)
    (hstale : i.prepass.planMayBeStale = true) {changes : List (String × String)}
    (hchanges : recheckChanges fromJson i = some changes) {replanned : Bool}
    (hpassed : recheckAfterImport fromJson s i = .passed replanned) {a : String}
    (ha : Unadopted valueText parseValue p s.driftDetails a) : (a, "create") ∉ actions := by
  intro hcreate
  have hcreds : p.importCredentials = true := by
    by_contra hc
    rw [hprepass, planMayBeStale_of_no_credentials valueText parseValue _
      (Bool.eq_false_iff.mpr hc)] at hstale
    cases hstale
  have hblocking : a ∈ i.prepass.blocking := by
    rw [hprepass]
    exact ha.mem_blocking hcreds
  exact not_create_of_recheck_passed fromJson s i hstale hchanges hpassed hblocking
    ((hactions.rechecked hstale changes hchanges a).mp hcreate)

/-- The apply is reached only if no unadopted target is a create of what it carries out: exactly
when another gate holds it back, or no unadopted target was a planned create, or the imports
ran and the plan made after them ended the reconcile with an error or could be read. -/
theorem no_duplicate_create_iff
    (hprepass : i.prepass = runImportPrepass valueText parseValue p s.driftDetails)
    (hactions : CarriesOut fromJson i planned actions) :
    ((handleApplying fromJson s i).applies ≠ [] →
        ∀ a, Unadopted valueText parseValue p s.driftDetails a → (a, "create") ∉ actions) ↔
      (¬OtherGatesOpen fromJson s i ∨
        (∀ a, Unadopted valueText parseValue p s.driftDetails a → (a, "create") ∉ planned) ∨
        (p.importCredentials = true ∧
          (i.recheck = none ∨ recheckChanges fromJson i ≠ none))) := by
  rw [applies_ne_nil_iff]
  constructor
  · intro hall
    by_contra hcond
    push Not at hcond
    obtain ⟨hopen, ⟨a, ha, hplanned⟩, hunread⟩ := hcond
    have hpassed := recheck_passes valueText parseValue hprepass hunread
    have hunadopted : a ∉ i.prepass.imported := by
      rw [hprepass]
      exact ha.not_mem_imported
    have hcreate : (a, "create") ∈ actions :=
      (hactions.planned (recheckChanges_of_unread valueText parseValue hprepass hunread) a).mpr
        ⟨hplanned, hunadopted⟩
    exact hall ⟨hopen, hpassed⟩ a ha hcreate
  · rintro hcond ⟨hopen, replanned, hpassed⟩ a ha hcreate
    by_cases hread : i.prepass.planMayBeStale = true ∧ recheckChanges fromJson i ≠ none
    · obtain ⟨changes, hchanges⟩ := Option.ne_none_iff_exists'.mp hread.2
      exact not_create_of_read valueText parseValue hprepass hactions hread.1 hchanges hpassed ha
        hcreate
    · have hnone : i.prepass.planMayBeStale = true → recheckChanges fromJson i = none := by
        intro hstale
        by_contra hne
        exact hread ⟨hstale, hne⟩
      have hplanned := ((hactions.planned hnone a).mp hcreate).1
      rcases hcond with hclosed | hnot | ⟨hcreds, herror⟩
      · exact hclosed hopen
      · exact hnot a ha hplanned
      · have hblocking : a ∈ i.prepass.blocking := by
          rw [hprepass]
          exact ha.mem_blocking hcreds
        have hstale := planMayBeStale_of_mem_blocking hblocking
        rcases herror with herror | hne
        · simp [recheckAfterImport, hstale, herror] at hpassed
        · exact hne (hnone hstale)

end NoDuplicate

/-- A hint for one repository of a plan that creates it. -/
def hintedPrepass (importCredentials : Bool) : PrepassInput where
  spec := ⟨⟨[("github_repository.docs", "docs")], by simp⟩, none, .empty⟩
  credentials := true
  planned := some (some [⟨⟨"github_repository.docs", .create⟩, none, .managed, none⟩])
  shown := none
  importCredentials := importCredentials
  answers _ _ := none

/-- An apply after that pre-pass, whose recheck lists these changes. -/
def hintedApplying (importCredentials : Bool) (changes : List TypedResourceChange) :
    ApplyingInput :=
  { protectedApplying with
    prepass := runImportPrepass (fun _ => "") (fun _ => none) (hintedPrepass importCredentials) []
    recheck := some ⟨some ⟨{}, changes⟩, "", true, true, ""⟩ }

def docsCreate : List (String × String) := [("github_repository.docs", "create")]

theorem docs_unadopted (importCredentials : Bool) :
    Unadopted (fun _ => "") (fun _ => none) (hintedPrepass importCredentials) []
      "github_repository.docs" := by
  have htargets :
      prepassTargets (fun _ => "") (fun _ => none) (hintedPrepass importCredentials) [] =
      [⟨"github_repository.docs", "docs", .hint⟩] := by
    cases importCredentials <;> decide +kernel
  refine ⟨by simp [htargets], ?_⟩
  intro r hr _
  unfold attemptedImports at hr
  split at hr
  · rw [htargets] at hr
    rw [List.mem_singleton.mp hr]
    rfl
  · cases hr

def createAgain : List TypedResourceChange := [⟨"github_repository.docs", .create, .functional⟩]

theorem carriesOut_createAgain :
    CarriesOut (fun _ => none) (hintedApplying true createAgain) docsCreate docsCreate := by
  have hread : recheckChanges (fun _ => none) (hintedApplying true createAgain) =
      some docsCreate := rfl
  have hstale : (hintedApplying true createAgain).prepass.planMayBeStale = true := by
    decide +kernel
  refine ⟨fun _ changes hchanges a => ?_, fun hnone => ?_⟩
  · rw [← Option.some.inj (hread.symm.trans hchanges)]
  · rw [hread] at hnone
    exact absurd (hnone hstale) (by simp)

/-- The import errors, the plan made again still creates the repository, and the apply is
refused. -/
theorem blocked_create_not_applied :
    (handleApplying (fun _ => none) {} (hintedApplying true createAgain)).applies = [] := by
  have hsafe := (no_duplicate_create_iff (s := {}) (p := hintedPrepass true) (fun _ => "")
    (fun _ => none) rfl carriesOut_createAgain).mpr (.inr (.inr ⟨rfl, .inr (by decide +kernel)⟩))
  by_contra hreached
  exact hsafe hreached "github_repository.docs" (docs_unadopted true) (by decide)

/-- Where the credentials no longer resolve when the imports are due, the planned create is
applied. -/
theorem unresolved_import_is_created :
    CarriesOut (fun _ => none) (hintedApplying false []) docsCreate docsCreate ∧
    Unadopted (fun _ => "") (fun _ => none) (hintedPrepass false) [] "github_repository.docs" ∧
    ¬((handleApplying (fun _ => none) {} (hintedApplying false [])).applies ≠ [] →
      ∀ a, Unadopted (fun _ => "") (fun _ => none) (hintedPrepass false) [] a →
        (a, "create") ∉ docsCreate) := by
  have hidle : (hintedApplying false []).prepass = {} := rfl
  refine ⟨⟨?_, ?_⟩, docs_unadopted false, ?_⟩
  · intro hstale
    rw [hidle] at hstale
    cases hstale
  · intro _ a
    simp [hidle]
  · intro hall
    have hreached : (handleApplying (fun _ => none) {} (hintedApplying false [])).applies ≠ [] := by
      rw [applies_ne_nil_iff]
      exact ⟨⟨rfl, rfl, rfl, fun h => absurd h (by decide)⟩, false, rfl⟩
    exact hall hreached "github_repository.docs" (docs_unadopted false) (by simp [docsCreate])

end PangeaOperator
