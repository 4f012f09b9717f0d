import PangeaOperator.OrgCatalogue

/-!
# The records of the repositories

What the architecture reads of a resolved row, and the check of the catalogue that comes before.
The check reads the rows as they are written.
-/

namespace PangeaOperator

open Json

structure LiveRepo where
  visibility : String

abbrev RepoRecord := SortedMap String String

/-- A truth value as the `:when` gates read it. -/
def b : Bool → String
  | true => "true"
  | false => "false"

structure BranchProtectionPreset where
  enforceAdmins : Bool
  requireSignedCommits : Bool
  requiredLinearHistory : Bool

namespace BranchProtectionPreset

def pilot : BranchProtectionPreset := ⟨false, false, false⟩

def standard : BranchProtectionPreset := pilot

def hardened : BranchProtectionPreset := ⟨true, true, true⟩

def parse : String → Option BranchProtectionPreset
  | "pilot" => some pilot
  | "standard" => some standard
  | "hardened" => some hardened
  | _ => none

end BranchProtectionPreset

/-- The name of a repository as the name of a resource. -/
def tfSlug (name : String) : String :=
  let s := name.toList.map (fun c => if c.isAlphanum || c == '_' then c else '_')
  if s.head?.any (fun c => c.isAlpha || c == '_') then String.ofList s
  else "r_" ++ String.ofList s

def declaredVisibility (row : OrgRepoRow) : String := row.overlay.visibility.getD "private"

/-- An archived repository is not protected. -/
def protectionPreset (row : OrgRepoRow) : Option BranchProtectionPreset :=
  if row.overlay.archived.getD false then none
  else BranchProtectionPreset.parse (row.overlay.branchProtection.getD "none")

def actionsOn (row : OrgRepoRow) : Bool :=
  row.overlay.actionsEnabled.getD (declaredVisibility row ≠ "internal")

def recordEntries (row : OrgRepoRow) (live : Option LiveRepo) : List (String × String) := [
  ("name", row.name),
  ("slug", tfSlug row.name),
  ("renamed_from", String.intercalate "," row.renamedFrom),
  ("description", row.overlay.description.getD ""),
  ("visibility", declaredVisibility row),
  ("archived", b (row.overlay.archived.getD false)),
  ("has_issues", b (row.overlay.hasIssues.getD true)),
  ("delete_branch_on_merge", b (row.overlay.deleteBranchOnMerge.getD true)),
  ("standard_labels", b (row.overlay.standardLabels.getD false)),
  ("default_branch", "main"),
  ("actions_enabled", b (actionsOn row)),
  ("actions_disabled", b (!actionsOn row)),
  ("has_branch_protection", b (protectionPreset row).isSome),
  ("bp_strict", b false),
  ("bp_enforce_admins", b ((protectionPreset row).any (·.enforceAdmins))),
  ("has_ci_shim", b false),
  ("ci_shim_slug", ""),
  ("ci_shim_path", ""),
  ("ci_shim_content", ""),
  ("exists_on_github", b live.isSome),
  ("live_visibility", live.elim (declaredVisibility row) (·.visibility))]

def recordFor (row : OrgRepoRow) (live : Option LiveRepo) : RepoRecord :=
  .ofList (recordEntries row live)

structure CatalogueViolation where
  repo : String
  field : String
  detail : String
  deriving DecidableEq, Repr

def descriptionMaxChars : Nat := 350

def repoNameChar (c : Char) : Bool := c.isAlphanum || c == '-' || c == '_' || c == '.'

def repoVisibilities : List String := ["public", "private", "internal"]

namespace OrgCatalogue

section Validate

variable (debugText : String → String) (debugChar : Char → String) (c : OrgCatalogue)

def descriptionViolations (row : OrgRepoRow) : List CatalogueViolation :=
  match row.overlay.description with
  | none => []
  | some desc =>
    if descriptionMaxChars < desc.length then
      [⟨row.name, "description", toString desc.length ++ " characters exceeds GitHub's limit of " ++
        toString descriptionMaxChars ++ "; the API answers 422 and the failure surfaces at apply " ++
        "time, naming a provider address rather than this row"⟩]
    else []

def nameViolations (row : OrgRepoRow) : List CatalogueViolation :=
  if row.name = "" then
    [⟨"<empty>", "name", "a row with an empty name resolves to a lookup of the org root " ++
      "and cannot be created"⟩]
  else
    match row.name.toList.find? (fun ch => !repoNameChar ch) with
    | none => []
    | some bad =>
      [⟨row.name, "name", "contains " ++ debugChar bad ++
        "; GitHub accepts ASCII alphanumerics, " ++
        "'-', '_' and '.'. An unacceptable name 404s on lookup, which reads as ABSENT — so this " ++
        "presents as a repository needing creation rather than as a bad row"⟩]

/-- What is wrong with a prior name of a row. -/
def priorNameDetail (row : OrgRepoRow) (old : String) : Option String :=
  if old = "" ∨ old.toList.any (fun ch => !repoNameChar ch) then
    some ("prior name " ++ debugText old ++ " is not a GitHub repository name")
  else
    match c.repos.find? (fun o => o.name = old ∨ tfSlug o.name = tfSlug old) with
    | some other =>
      some ("prior name " ++ debugText old ++ " collides with declared repo " ++
        debugText other.name ++ "; its state would be moved onto this one")
    | none =>
      ((c.repos.filter (fun o => o.name ≠ row.name)).find? fun o =>
          o.renamedFrom.any (fun x => tfSlug x = tfSlug old)).map fun o =>
        "prior name " ++ debugText old ++ " is also claimed by " ++ debugText o.name

def renamedFromViolations (row : OrgRepoRow) : List CatalogueViolation :=
  row.renamedFrom.filterMap fun old =>
    (c.priorNameDetail debugText row old).map (fun detail => ⟨row.name, "renamed_from", detail⟩)

def visibilityViolations (row : OrgRepoRow) : List CatalogueViolation :=
  match row.overlay.visibility with
  | none => []
  | some v =>
    if v ∈ repoVisibilities then []
    else
      [⟨row.name, "visibility", debugText v ++ " is not one of \x22public\x22, \x22private\x22, " ++
        "\x22internal\x22 (case-sensitive). The row parses, the plan compiles, and the provider " ++
        "answers 422"⟩]

def validateCatalogue : List CatalogueViolation :=
  c.repos.flatMap fun row =>
    descriptionViolations row ++ nameViolations debugChar row ++
      c.renamedFromViolations debugText row ++ visibilityViolations debugText row

end Validate

end OrgCatalogue

/-- A name that GitHub takes. -/
def RepoName (name : String) : Prop := name ≠ "" ∧ ∀ ch ∈ name.toList, repoNameChar ch = true

namespace OrgCatalogue

variable {debugText : String → String} {debugChar : Char → String}
  {serdeError : List (String × Doc) → String} {c : OrgCatalogue} {row : OrgRepoRow}

/-- A prior name that is no declared one and that no row of another name has. -/
structure Unclaimed (c : OrgCatalogue) (row : OrgRepoRow) (old : String) : Prop where
  name : RepoName old
  declared : ∀ o ∈ c.repos, tfSlug o.name ≠ tfSlug old
  claimed : ∀ o ∈ c.repos, o.name ≠ row.name → ∀ x ∈ o.renamedFrom, tfSlug x ≠ tfSlug old

/-- What the check asks of a row. -/
structure Accepted (c : OrgCatalogue) (row : OrgRepoRow) : Prop where
  description : ∀ d, row.overlay.description = some d → d.length ≤ descriptionMaxChars
  name : RepoName row.name
  renamedFrom : ∀ old ∈ row.renamedFrom, c.Unclaimed row old
  visibility : ∀ v, row.overlay.visibility = some v → v ∈ repoVisibilities

theorem descriptionViolations_eq_nil (h : descriptionViolations row = []) {d : String}
    (hd : row.overlay.description = some d) : d.length ≤ descriptionMaxChars := by
  rw [descriptionViolations, hd] at h
  by_contra hlong
  rw [not_le] at hlong
  simp [hlong] at h

theorem nameViolations_eq_nil (h : nameViolations debugChar row = []) : RepoName row.name := by
  rw [nameViolations] at h
  split at h
  · simp at h
  · next hne =>
    split at h
    · next hfind =>
      rw [List.find?_eq_none] at hfind
      exact ⟨hne, fun ch hch => by simpa using hfind ch hch⟩
    · simp at h

theorem priorNameDetail_eq_none {old : String} (h : c.priorNameDetail debugText row old = none) :
    c.Unclaimed row old := by
  rw [priorNameDetail] at h
  split at h
  · simp at h
  · next hbad =>
    rw [not_or] at hbad
    split at h
    · simp at h
    · next hfind =>
      rw [List.find?_eq_none] at hfind
      rw [Option.map_eq_none_iff, List.find?_eq_none] at h
      refine ⟨⟨hbad.1, fun ch hch => ?_⟩, fun o ho => ?_, fun o ho hne x hx hslug => ?_⟩
      · have hall := hbad.2
        simp only [List.any_eq_true, not_exists, not_and] at hall
        simpa using hall ch hch
      · have hno := hfind o ho
        rw [decide_eq_true_eq, not_or] at hno
        exact hno.2
      · refine h o (List.mem_filter.mpr ⟨ho, by simpa using hne⟩) ?_
        rw [List.any_eq_true]
        exact ⟨x, hx, by simpa using hslug⟩

theorem visibilityViolations_eq_nil (h : visibilityViolations debugText row = []) {v : String}
    (hv : row.overlay.visibility = some v) : v ∈ repoVisibilities := by
  rw [visibilityViolations, hv] at h
  by_contra hno
  simp [hno] at h

theorem accepted_of_validateCatalogue (h : c.validateCatalogue debugText debugChar = [])
    (hrow : row ∈ c.repos) : c.Accepted row := by
  have hall := List.flatMap_eq_nil_iff.mp h row hrow
  simp only [List.append_eq_nil_iff] at hall
  obtain ⟨⟨⟨hdesc, hname⟩, hold⟩, hvis⟩ := hall
  refine ⟨fun d => descriptionViolations_eq_nil hdesc, nameViolations_eq_nil hname, ?_,
    fun v => visibilityViolations_eq_nil hvis⟩
  intro old hmem
  rw [renamedFromViolations, List.filterMap_eq_nil_iff] at hold
  exact priorNameDetail_eq_none (Option.map_eq_none_iff.mp (hold old hmem))

/-- What the profiles and the defaults give a row, the last profile first. -/
def inherited (c : OrgCatalogue) (row : OrgRepoRow) (f : OverlayField) : Option f.Value :=
  ((c.profileSource row.inherits f).map Prod.snd).or (f.get c.repoDefaults)

theorem map_fieldSource (c : OrgCatalogue) (row : OrgRepoRow) (f : OverlayField) :
    (c.fieldSource row f).map Prod.snd = (f.get row.overlay).or (c.inherited row f) := by
  rw [fieldSource, inherited, Option.map_or, Option.map_or, Option.map_map, Option.map_map]
  simp

end OrgCatalogue

section Record

theorem keys_recordEntries (row : OrgRepoRow) (live : Option LiveRepo) :
    ((recordEntries row live).map Prod.fst).Nodup := by
  simp [recordEntries]

theorem get?_recordFor {row : OrgRepoRow} {live : Option LiveRepo} {k v : String}
    (h : (k, v) ∈ recordEntries row live) : (recordFor row live).get? k = some v :=
  (SortedMap.get?_ofList_iff (keys_recordEntries row live)).mpr h

variable (row : OrgRepoRow) (live : Option LiveRepo)

@[simp] theorem name_recordFor : (recordFor row live).get? "name" = some row.name :=
  get?_recordFor (by simp [recordEntries])

@[simp] theorem slug_recordFor : (recordFor row live).get? "slug" = some (tfSlug row.name) :=
  get?_recordFor (by simp [recordEntries])

@[simp] theorem description_recordFor :
    (recordFor row live).get? "description" = some (row.overlay.description.getD "") :=
  get?_recordFor (by simp [recordEntries])

@[simp] theorem visibility_recordFor :
    (recordFor row live).get? "visibility" = some (declaredVisibility row) :=
  get?_recordFor (by simp [recordEntries])

end Record

/-- A record that GitHub takes. -/
structure Renderable (r : RepoRecord) : Prop where
  name : ∃ name, r.get? "name" = some name ∧ RepoName name
  description : ∃ d, r.get? "description" = some d ∧ d.length ≤ descriptionMaxChars
  visibility : ∃ v, r.get? "visibility" = some v ∧ v ∈ repoVisibilities

namespace OrgCatalogue

variable {debugText : String → String} {debugChar : Char → String}
  {serdeError : List (String × Doc) → String} {c : OrgCatalogue} {row : OrgRepoRow}

/-- What a silent row inherits is what GitHub takes. -/
structure InheritsRenderable (c : OrgCatalogue) (row : OrgRepoRow) : Prop where
  visibility : row.overlay.visibility = none →
    ∀ v, c.inherited row .visibility = some v → v ∈ repoVisibilities
  description : row.overlay.description = none →
    ∀ d : String, c.inherited row .description = some d → d.length ≤ descriptionMaxChars

/-- A setting is good when the row's own is, and the inherited one where the row has none. -/
theorem forall_or_iff {α : Type} {good : α → Prop} {own inherited : Option α}
    (hown : ∀ a, own = some a → good a) :
    (∀ a, own.or inherited = some a → good a) ↔
      (own = none → ∀ a, inherited = some a → good a) := by
  cases own with
  | none => simp
  | some a => simpa using hown a rfl

theorem forall_getD_iff {α : Type} (good : α → Prop) (o : Option α) {d : α} (hd : good d) :
    good (o.getD d) ↔ ∀ a, o = some a → good a := by
  cases o with
  | none => simpa using hd
  | some a => simp

theorem renderable_iff (haccepted : c.Accepted row) {r : OrgRepoRow × SortedMap String Tier}
    (hresolves : c.Resolves row r) (live : Option LiveRepo) :
    Renderable (recordFor r.1 live) ↔ c.InheritsRenderable row := by
  have hdescription : r.1.overlay.description =
      row.overlay.description.or (c.inherited row .description) :=
    (hresolves.value .description).trans (c.map_fieldSource row .description)
  have hvisibility : r.1.overlay.visibility =
      row.overlay.visibility.or (c.inherited row .visibility) :=
    (hresolves.value .visibility).trans (c.map_fieldSource row .visibility)
  have hd : (r.1.overlay.description.getD "").length ≤ descriptionMaxChars ↔
      (row.overlay.description = none →
        ∀ d : String, c.inherited row .description = some d → d.length ≤ descriptionMaxChars) := by
    have hset := forall_getD_iff (fun d : String => d.length ≤ descriptionMaxChars)
      r.1.overlay.description (by decide : "".length ≤ descriptionMaxChars)
    rw [hset, hdescription]
    exact forall_or_iff haccepted.description
  have hv : declaredVisibility r.1 ∈ repoVisibilities ↔
      (row.overlay.visibility = none →
        ∀ v, c.inherited row .visibility = some v → v ∈ repoVisibilities) := by
    have hset := forall_getD_iff (fun v => v ∈ repoVisibilities) r.1.overlay.visibility
      (by decide : "private" ∈ repoVisibilities)
    rw [declaredVisibility, hset, hvisibility]
    exact forall_or_iff haccepted.visibility
  constructor
  · rintro ⟨-, ⟨d, hdr, hdgood⟩, v, hvr, hvgood⟩
    rw [description_recordFor] at hdr
    rw [visibility_recordFor] at hvr
    exact ⟨hv.mp (Option.some.inj hvr ▸ hvgood), hd.mp (Option.some.inj hdr ▸ hdgood)⟩
  · rintro ⟨hvis, hdesc⟩
    refine ⟨⟨_, name_recordFor r.1 live, ?_⟩, ⟨_, description_recordFor r.1 live, hd.mpr hdesc⟩,
      _, visibility_recordFor r.1 live, hv.mpr hvis⟩
    rw [hresolves.name]
    exact haccepted.name

/-- In a catalogue without violations the records are what GitHub takes where every row that is
silent about its visibility or its description inherits one that is. -/
theorem renderable_records_iff (hvalid : c.validateCatalogue debugText debugChar = [])
    {rows : List (OrgRepoRow × SortedMap String Tier)}
    (hrows : c.resolvedRows debugText serdeError = .ok rows) :
    (∀ r ∈ rows, ∀ live, Renderable (recordFor r.1 live)) ↔
      ∀ row ∈ c.repos, c.InheritsRenderable row := by
  obtain ⟨zs, hrepos, rfl, hzs⟩ := exists_pairs_of_forall₂ (resolves_of_resolvedRows hrows)
  have haccepted : ∀ z ∈ zs, c.Accepted z.1 := fun z hz =>
    accepted_of_validateCatalogue hvalid (hrepos ▸ List.mem_map_of_mem hz)
  rw [hrepos, List.forall_mem_map, List.forall_mem_map]
  refine forall₂_congr fun z hz => ⟨fun h => ?_, fun h live => ?_⟩
  · exact (renderable_iff (haccepted z hz) (hzs z hz) none).mp (h none)
  · exact (renderable_iff (haccepted z hz) (hzs z hz) live).mpr h

/-- One row that says nothing, over defaults in the wrong case. -/
def shoutingDefaults : OrgCatalogue where
  repoDefaults := { visibility := some "Public" }
  repos := [{ name := "a" }]

theorem not_renderable_shoutingDefaults :
    shoutingDefaults.validateCatalogue id (fun _ => "") = [] ∧
      ∃ rows, shoutingDefaults.resolvedRows id (fun _ => "") = .ok rows ∧
        ¬ ∀ r ∈ rows, ∀ live, Renderable (recordFor r.1 live) := by
  have hdeclared : shoutingDefaults.Declared { name := "a" } := by simp [Declared]
  obtain ⟨r, hr, hresolves⟩ := resolvedRow_of_declared id (fun _ => "") hdeclared
  refine ⟨by decide, [r], mapM_eq_ok_iff.mpr (.cons hr .nil), fun h => ?_⟩
  obtain ⟨-, -, v, hv, hgood⟩ := h r List.mem_cons_self none
  have hvalue : r.1.overlay.visibility = some "Public" := hresolves.value .visibility
  rw [visibility_recordFor, declaredVisibility, hvalue] at hv
  rw [← Option.some.inj hv] at hgood
  exact absurd hgood (by decide)

/-- The same row over defaults that are in order. -/
def quietDefaults : OrgCatalogue where
  repoDefaults := { visibility := some "public" }
  repos := [{ name := "a" }]

theorem renderable_records_quietDefaults :
    ∃ rows, quietDefaults.resolvedRows id (fun _ => "") = .ok rows ∧
      ∀ r ∈ rows, ∀ live, Renderable (recordFor r.1 live) := by
  have hdeclared : quietDefaults.Declared { name := "a" } := by simp [Declared]
  obtain ⟨r, hr, -⟩ := resolvedRow_of_declared id (fun _ => "") hdeclared
  have hrows : quietDefaults.resolvedRows id (fun _ => "") = .ok [r] :=
    mapM_eq_ok_iff.mpr (.cons hr .nil)
  have hvalid : quietDefaults.validateCatalogue id (fun _ => "") = [] := by decide
  refine ⟨[r], hrows, (renderable_records_iff hvalid hrows).mpr fun row hrow => ?_⟩
  rw [List.mem_singleton.mp hrow]
  have hvisibility : quietDefaults.inherited { name := "a" } .visibility = some "public" := by
    decide +kernel
  have hdescription : quietDefaults.inherited { name := "a" } .description = none := by
    decide +kernel
  constructor
  · rintro - v hv
    obtain rfl := Option.some.inj (hvisibility.symm.trans hv)
    decide
  · rintro - d hd
    cases hdescription.symm.trans hd

end OrgCatalogue

end PangeaOperator
