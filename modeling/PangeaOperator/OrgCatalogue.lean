import PangeaOperator.Lib.Codec
import PangeaOperator.Lib.LastWins
import PangeaOperator.Lib.SortedMap
import PangeaOperator.Lib.Yields

/-!
# The catalogue of an organization

The tiers of `org.yaml` in `org_resolve.rs`: the defaults of the workspace, the profiles that a row
inherits, and the row. Each tier is laid over the one before it as a JSON object, and beside the
fold runs a map that keeps the tier of every setting.
-/

namespace PangeaOperator

open Json

inductive ForkPrApproval where
  | firstTimeContributorsNewToGithub
  | firstTimeContributors
  | allExternalContributors
  deriving DecidableEq, Repr

def ForkPrApproval.name : ForkPrApproval → String
  | firstTimeContributorsNewToGithub => "first_time_contributors_new_to_github"
  | firstTimeContributors => "first_time_contributors"
  | allExternalContributors => "all_external_contributors"

def ForkPrApproval.parse : String → Option ForkPrApproval
  | "first_time_contributors_new_to_github" => some firstTimeContributorsNewToGithub
  | "first_time_contributors" => some firstTimeContributors
  | "all_external_contributors" => some allExternalContributors
  | _ => none

inductive ActionsAccessLevel where
  | none
  | user
  | organization
  | enterprise
  deriving DecidableEq, Repr

def ActionsAccessLevel.name : ActionsAccessLevel → String
  | none => "none"
  | user => "user"
  | organization => "organization"
  | enterprise => "enterprise"

def ActionsAccessLevel.parse : String → Option ActionsAccessLevel
  | "none" => some none
  | "user" => some user
  | "organization" => some organization
  | "enterprise" => some enterprise
  | _ => Option.none

/-- The settings of a repository that a tier may speak to. -/
structure RepoOverlay where
  description : Option String := none
  visibility : Option String := none
  archived : Option Bool := none
  branchProtection : Option String := none
  standardLabels : Option Bool := none
  hasIssues : Option Bool := none
  deleteBranchOnMerge : Option Bool := none
  actionsEnabled : Option Bool := none
  forkPrApproval : Option ForkPrApproval := none
  actionsAccessLevel : Option ActionsAccessLevel := none

inductive OverlayField where
  | description
  | visibility
  | archived
  | branchProtection
  | standardLabels
  | hasIssues
  | deleteBranchOnMerge
  | actionsEnabled
  | forkPrApproval
  | actionsAccessLevel
  deriving DecidableEq, Repr

namespace OverlayField

def name : OverlayField → String
  | description => "description"
  | visibility => "visibility"
  | archived => "archived"
  | branchProtection => "branch_protection"
  | standardLabels => "standard_labels"
  | hasIssues => "has_issues"
  | deleteBranchOnMerge => "delete_branch_on_merge"
  | actionsEnabled => "actions_enabled"
  | forkPrApproval => "fork_pr_approval"
  | actionsAccessLevel => "actions_access_level"

abbrev Value : OverlayField → Type
  | description => String
  | visibility => String
  | archived => Bool
  | branchProtection => String
  | standardLabels => Bool
  | hasIssues => Bool
  | deleteBranchOnMerge => Bool
  | actionsEnabled => Bool
  | forkPrApproval => ForkPrApproval
  | actionsAccessLevel => ActionsAccessLevel

def codec : (f : OverlayField) → Codec f.Value
  | description => .string
  | visibility => .string
  | archived => .bool
  | branchProtection => .string
  | standardLabels => .bool
  | hasIssues => .bool
  | deleteBranchOnMerge => .bool
  | actionsEnabled => .bool
  | forkPrApproval => .enum ForkPrApproval.name ForkPrApproval.parse (by intro a; cases a <;> rfl)
  | actionsAccessLevel =>
    .enum ActionsAccessLevel.name ActionsAccessLevel.parse (by intro a; cases a <;> rfl)

def get : (f : OverlayField) → RepoOverlay → Option f.Value
  | description => RepoOverlay.description
  | visibility => RepoOverlay.visibility
  | archived => RepoOverlay.archived
  | branchProtection => RepoOverlay.branchProtection
  | standardLabels => RepoOverlay.standardLabels
  | hasIssues => RepoOverlay.hasIssues
  | deleteBranchOnMerge => RepoOverlay.deleteBranchOnMerge
  | actionsEnabled => RepoOverlay.actionsEnabled
  | forkPrApproval => RepoOverlay.forkPrApproval
  | actionsAccessLevel => RepoOverlay.actionsAccessLevel

def all : List OverlayField := [
  description, visibility, archived, branchProtection, standardLabels, hasIssues,
  deleteBranchOnMerge, actionsEnabled, forkPrApproval, actionsAccessLevel]

theorem mem_all (f : OverlayField) : f ∈ all := by cases f <;> decide

theorem names_nodup : (all.map name).Nodup := by decide

theorem codec_flat (f : OverlayField) : f.codec.Flat := by
  cases f <;> simp only [codec] <;> simp

end OverlayField

namespace RepoOverlay

def ofFields (g : (f : OverlayField) → Option f.Value) : RepoOverlay where
  description := g .description
  visibility := g .visibility
  archived := g .archived
  branchProtection := g .branchProtection
  standardLabels := g .standardLabels
  hasIssues := g .hasIssues
  deleteBranchOnMerge := g .deleteBranchOnMerge
  actionsEnabled := g .actionsEnabled
  forkPrApproval := g .forkPrApproval
  actionsAccessLevel := g .actionsAccessLevel

@[simp] theorem get_ofFields (g : (f : OverlayField) → Option f.Value) (f : OverlayField) :
    f.get (ofFields g) = g f := by
  cases f <;> rfl

def fields (o : RepoOverlay) : List (String × Option Doc) :=
  OverlayField.all.map (fun f => (f.name, (f.get o).map f.codec.enc))

/-- `serde_json::to_value`: a setting that is unset is left out. -/
def toValue (o : RepoOverlay) : Doc := record o.fields

/-- `serde_json::from_value`, on the members of an object: no other members, and a value of its type
or null at each. -/
def fromValue (ms : List (String × Doc)) : Option RepoOverlay :=
  if (∀ m ∈ ms, m.1 ∈ OverlayField.all.map OverlayField.name) ∧
      ∀ f ∈ OverlayField.all, (Slot.readOption f.codec (lookup f.name ms)).isSome then
    some (ofFields fun f => (Slot.readOption f.codec (lookup f.name ms)).getD none)
  else none

end RepoOverlay

structure OrgRepoRow where
  name : String
  inherits : List String := []
  renamedFrom : List String := []
  overlay : RepoOverlay := {}

structure OrgCatalogue where
  repoDefaults : RepoOverlay := {}
  repoProfiles : SortedMap String RepoOverlay := .empty
  repos : List OrgRepoRow := []

inductive Tier where
  | workspaceDefaults
  | profile (name : String)
  | row
  deriving DecidableEq, Repr

mutual
/-- A null is passed over, two objects are merged, anything else is replaced. -/
def overlayOnto : List (String × Doc) → Doc → List (String × Doc)
  | base, .obj ms => overlayMembers base ms
  | base, _ => base
def overlayMembers : List (String × Doc) → List (String × Doc) → List (String × Doc)
  | base, [] => base
  | base, m :: ms => overlayMembers (overlayMember base m) ms
def overlayMember : List (String × Doc) → String × Doc → List (String × Doc)
  | base, (_, .null) => base
  | base, (k, v) =>
    set k (match lookup k base, v with
      | some (.obj b), .obj _ => .obj (overlayOnto b v)
      | _, _ => v) base
end

/-- The settings that are folded so far, and the tier of each. -/
structure Folding where
  acc : List (String × Doc)
  prov : SortedMap String Tier

/-- The keys of a tier that it speaks to. -/
def spokenKeys (v : Doc) : List String :=
  (v.members.filter (fun m => m.2 ≠ .null)).map Prod.fst

def Folding.layOver (st : Folding) (tier : Tier) (overlay : RepoOverlay) : Folding where
  acc := overlayOnto st.acc overlay.toValue
  prov := (spokenKeys overlay.toValue).foldl (fun prov k => prov.insert k tier) st.prov

namespace OrgCatalogue

section Rows

variable (debugText : String → String) (serdeError : List (String × Doc) → String)
  (c : OrgCatalogue)

/-- The message for a profile that is not declared. -/
def unknownProfile (row : OrgRepoRow) (name : String) : String :=
  "repo " ++ debugText row.name ++ " inherits " ++ debugText name ++
    ", which is not defined in repo_profiles. Known profiles: " ++
    (if c.repoProfiles.keys = [] then "(none declared)"
      else String.intercalate ", " c.repoProfiles.keys) ++
    ". Refusing rather than ignoring it — a skipped inherit leaves the row on the gem defaults " ++
    "while the file reads as though the profile applied."

def startFolding : Folding where
  acc := c.repoDefaults.toValue.members
  prov := .ofList (c.repoDefaults.toValue.members.map fun m => (m.1, Tier.workspaceDefaults))

def inheritProfile (row : OrgRepoRow) (st : Folding) (name : String) : Except String Folding :=
  match c.repoProfiles.get? name with
  | none => .error (c.unknownProfile debugText row name)
  | some profile => .ok (st.layOver (.profile name) profile)

def resolvedRow (row : OrgRepoRow) : Except String (OrgRepoRow × SortedMap String Tier) := do
  let st ← row.inherits.foldlM (c.inheritProfile debugText row) c.startFolding
  let st := st.layOver .row row.overlay
  match RepoOverlay.fromValue st.acc with
  | none => .error ("folding tiers for row " ++ debugText row.name ++ ": " ++ serdeError st.acc)
  | some overlay => .ok ({ row with overlay := overlay }, st.prov)

def resolvedRows : Except String (List (OrgRepoRow × SortedMap String Tier)) :=
  c.repos.mapM (c.resolvedRow debugText serdeError)

end Rows

end OrgCatalogue

section Fold

theorem overlayMember_plain {v : Doc} (hv : Plain v) (base : List (String × Doc)) (k : String) :
    overlayMember base (k, v) = set k v base := by
  obtain ⟨hnull, hobj⟩ := hv
  cases v with
  | null => exact absurd rfl hnull
  | obj ms => exact absurd rfl (hobj ms)
  | _ =>
    rw [overlayMember]
    · exact fun _ ms _ hv => hobj ms hv
    · exact hnull

/-- Values that are no objects replace what is there. -/
theorem lookup_overlayMembers {ms : List (String × Doc)} (hn : (ms.map Prod.fst).Nodup)
    (hp : ∀ m ∈ ms, Plain m.2) (base : List (String × Doc)) (j : String) :
    lookup j (overlayMembers base ms) = (lookup j ms).or (lookup j base) := by
  induction ms generalizing base with
  | nil => simp [overlayMembers]
  | cons m ms ih =>
    obtain ⟨k, v⟩ := m
    rw [List.map_cons, List.nodup_cons] at hn
    rw [overlayMembers, overlayMember_plain (hp _ List.mem_cons_self),
      ih hn.2 (fun m hm => hp m (List.mem_cons_of_mem _ hm)), lookup_set, lookup_cons]
    by_cases hk : k = j
    · subst hk
      rw [if_pos rfl, if_pos rfl, lookup_eq_none_iff.mpr hn.1]
      rfl
    · rw [if_neg hk, if_neg hk]

namespace RepoOverlay

theorem names_fields (o : RepoOverlay) :
    o.fields.map Prod.fst = OverlayField.all.map OverlayField.name := by
  rw [fields, List.map_map]
  rfl

theorem nodup_fields (o : RepoOverlay) : (o.fields.map Prod.fst).Nodup := by
  rw [names_fields]
  exact OverlayField.names_nodup

theorem plain_fields (o : RepoOverlay) {k : String} {v : Doc} (h : (k, some v) ∈ o.fields) :
    Plain v := by
  obtain ⟨f, -, hf⟩ := List.mem_map.mp h
  obtain ⟨a, -, rfl⟩ := Option.map_eq_some_iff.mp (Prod.mk.inj hf).2
  exact f.codec_flat.plain a

theorem lookup_written_fields (o : RepoOverlay) (f : OverlayField) :
    lookup f.name (written o.fields) = (f.get o).map f.codec.enc :=
  lookup_written o.nodup_fields (List.mem_map.mpr ⟨f, f.mem_all, rfl⟩)

theorem name_of_mem_written {o : RepoOverlay} {m : String × Doc} (h : m ∈ written o.fields) :
    ∃ f : OverlayField, f.name = m.1 := by
  obtain ⟨f, -, hf⟩ := List.mem_map.mp (mem_written.mp h)
  exact ⟨f, (Prod.mk.inj hf).1⟩

/-- Every setting that is written is spoken to. -/
theorem spokenKeys_toValue (o : RepoOverlay) :
    spokenKeys o.toValue = (written o.fields).map Prod.fst := by
  have hall : (written o.fields).filter (fun m => m.2 ≠ .null) = written o.fields := by
    rw [List.filter_eq_self]
    rintro ⟨k, v⟩ hm
    simpa using (o.plain_fields (mem_written.mp hm)).1
  exact congrArg (List.map Prod.fst) hall

theorem mem_spokenKeys (o : RepoOverlay) (f : OverlayField) :
    f.name ∈ spokenKeys o.toValue ↔ (f.get o).isSome := by
  rw [spokenKeys_toValue, ← Option.isSome_map (f := f.codec.enc), ← lookup_written_fields,
    Option.isSome_iff_ne_none, Ne, lookup_eq_none_iff, not_not]

end RepoOverlay

theorem get?_foldl_insert {α : Type} (keys : List String) (a : α) (m : SortedMap String α)
    (k : String) :
    (keys.foldl (fun m j => m.insert j a) m).get? k = if k ∈ keys then some a else m.get? k := by
  induction keys generalizing m with
  | nil => simp
  | cons j keys ih =>
    rw [List.foldl_cons, ih, SortedMap.insert, SortedMap.get?_upsert]
    by_cases hk : k ∈ keys
    · simp [hk]
    · by_cases hj : k = j
      · simp [hj]
      · simp [hk, hj]

/-- For each setting its value so far, and the tier that it came from. -/
abbrev Settled := (f : OverlayField) → Option (Tier × f.Value)

def Settled.layOver (g : Settled) (tier : Tier) (overlay : RepoOverlay) : Settled :=
  fun f => ((f.get overlay).map (fun v => (tier, v))).or (g f)

/-- The object and the map of the tiers hold the same settings. -/
structure Folds (st : Folding) (g : Settled) : Prop where
  value : ∀ f : OverlayField, lookup f.name st.acc = (g f).map (fun s => f.codec.enc s.2)
  known : ∀ m ∈ st.acc, ∃ f : OverlayField, f.name = m.1
  tier : ∀ f : OverlayField, st.prov.get? f.name = (g f).map Prod.fst
  keys : ∀ k ∈ st.prov.keys, ∃ f : OverlayField, f.name = k

theorem mem_set {k : String} {v : Doc} {ms : List (String × Doc)} {m : String × Doc}
    (h : m ∈ set k v ms) : m = (k, v) ∨ m ∈ ms := by
  induction ms with
  | nil => exact Or.inl (List.mem_singleton.mp h)
  | cons n ms ih =>
    unfold Json.set at h
    split at h
    · rcases List.mem_cons.mp h with hm | hm
      · exact Or.inl hm
      · exact Or.inr (List.mem_cons_of_mem _ hm)
    · rcases List.mem_cons.mp h with rfl | hm
      · exact Or.inr List.mem_cons_self
      · exact (ih hm).imp_right (List.mem_cons_of_mem _)

theorem mem_overlayMembers {ms base : List (String × Doc)} (hp : ∀ m ∈ ms, Plain m.2)
    {m : String × Doc} (h : m ∈ overlayMembers base ms) : m ∈ ms ∨ m ∈ base := by
  induction ms generalizing base with
  | nil => exact Or.inr (by rwa [overlayMembers] at h)
  | cons n ms ih =>
    obtain ⟨k, v⟩ := n
    rw [overlayMembers, overlayMember_plain (hp _ List.mem_cons_self)] at h
    rcases ih (fun m hm => hp m (List.mem_cons_of_mem _ hm)) h with hm | hm
    · exact Or.inl (List.mem_cons_of_mem _ hm)
    · rcases mem_set hm with rfl | hm
      · exact Or.inl List.mem_cons_self
      · exact Or.inr hm

theorem Folds.layOver {st : Folding} {g : Settled} (h : Folds st g) (tier : Tier)
    (overlay : RepoOverlay) : Folds (st.layOver tier overlay) (g.layOver tier overlay) where
  value f := by
    have hn := (keys_written_sublist overlay.fields).nodup overlay.nodup_fields
    have hp : ∀ m ∈ written overlay.fields, Plain m.2 :=
      fun m hm => overlay.plain_fields (mem_written.mp hm)
    change lookup f.name (overlayOnto st.acc (.obj (written overlay.fields))) = _
    rw [overlayOnto, lookup_overlayMembers hn hp, overlay.lookup_written_fields, h.value,
      Settled.layOver]
    cases f.get overlay <;> rfl
  known m hm := by
    have hp : ∀ m ∈ written overlay.fields, Plain m.2 :=
      fun m hm => overlay.plain_fields (mem_written.mp hm)
    change m ∈ overlayOnto st.acc (.obj (written overlay.fields)) at hm
    rw [overlayOnto] at hm
    rcases mem_overlayMembers hp hm with hm | hm
    · exact RepoOverlay.name_of_mem_written hm
    · exact h.known m hm
  tier f := by
    have hspoken := overlay.mem_spokenKeys f
    rw [Folding.layOver, get?_foldl_insert, h.tier, Settled.layOver]
    cases hf : f.get overlay with
    | none =>
      rw [hf] at hspoken
      rw [if_neg (fun hk => Bool.false_ne_true (hspoken.mp hk))]
      rfl
    | some v =>
      rw [hf] at hspoken
      rw [if_pos (hspoken.mpr rfl)]
      rfl
  keys k hk := by
    obtain ⟨t, ht⟩ := SortedMap.mem_keys_iff.mp hk
    rw [Folding.layOver, get?_foldl_insert] at ht
    split at ht
    · next hspoken =>
      rw [overlay.spokenKeys_toValue] at hspoken
      obtain ⟨m, hm, rfl⟩ := List.mem_map.mp hspoken
      exact RepoOverlay.name_of_mem_written hm
    · exact h.keys k (SortedMap.mem_keys_iff.mpr ⟨t, ht⟩)

/-- An object of settings reads back as the settings. -/
theorem Folds.fromValue {st : Folding} {g : Settled} (h : Folds st g) :
    RepoOverlay.fromValue st.acc = some (.ofFields fun f => (g f).map Prod.snd) := by
  have hread (f : OverlayField) :
      Slot.readOption f.codec (lookup f.name st.acc) = some ((g f).map Prod.snd) := by
    rw [h.value]
    cases g f with
    | none => rfl
    | some s => exact Slot.readOption_enc f.codec s.2
  have hgood : (∀ m ∈ st.acc, m.1 ∈ OverlayField.all.map OverlayField.name) ∧
      ∀ f ∈ OverlayField.all, (Slot.readOption f.codec (lookup f.name st.acc)).isSome := by
    refine ⟨fun m hm => ?_, fun f _ => by rw [hread f]; rfl⟩
    obtain ⟨f, hf⟩ := h.known m hm
    exact List.mem_map.mpr ⟨f, f.mem_all, hf⟩
  have hfields : (fun f : OverlayField =>
      (Slot.readOption f.codec (lookup f.name st.acc)).getD none) =
        fun f => (g f).map Prod.snd := by
    funext f
    rw [hread f]
    rfl
  rw [RepoOverlay.fromValue, if_pos hgood, hfields]

end Fold

namespace OrgCatalogue

variable {debugText : String → String} {serdeError : List (String × Doc) → String}

/-- The last of the profiles that a row inherits which speaks to a setting. -/
def profileSource (c : OrgCatalogue) (names : List String) (f : OverlayField) :
    Option (Tier × f.Value) :=
  (names.filterMap fun name =>
    ((c.repoProfiles.get? name).bind f.get).map (fun v => (Tier.profile name, v))).getLast?

/-- The narrowest tier that speaks to a setting of a row, and what it says. -/
def fieldSource (c : OrgCatalogue) (row : OrgRepoRow) (f : OverlayField) :
    Option (Tier × f.Value) :=
  ((f.get row.overlay).map (fun v => (Tier.row, v))).or
    ((c.profileSource row.inherits f).or
      ((f.get c.repoDefaults).map (fun v => (Tier.workspaceDefaults, v))))

/-- A row with what its tiers say, and with the tier of every setting that is set. -/
structure Resolves (c : OrgCatalogue) (row : OrgRepoRow)
    (resolved : OrgRepoRow × SortedMap String Tier) : Prop where
  name : resolved.1.name = row.name
  inherits : resolved.1.inherits = row.inherits
  renamedFrom : resolved.1.renamedFrom = row.renamedFrom
  value : ∀ f : OverlayField, f.get resolved.1.overlay = (c.fieldSource row f).map Prod.snd
  tier : ∀ f : OverlayField, resolved.2.get? f.name = (c.fieldSource row f).map Prod.fst
  keys : ∀ k ∈ resolved.2.keys, ∃ f : OverlayField, f.name = k

def Declared (c : OrgCatalogue) (row : OrgRepoRow) : Prop :=
  ∀ name ∈ row.inherits, name ∈ c.repoProfiles.keys

variable {c : OrgCatalogue} {row : OrgRepoRow}

theorem folds_startFolding (c : OrgCatalogue) : Folds c.startFolding
    (fun f => (f.get c.repoDefaults).map (fun v => (Tier.workspaceDefaults, v))) := by
  have hprov : c.startFolding.prov = (spokenKeys c.repoDefaults.toValue).foldl
      (fun prov k => prov.insert k Tier.workspaceDefaults) .empty := by
    rw [RepoOverlay.spokenKeys_toValue, startFolding, SortedMap.ofList, List.foldl_map,
      List.foldl_map]
    rfl
  have hlaid := @Folds.layOver ⟨[], .empty⟩ (fun _ => none)
    { value := fun f => rfl
      known := by simp
      tier := fun f => rfl
      keys := by simp [SortedMap.empty, SortedMap.keys] } .workspaceDefaults c.repoDefaults
  refine ⟨fun f => ?_, fun m hm => RepoOverlay.name_of_mem_written hm, fun f => ?_, fun k hk => ?_⟩
  · rw [Option.map_map]
    exact c.repoDefaults.lookup_written_fields f
  · have htier := hlaid.tier f
    rw [Settled.layOver, Option.or_none] at htier
    rw [hprov]
    exact htier
  · rw [hprov] at hk
    exact hlaid.keys k hk

theorem profileSource_cons (c : OrgCatalogue) (name : String) (names : List String)
    (f : OverlayField) (o : Option (Tier × f.Value)) :
    (c.profileSource (name :: names) f).or o = (c.profileSource names f).or
      ((((c.repoProfiles.get? name).bind f.get).map (fun v => (Tier.profile name, v))).or o) := by
  rw [profileSource, getLast?_filterMap_cons_or]
  rfl

/-- Where all names are declared the fold over them goes through. -/
theorem folds_foldlM (debugText : String → String) (row : OrgRepoRow) {names : List String}
    (hnames : ∀ name ∈ names, name ∈ c.repoProfiles.keys)
    {st : Folding} {g : Settled} (h : Folds st g) :
    ∃ st', names.foldlM (c.inheritProfile debugText row) st = .ok st' ∧
      Folds st' (fun f => (c.profileSource names f).or (g f)) := by
  induction names generalizing st g with
  | nil => exact ⟨st, rfl, h⟩
  | cons name names ih =>
    obtain ⟨profile, hprofile⟩ := SortedMap.mem_keys_iff.mp (hnames name List.mem_cons_self)
    have hstep : c.inheritProfile debugText row st name =
        .ok (st.layOver (.profile name) profile) := by
      rw [inheritProfile, hprofile]
    obtain ⟨st', hrest, hfolds⟩ := ih (fun n hn => hnames n (List.mem_cons_of_mem _ hn))
      (h.layOver (.profile name) profile)
    refine ⟨st', ?_, ?_⟩
    · rw [List.foldlM_cons, hstep]
      exact hrest
    · have hsource : (fun f => (c.profileSource (name :: names) f).or (g f)) =
          fun f => (c.profileSource names f).or (g.layOver (.profile name) profile f) := by
        funext f
        rw [profileSource_cons, hprofile]
        rfl
      rw [hsource]
      exact hfolds

theorem declared_of_foldlM {names : List String} {st st' : Folding}
    (h : names.foldlM (c.inheritProfile debugText row) st = .ok st') :
    ∀ name ∈ names, name ∈ c.repoProfiles.keys := by
  induction names generalizing st with
  | nil => simp
  | cons name names ih =>
    rw [List.foldlM_cons, inheritProfile] at h
    cases hprofile : c.repoProfiles.get? name with
    | none =>
      rw [hprofile] at h
      simp [bind, Except.bind] at h
    | some profile =>
      rw [hprofile] at h
      intro n hn
      rcases List.mem_cons.mp hn with rfl | hn
      · exact SortedMap.mem_keys_iff.mpr ⟨profile, hprofile⟩
      · exact ih h n hn

theorem resolvedRow_of_declared (debugText : String → String)
    (serdeError : List (String × Doc) → String) (h : c.Declared row) :
    ∃ r, c.resolvedRow debugText serdeError row = .ok r ∧ c.Resolves row r := by
  obtain ⟨st, hst, hfolds⟩ := folds_foldlM debugText row h
    (folds_startFolding c)
  have hall := hfolds.layOver .row row.overlay
  refine ⟨({ row with overlay := .ofFields fun f => (c.fieldSource row f).map Prod.snd },
    (st.layOver .row row.overlay).prov), ?_, ?_⟩
  · rw [resolvedRow, hst]
    simp only [bind, Except.bind, hall.fromValue]
    rfl
  · exact ⟨rfl, rfl, rfl, fun f =>
      RepoOverlay.get_ofFields (fun f => (c.fieldSource row f).map Prod.snd) f, hall.tier,
        hall.keys⟩

theorem declared_of_resolvedRow {r : OrgRepoRow × SortedMap String Tier}
    (h : c.resolvedRow debugText serdeError row = .ok r) : c.Declared row := by
  obtain ⟨st, hst, -⟩ := bind_eq_ok h
  exact declared_of_foldlM hst

theorem resolves_of_resolvedRow {r : OrgRepoRow × SortedMap String Tier}
    (h : c.resolvedRow debugText serdeError row = .ok r) : c.Resolves row r := by
  obtain ⟨r', hr', hresolves⟩ := resolvedRow_of_declared debugText serdeError
    (declared_of_resolvedRow h)
  exact Except.ok.inj (hr'.symm.trans h) ▸ hresolves

theorem resolves_of_resolvedRows {rows : List (OrgRepoRow × SortedMap String Tier)}
    (h : c.resolvedRows debugText serdeError = .ok rows) : List.Forall₂ c.Resolves c.repos rows :=
  (mapM_eq_ok_iff.mp h).imp fun _ _ => resolves_of_resolvedRow

/-- The rows resolve when all that they inherit is declared, and then every setting of a row is what
the narrowest tier says that speaks to it. -/
theorem resolvedRows_spec (debugText : String → String)
    (serdeError : List (String × Doc) → String) (c : OrgCatalogue) :
    ((∃ rows, c.resolvedRows debugText serdeError = .ok rows) ↔ ∀ row ∈ c.repos, c.Declared row) ∧
    ∀ rows, c.resolvedRows debugText serdeError = .ok rows →
      List.Forall₂ c.Resolves c.repos rows := by
  refine ⟨?_, fun rows => resolves_of_resolvedRows⟩
  simp only [resolvedRows, mapM_eq_ok_iff, exists_forall₂_iff]
  refine forall₂_congr fun row _ => ⟨?_, fun h => ?_⟩
  · rintro ⟨r, hr⟩
    exact declared_of_resolvedRow hr
  · obtain ⟨r, hr, -⟩ := resolvedRow_of_declared debugText serdeError h
    exact ⟨r, hr⟩

/-- A row that takes one setting from each tier. -/
def tieredCatalogue : OrgCatalogue where
  repoDefaults := { hasIssues := some false, archived := some false }
  repoProfiles := .ofList [("library", { archived := some true })]
  repos := [
    { name := "koritsu", inherits := ["library"], overlay := { visibility := some "public" } }]

theorem resolvedRows_spec_tiered : ∃ rows,
    tieredCatalogue.resolvedRows id (fun _ => "") = .ok rows ∧
      List.Forall₂ tieredCatalogue.Resolves tieredCatalogue.repos rows := by
  have hspec := resolvedRows_spec id (fun _ => "") tieredCatalogue
  obtain ⟨rows, hrows⟩ := hspec.1.mpr (by
    intro row hrow name hname
    rw [List.mem_singleton.mp hrow] at hname
    rw [List.mem_singleton.mp hname]
    decide)
  exact ⟨rows, hrows, hspec.2 rows hrows⟩

end OrgCatalogue

end PangeaOperator
