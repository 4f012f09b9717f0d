import PangeaOperator.Lib.Text
import PangeaOperator.OrgRecords

/-!
# Moved addresses

A repository that was renamed moves its state from the addresses of its prior names. No two
repositories may meet at one address.
-/

namespace PangeaOperator

open Json

/-- The type of the resource that a suffix stands for. -/
def resourceType : String → String
  | "" => "github_repository"
  | "_actions" => "github_actions_repository_permissions"
  | "_protection" => "github_branch_protection"
  | _ => "github_repository_file"

def address (slug suffix : String) : String := resourceType suffix ++ "." ++ (slug ++ suffix)

def moveRecord (old slug suffix : String) : RepoRecord := .ofList [
  ("from", address old suffix),
  ("to", address slug suffix),
  ("slug", slug)]

namespace RepoRecord

def suffixes (r : RepoRecord) : List String :=
  ["", "_actions"] ++
    (if r.get? "has_branch_protection" = some "true" then ["_protection"] else []) ++
    (if r.get? "has_ci_shim" = some "true" then
      ((r.get? "ci_shim_slug").map (fun ci => "__" ++ ci)).toList
    else [])

def priorNames (r : RepoRecord) : List String :=
  ((((r.get? "renamed_from").getD "").toList.splitOn ',').filter (fun s => !s.isEmpty)).map
    String.ofList

def moves (r : RepoRecord) : List RepoRecord :=
  match r.get? "slug" with
  | none => []
  | some slug =>
    (priorNames r).flatMap fun old => (suffixes r).map (moveRecord (tfSlug old) slug)

end RepoRecord

def movesFor (records : List RepoRecord) : List RepoRecord := records.flatMap RepoRecord.moves

/-- A letter or an underscore, and then letters, digits, underscores and hyphens. -/
def TerraformIdentifier (s : String) : Prop :=
  (∃ c ∈ s.toList.head?, (c.isAlpha || c == '_') = true) ∧
    ∀ c ∈ s.toList, (c.isAlphanum || c == '_' || c == '-') = true

def repoSuffixes : List String := ["", "_actions", "_protection"]

/-- No two records, and no move and a record, meet at an address. -/
structure AddressesApart (records : List RepoRecord) : Prop where
  slugs : (records.map (fun r => r.get? "slug")).Nodup
  identifiers : ∀ r ∈ records, ∃ slug, r.get? "slug" = some slug ∧ TerraformIdentifier slug
  froms : ((movesFor records).map (fun m => m.get? "from")).Nodup
  targets : ∀ m ∈ movesFor records, ∀ m' ∈ movesFor records, m.get? "from" ≠ m'.get? "to"
  addresses : ∀ m ∈ movesFor records, ∀ r ∈ records, ∀ suffix ∈ repoSuffixes,
    m.get? "from" ≠ (r.get? "slug").map (fun slug => address slug suffix)

section Addresses

/-- Every character of a slug is a letter, a digit or an underscore. -/
theorem terraformIdentifier_tfSlug (name : String) : TerraformIdentifier (tfSlug name) := by
  have hchars : ∀ c ∈ name.toList.map (fun c => if c.isAlphanum || c == '_' then c else '_'),
      (c.isAlphanum || c == '_' || c == '-') = true := by
    rw [List.forall_mem_map]
    intro c _
    split
    · next h => simp [h]
    · decide
  rw [tfSlug]
  split
  · next hhead =>
    rw [Option.any_eq_true] at hhead
    rw [TerraformIdentifier, String.toList_ofList]
    exact ⟨hhead, hchars⟩
  · have hfront : ∀ c ∈ "r_".toList, (c.isAlphanum || c == '_' || c == '-') = true := by
      simp
    rw [TerraformIdentifier, String.toList_append]
    refine ⟨⟨'r', by simp, by decide⟩, fun c hc => ?_⟩
    rcases List.mem_append.mp hc with hc | hc
    · exact hfront c hc
    · rw [String.toList_ofList] at hc
      exact hchars c hc

/-- The type of an address tells its suffix, and what is left its slug. -/
theorem address_inj {s t x y : String} (hx : x ∈ repoSuffixes) (hy : y ∈ repoSuffixes)
    (h : address s x = address t y) : s = t ∧ x = y := by
  have hdot : ∀ z ∈ repoSuffixes, '.' ∉ (resourceType z).toList := by decide
  have htypes : ∀ z ∈ repoSuffixes, ∀ w ∈ repoSuffixes,
      (resourceType z).toList = (resourceType w).toList → z = w := by decide
  have hlist := congrArg String.toList h
  simp only [address, String.toList_append, List.append_assoc] at hlist
  obtain ⟨htype, hrest⟩ := append_cons_inj (hdot x hx) (hdot y hy) hlist
  have hxy := htypes x hx y hy htype
  subst hxy
  exact ⟨String.toList_inj.mp (List.append_cancel_right hrest), rfl⟩

variable (old slug suffix : String)

theorem keys_moveRecord : ([("from", address old suffix), ("to", address slug suffix),
    ("slug", slug)].map Prod.fst).Nodup := by
  simp

@[simp] theorem from_moveRecord :
    (moveRecord old slug suffix).get? "from" = some (address old suffix) :=
  (SortedMap.get?_ofList_iff (keys_moveRecord old slug suffix)).mpr (by simp)

@[simp] theorem to_moveRecord :
    (moveRecord old slug suffix).get? "to" = some (address slug suffix) :=
  (SortedMap.get?_ofList_iff (keys_moveRecord old slug suffix)).mpr (by simp)

end Addresses

section Moves

variable (row : OrgRepoRow) (live : Option LiveRepo)

theorem renamedFrom_recordFor :
    (recordFor row live).get? "renamed_from" = some (String.intercalate "," row.renamedFrom) :=
  get?_recordFor (by simp [recordEntries])

theorem ciShim_recordFor : (recordFor row live).get? "has_ci_shim" = some "false" :=
  get?_recordFor (by simp [recordEntries, b])

/-- Without the shim only the addresses of the repository are left. -/
theorem suffixes_recordFor : ∃ protect : Bool, RepoRecord.suffixes (recordFor row live) =
    if protect then repoSuffixes else ["", "_actions"] := by
  refine ⟨decide ((recordFor row live).get? "has_branch_protection" = some "true"), ?_⟩
  rw [RepoRecord.suffixes, ciShim_recordFor]
  by_cases h : (recordFor row live).get? "has_branch_protection" = some "true"
  · simp [h, repoSuffixes]
  · simp [h]

theorem comma_not_mem {name : String} (h : RepoName name) : ',' ∉ name.toList := by
  intro hmem
  have hchar := h.2 ',' hmem
  revert hchar
  decide

/-- The prior names are read back from the record. -/
theorem priorNames_recordFor {row : OrgRepoRow} (h : ∀ old ∈ row.renamedFrom, RepoName old) :
    RepoRecord.priorNames (recordFor row live) = row.renamedFrom := by
  have hparts : ∀ p ∈ row.renamedFrom.map String.toList, ',' ∉ p ∧ p ≠ [] := by
    rw [List.forall_mem_map]
    exact fun old hold => ⟨comma_not_mem (h old hold),
      fun hnil => (h old hold).1 (String.toList_eq_nil_iff.mp hnil)⟩
  have hback : (fun old : String => String.ofList old.toList) = id := by
    funext old
    exact String.ofList_toList
  rw [RepoRecord.priorNames, renamedFrom_recordFor, Option.getD_some, String.toList_intercalate]
  change ((([','].intercalate _).splitOn ',').filter _).map _ = _
  rw [filter_splitOn_intercalate hparts, List.map_map]
  exact (congrArg (fun f => row.renamedFrom.map f) hback).trans (List.map_id _)

end Moves

/-- What the addresses of a record are made of. -/
structure Describes (row : OrgRepoRow) (record : RepoRecord) : Prop where
  slug : record.get? "slug" = some (tfSlug row.name)
  moves : ∃ protect : Bool, RepoRecord.moves record = row.renamedFrom.flatMap fun old =>
    (if protect then repoSuffixes else ["", "_actions"]).map
      (moveRecord (tfSlug old) (tfSlug row.name))

theorem suffixes_subset (protect : Bool) :
    (if protect then repoSuffixes else ["", "_actions"]) ⊆ repoSuffixes := by
  cases protect <;> decide

section Froms

/-- The addresses that a prior name leaves. -/
def leftAddresses (protect : Bool) (slug : String) : List (Option String) :=
  (if protect then repoSuffixes else ["", "_actions"]).map
    (fun suffix => some (address slug suffix))

theorem mem_leftAddresses {protect : Bool} {slug : String} {a : Option String}
    (h : a ∈ leftAddresses protect slug) :
    ∃ suffix ∈ repoSuffixes, a = some (address slug suffix) := by
  obtain ⟨suffix, hsuffix, rfl⟩ := List.mem_map.mp h
  exact ⟨suffix, suffixes_subset protect hsuffix, rfl⟩

theorem nodup_leftAddresses (protect : Bool) (slug : String) :
    (leftAddresses protect slug).Nodup := by
  have hnodup : (if protect then repoSuffixes else ["", "_actions"]).Nodup := by
    cases protect <;> decide
  refine List.Nodup.map_on (fun x hx y hy h => ?_) hnodup
  exact (address_inj (suffixes_subset protect hx) (suffixes_subset protect hy)
    (Option.some.inj h)).2

theorem disjoint_leftAddresses {p q : Bool} {s t : String} :
    (leftAddresses p s).Disjoint (leftAddresses q t) ↔ s ≠ t := by
  constructor
  · rintro h rfl
    refine h (a := some (address s "")) ?_ ?_
    · cases p <;> simp [leftAddresses, repoSuffixes]
    · cases q <;> simp [leftAddresses, repoSuffixes]
  · intro hne a hs ht
    obtain ⟨x, hx, rfl⟩ := mem_leftAddresses hs
    obtain ⟨y, hy, heq⟩ := mem_leftAddresses ht
    exact hne (address_inj hx hy (Option.some.inj heq)).1

variable {row : OrgRepoRow} {record : RepoRecord}

theorem Describes.froms (h : Describes row record) : ∃ protect : Bool,
    (RepoRecord.moves record).map (fun m => m.get? "from") =
      row.renamedFrom.flatMap (fun old => leftAddresses protect (tfSlug old)) := by
  obtain ⟨protect, hmoves⟩ := h.moves
  refine ⟨protect, ?_⟩
  rw [hmoves, List.map_flatMap]
  simp [leftAddresses, Function.comp_def]

/-- Within a record the prior names meet where two of them have one slug. -/
theorem Describes.nodup_froms_iff (h : Describes row record) :
    ((RepoRecord.moves record).map (fun m => m.get? "from")).Nodup ↔
      (row.renamedFrom.map tfSlug).Nodup := by
  obtain ⟨protect, hfroms⟩ := h.froms
  have hslugs : (row.renamedFrom.map tfSlug).Nodup ↔
      row.renamedFrom.Pairwise (fun old old' => tfSlug old ≠ tfSlug old') := List.pairwise_map
  rw [hfroms, List.nodup_flatMap, hslugs]
  simp only [nodup_leftAddresses, implies_true, true_and]
  exact List.Pairwise.iff fun _ _ => disjoint_leftAddresses

theorem Describes.mem_moves (h : Describes row record) {m : RepoRecord}
    (hm : m ∈ RepoRecord.moves record) : ∃ old ∈ row.renamedFrom, ∃ suffix ∈ repoSuffixes,
      m = moveRecord (tfSlug old) (tfSlug row.name) suffix := by
  obtain ⟨protect, hmoves⟩ := h.moves
  rw [hmoves] at hm
  obtain ⟨old, hold, hm⟩ := List.mem_flatMap.mp hm
  obtain ⟨suffix, hsuffix, rfl⟩ := List.mem_map.mp hm
  exact ⟨old, hold, suffix, suffixes_subset protect hsuffix, rfl⟩

/-- Two records have no prior name in common where their rows have none. -/
theorem Describes.disjoint_froms {row' : OrgRepoRow} {record' : RepoRecord}
    (h : Describes row record) (h' : Describes row' record')
    (hne : ∀ old ∈ row.renamedFrom, ∀ old' ∈ row'.renamedFrom, tfSlug old ≠ tfSlug old') :
    ((RepoRecord.moves record).map (fun m => m.get? "from")).Disjoint
      ((RepoRecord.moves record').map (fun m => m.get? "from")) := by
  obtain ⟨protect, hfroms⟩ := h.froms
  obtain ⟨protect', hfroms'⟩ := h'.froms
  rw [hfroms, hfroms']
  intro a ha ha'
  obtain ⟨old, hold, ha⟩ := List.mem_flatMap.mp ha
  obtain ⟨old', hold', ha'⟩ := List.mem_flatMap.mp ha'
  exact disjoint_leftAddresses.mpr (hne old hold old' hold') ha ha'

end Froms

namespace OrgCatalogue

variable {debugText : String → String} {debugChar : Char → String}
  {serdeError : List (String × Doc) → String} {c : OrgCatalogue} {row : OrgRepoRow}

theorem describes_recordFor (haccepted : c.Accepted row) {r : OrgRepoRow × SortedMap String Tier}
    (hresolves : c.Resolves row r) (live : Option LiveRepo) :
    Describes row (recordFor r.1 live) := by
  obtain ⟨protect, hsuffixes⟩ := suffixes_recordFor r.1 live
  have hnames : ∀ old ∈ r.1.renamedFrom, RepoName old := by
    rw [hresolves.renamedFrom]
    exact fun old hold => (haccepted.renamedFrom old hold).name
  refine ⟨?_, protect, ?_⟩
  · rw [slug_recordFor, hresolves.name]
  · rw [RepoRecord.moves, slug_recordFor, priorNames_recordFor live hnames, hsuffixes,
      hresolves.name, hresolves.renamedFrom]

/-- No two rows have one slug, and no row has two prior names of one slug. -/
structure SlugsApart (c : OrgCatalogue) : Prop where
  rows : (c.repos.map (fun row => tfSlug row.name)).Nodup
  priorNames : ∀ row ∈ c.repos, (row.renamedFrom.map tfSlug).Nodup

/-- The rows and their records, side by side. -/
theorem exists_described (hvalid : c.validateCatalogue debugText debugChar = [])
    {rows : List (OrgRepoRow × SortedMap String Tier)}
    (hrows : c.resolvedRows debugText serdeError = .ok rows) {records : List RepoRecord}
    (hrecords : List.Forall₂ (fun r record => ∃ live, record = recordFor r.1 live) rows records) :
    ∃ zs : List (OrgRepoRow × RepoRecord), c.repos = zs.map Prod.fst ∧ records = zs.map Prod.snd ∧
      ∀ z ∈ zs, Describes z.1 z.2 := by
  obtain ⟨ws, hrepos, rfl, hws⟩ := exists_pairs_of_forall₂ (resolves_of_resolvedRows hrows)
  rw [List.forall₂_map_left_iff] at hrecords
  obtain ⟨zs, rfl, rfl, hzs⟩ := exists_pairs_of_forall₂ hrecords
  refine ⟨zs.map (fun z => (z.1.1, z.2)), ?_, ?_, ?_⟩
  · rw [hrepos, List.map_map, List.map_map]
    rfl
  · rw [List.map_map]
    rfl
  · rw [List.forall_mem_map]
    intro z hz
    have hw : z.1 ∈ zs.map Prod.fst := List.mem_map_of_mem hz
    have hmem : z.1.1 ∈ c.repos := hrepos ▸ List.mem_map_of_mem hw
    obtain ⟨live, hlive⟩ := hzs z hz
    rw [hlive]
    exact describes_recordFor (accepted_of_validateCatalogue hvalid hmem) (hws z.1 hw) live

section Pairs

variable {zs : List (OrgRepoRow × RepoRecord)} (hrepos : c.repos = zs.map Prod.fst)
  (hdescribes : ∀ z ∈ zs, Describes z.1 z.2)

include hrepos hdescribes

theorem map_slug_eq :
    (zs.map Prod.snd).map (fun r => r.get? "slug") =
      (c.repos.map (fun row => tfSlug row.name)).map some := by
  rw [hrepos, List.map_map, List.map_map, List.map_map]
  exact List.map_congr_left fun z hz => (hdescribes z hz).slug

theorem nodup_slugs_iff : ((zs.map Prod.snd).map (fun r => r.get? "slug")).Nodup ↔
    (c.repos.map (fun row => tfSlug row.name)).Nodup := by
  rw [map_slug_eq hrepos hdescribes]
  exact List.nodup_map_iff (Option.some_injective String)

theorem priorNames_of_nodup_froms
    (h : ((movesFor (zs.map Prod.snd)).map (fun m => m.get? "from")).Nodup) :
    ∀ row ∈ c.repos, (row.renamedFrom.map tfSlug).Nodup := by
  rw [movesFor, List.map_flatMap, List.nodup_flatMap] at h
  rw [hrepos, List.forall_mem_map]
  exact fun z hz => (hdescribes z hz).nodup_froms_iff.mp (h.1 z.2 (List.mem_map_of_mem hz))

theorem nodup_froms (haccepted : ∀ row ∈ c.repos, c.Accepted row) (h : c.SlugsApart) :
    ((movesFor (zs.map Prod.snd)).map (fun m => m.get? "from")).Nodup := by
  have hmem : ∀ z ∈ zs, z.1 ∈ c.repos := fun z hz => hrepos ▸ List.mem_map_of_mem hz
  rw [movesFor, List.map_flatMap, List.nodup_flatMap, List.forall_mem_map, List.pairwise_map]
  constructor
  · exact fun z hz => (hdescribes z hz).nodup_froms_iff.mpr (h.priorNames z.1 (hmem z hz))
  · have hslugs : zs.Pairwise (fun z w => tfSlug z.1.name ≠ tfSlug w.1.name) := by
      have hnodup := h.rows
      rw [hrepos, List.map_map] at hnodup
      exact List.pairwise_map.mp hnodup
    refine hslugs.imp_of_mem fun {z w} hz hw hne => ?_
    have hname : z.1.name ≠ w.1.name := fun heq => hne (congrArg tfSlug heq)
    refine (hdescribes z hz).disjoint_froms (hdescribes w hw) fun old hold old' hold' => ?_
    -- the row on the right would have been refused for the prior name of the one on the left
    have hunclaimed := (haccepted w.1 (hmem w hw)).renamedFrom old' hold'
    exact hunclaimed.claimed z.1 (hmem z hz) hname old hold

/-- What a move leaves is the address of a prior name, and no row has its slug. -/
theorem exists_left_of_mem_movesFor (haccepted : ∀ row ∈ c.repos, c.Accepted row) {m : RepoRecord}
    (hm : m ∈ movesFor (zs.map Prod.snd)) : ∃ old : String, ∃ suffix ∈ repoSuffixes,
      (∃ row ∈ c.repos, m = moveRecord (tfSlug old) (tfSlug row.name) suffix) ∧
        ∀ row ∈ c.repos, tfSlug row.name ≠ tfSlug old := by
  obtain ⟨r, hr, hm⟩ := List.mem_flatMap.mp hm
  obtain ⟨z, hz, rfl⟩ := List.mem_map.mp hr
  have hrow : z.1 ∈ c.repos := hrepos ▸ List.mem_map_of_mem hz
  obtain ⟨old, hold, suffix, hsuffix, hmove⟩ := (hdescribes z hz).mem_moves hm
  exact ⟨old, suffix, hsuffix, ⟨z.1, hrow, hmove⟩,
    ((haccepted z.1 hrow).renamedFrom old hold).declared⟩

theorem from_ne_address (haccepted : ∀ row ∈ c.repos, c.Accepted row) {m : RepoRecord}
    (hm : m ∈ movesFor (zs.map Prod.snd)) {row : OrgRepoRow} (hrow : row ∈ c.repos)
    {suffix : String} (hsuffix : suffix ∈ repoSuffixes) :
    m.get? "from" ≠ some (address (tfSlug row.name) suffix) := by
  obtain ⟨old, x, hx, ⟨row', -, rfl⟩, hne⟩ :=
    exists_left_of_mem_movesFor hrepos hdescribes haccepted hm
  rw [from_moveRecord]
  intro heq
  exact hne row hrow (address_inj hx hsuffix (Option.some.inj heq)).1.symm

end Pairs

/-- In a catalogue without violations the addresses are apart where the slugs are. -/
theorem apart_records_iff (hvalid : c.validateCatalogue debugText debugChar = [])
    {rows : List (OrgRepoRow × SortedMap String Tier)}
    (hrows : c.resolvedRows debugText serdeError = .ok rows) {records : List RepoRecord}
    (hrecords : List.Forall₂ (fun r record => ∃ live, record = recordFor r.1 live) rows records) :
    AddressesApart records ↔ c.SlugsApart := by
  have haccepted : ∀ row ∈ c.repos, c.Accepted row := fun row =>
    accepted_of_validateCatalogue hvalid
  obtain ⟨zs, hrepos, rfl, hdescribes⟩ := exists_described hvalid hrows hrecords
  constructor
  · intro h
    exact ⟨(nodup_slugs_iff hrepos hdescribes).mp h.slugs,
      priorNames_of_nodup_froms hrepos hdescribes h.froms⟩
  · intro h
    refine ⟨(nodup_slugs_iff hrepos hdescribes).mpr h.rows, ?_,
      nodup_froms hrepos hdescribes haccepted h, fun m hm m' hm' => ?_, ?_⟩
    · rw [List.forall_mem_map]
      exact fun z hz => ⟨_, (hdescribes z hz).slug, terraformIdentifier_tfSlug z.1.name⟩
    · obtain ⟨old, x, hx, ⟨row, hrow, rfl⟩, -⟩ :=
        exists_left_of_mem_movesFor hrepos hdescribes haccepted hm'
      rw [to_moveRecord]
      exact from_ne_address hrepos hdescribes haccepted hm hrow hx
    · intro m hm
      rw [List.forall_mem_map]
      intro z hz suffix hsuffix
      have hrow : z.1 ∈ c.repos := hrepos ▸ List.mem_map_of_mem hz
      rw [(hdescribes z hz).slug]
      exact from_ne_address hrepos hdescribes haccepted hm hrow hsuffix

/-- Two names of one slug. -/
def twinSlugs : OrgCatalogue where
  repos := [{ name := "a-b" }, { name := "a_b" }]

theorem not_apart_twinSlugs : twinSlugs.validateCatalogue id (fun _ => "") = [] ∧
    ∃ rows, twinSlugs.resolvedRows id (fun _ => "") = .ok rows ∧
      ¬ AddressesApart (rows.map fun r => recordFor r.1 none) := by
  have hdeclared : twinSlugs.Declared { name := "a-b" } := by
    simp [Declared]
  obtain ⟨r, hr, hresolves⟩ := resolvedRow_of_declared id (fun _ => "") hdeclared
  have hdeclared' : twinSlugs.Declared { name := "a_b" } := by
    simp [Declared]
  obtain ⟨s, hs, hresolves'⟩ := resolvedRow_of_declared id (fun _ => "") hdeclared'
  refine ⟨by decide +kernel, [r, s], mapM_eq_ok_iff.mpr (.cons hr (.cons hs .nil)), fun h => ?_⟩
  have hslugs := h.slugs
  have htwin : tfSlug "a-b" = tfSlug "a_b" := by decide +kernel
  have hname : r.1.name = "a-b" := hresolves.name
  have hname' : s.1.name = "a_b" := hresolves'.name
  simp [hname, hname', htwin] at hslugs

/-- A repository that was renamed twice. -/
def renamedTwice : OrgCatalogue where
  repos := [{ name := "c", renamedFrom := ["a", "b"] }]

theorem apart_records_renamedTwice :
    ∃ rows, renamedTwice.resolvedRows id (fun _ => "") = .ok rows ∧
      AddressesApart (rows.map fun r => recordFor r.1 none) := by
  have hdeclared : renamedTwice.Declared { name := "c", renamedFrom := ["a", "b"] } := by
    simp [Declared]
  obtain ⟨r, hr, -⟩ := resolvedRow_of_declared id (fun _ => "") hdeclared
  have hrows : renamedTwice.resolvedRows id (fun _ => "") = .ok [r] :=
    mapM_eq_ok_iff.mpr (.cons hr .nil)
  have hvalid : renamedTwice.validateCatalogue id (fun _ => "") = [] := by decide +kernel
  have hslugs : renamedTwice.SlugsApart := ⟨by decide +kernel, by decide +kernel⟩
  exact ⟨[r], hrows, (apart_records_iff hvalid hrows (.cons ⟨none, rfl⟩ .nil)).mpr hslugs⟩

end OrgCatalogue

end PangeaOperator
