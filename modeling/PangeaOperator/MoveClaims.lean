import Mathlib
import PangeaOperator.LeafAddress
import PangeaOperator.StateSplit

/-!
# Moves from claims

`moves_by_claims` of `pangea-leaf`'s `migrate.rs`. Leaves claim addresses one by one and a key for
the rest; every managed address of a state goes to the leaf that claims it, else to the leaf of its
key.
-/

namespace PangeaOperator.Migrate

open SipHash

def managedAddresses (x : Externals) (bytes : List UInt8) : Except MigrateError (List String) := do
  let doc ← parse x bytes
  addressesOf doc

structure LeafClaim where
  leaf : String
  key : String
  addresses : List String
  deriving Repr, DecidableEq

/-- The leaves by key and by address. -/
structure Indexes where
  byKey : List (String × String)
  byAddress : List (String × String)
  deriving Repr, DecidableEq

def claimAddresses (leaf : String) (byAddress : List (String × String)) :
    List String → Except MigrateError (List (String × String))
  | [] => .ok byAddress
  | a :: rest =>
    match assocGet byAddress a with
    | some (_, prev) =>
      .error (.duplicateLeaf
        ("address `" ++ a ++ "` is claimed by `" ++ prev ++ "` and `" ++ leaf ++ "`"))
    | none => claimAddresses leaf ((a, leaf) :: byAddress) rest

def indexClaims (ix : Indexes) : List LeafClaim → Except MigrateError Indexes
  | [] => .ok ix
  | c :: cs =>
    if (assocGet ix.byKey c.key).isSome then .error (.duplicateLeaf ("key `" ++ c.key ++ "`"))
    else
      match claimAddresses c.leaf ix.byAddress c.addresses with
      | .error e => .error e
      | .ok byAddress => indexClaims ⟨(c.key, c.leaf) :: ix.byKey, byAddress⟩ cs

/-- The leaf of an address: its own claim, else the claim of its key. -/
def leafOf (ix : Indexes) (addr : String) : Option String :=
  match assocGet ix.byAddress addr with
  | some (_, leaf) => some leaf
  | none =>
    match leafKey addr with
    | .ok (.keyed k) => (assocGet ix.byKey k).map Prod.snd
    | _ => none

/-- The addresses by leaf, leaves in order, and those without one. -/
def place (ix : Indexes) (placed : List (String × List String)) (unplaced : List String) :
    List String → List (String × List String) × List String
  | [] => (placed, unplaced)
  | a :: rest =>
    match leafOf ix a with
    | some leaf => place ix (sortedPush leaf a placed) unplaced rest
    | none => place ix placed (unplaced ++ [a]) rest

def movesByClaims (x : Externals) (fatTemplate : String) (pangeaNamespace : Option String)
    (fat : List UInt8) (leaves : List LeafClaim) : Except MigrateError (List StateMove) := do
  let ix ← indexClaims ⟨[], []⟩ leaves
  let addresses ← managedAddresses x fat
  let out := place ix [] [] addresses
  match out.2 with
  | first :: rest =>
    .error (.bijection (toString (rest.length + 1) ++
      " addresses match no declared leaf address or key, first `" ++ first ++ "`"))
  | [] => .ok (out.1.map fun g => ⟨fatTemplate, g.1, pangeaNamespace, g.2⟩)

def movesByKey (x : Externals) (fatTemplate : String) (pangeaNamespace : Option String)
    (fat : List UInt8) (leaves : List (String × String)) : Except MigrateError (List StateMove) :=
  movesByClaims x fatTemplate pangeaNamespace fat (leaves.map fun l => ⟨l.1, l.2, []⟩)

section Indexing

theorem assocGet_eq_none_iff {c : List (String × String)} {k : String} :
    assocGet c k = none ↔ k ∉ c.map Prod.fst := by
  rw [← assocGet_isSome_iff, Option.not_isSome_iff_eq_none]

theorem claimAddresses_ok_iff {leaf : String} {as : List String} {m m' : List (String × String)}
    (hm : (m.map Prod.fst).Nodup) : claimAddresses leaf m as = .ok m' ↔
      (((as.map (·, leaf)).reverse ++ m).map Prod.fst).Nodup ∧
        m' = (as.map (·, leaf)).reverse ++ m := by
  induction as generalizing m with
  | nil => simp [claimAddresses, hm, eq_comm]
  | cons a rest ih =>
    have hlist : ((a :: rest).map (·, leaf)).reverse ++ m =
        (rest.map (·, leaf)).reverse ++ (a, leaf) :: m := by simp
    rw [hlist]
    unfold claimAddresses
    split
    · next prev hget =>
      have hmem : a ∈ m.map Prod.fst := (assocGet_isSome_iff m a).mp (by rw [hget]; rfl)
      refine iff_of_false nofun (fun h => ?_)
      have hsuffix := h.1.sublist ((List.sublist_append_right _ _).map Prod.fst)
      exact (List.nodup_cons.mp hsuffix).1 hmem
    · next hget => exact ih (List.nodup_cons.mpr ⟨assocGet_eq_none_iff.mp hget, hm⟩)

def keyEntries (claims : List LeafClaim) : List (String × String) :=
  claims.map fun c => (c.key, c.leaf)

def addressEntries (claims : List LeafClaim) : List (String × String) :=
  claims.flatMap fun c => c.addresses.map (·, c.leaf)

theorem map_fst_keyEntries (claims : List LeafClaim) :
    (keyEntries claims).map Prod.fst = claims.map LeafClaim.key := by
  rw [keyEntries, List.map_map]
  rfl

theorem map_fst_addressEntries (claims : List LeafClaim) :
    (addressEntries claims).map Prod.fst = claims.flatMap LeafClaim.addresses := by
  simp [addressEntries, List.map_flatMap, Function.comp_def]

namespace Indexes

/-- No key and no address comes twice. -/
structure Unique (ix : Indexes) : Prop where
  keys : (ix.byKey.map Prod.fst).Nodup
  addresses : (ix.byAddress.map Prod.fst).Nodup

def extend (ix : Indexes) (claims : List LeafClaim) : Indexes :=
  ⟨(keyEntries claims).reverse ++ ix.byKey, (addressEntries claims).reverse ++ ix.byAddress⟩

theorem extend_cons (ix : Indexes) (c : LeafClaim) (cs : List LeafClaim) :
    ix.extend (c :: cs) = (Indexes.mk ((c.key, c.leaf) :: ix.byKey)
      ((c.addresses.map (·, c.leaf)).reverse ++ ix.byAddress)).extend cs := by
  simp [extend, keyEntries, addressEntries]

theorem Unique.of_extend {ix : Indexes} {claims : List LeafClaim} (h : (ix.extend claims).Unique) :
    ix.Unique :=
  ⟨h.keys.sublist ((List.sublist_append_right _ _).map _),
    h.addresses.sublist ((List.sublist_append_right _ _).map _)⟩

end Indexes

/-- The maps are built exactly if no key and no address comes twice. -/
theorem indexClaims_ok_iff {claims : List LeafClaim} {ix ix' : Indexes} (h : ix.Unique) :
    indexClaims ix claims = .ok ix' ↔ (ix.extend claims).Unique ∧ ix' = ix.extend claims := by
  induction claims generalizing ix with
  | nil => simp [indexClaims, Indexes.extend, keyEntries, addressEntries, h, eq_comm]
  | cons c cs ih =>
    rw [Indexes.extend_cons]
    unfold indexClaims
    split
    · next hget =>
      have hmem := (assocGet_isSome_iff ix.byKey c.key).mp hget
      exact iff_of_false nofun (fun hu => (List.nodup_cons.mp hu.1.of_extend.keys).1 hmem)
    · next hget =>
      have hkey : c.key ∉ ix.byKey.map Prod.fst := by rwa [← assocGet_isSome_iff]
      split
      · next e herr =>
        refine iff_of_false nofun (fun hu => ?_)
        rw [(claimAddresses_ok_iff h.addresses).mpr ⟨hu.1.of_extend.addresses, rfl⟩] at herr
        cases herr
      · next byAddress hok =>
        obtain ⟨hnodup, rfl⟩ := (claimAddresses_ok_iff h.addresses).mp hok
        exact ih ⟨List.nodup_cons.mpr ⟨hkey, h.keys⟩, hnodup⟩

end Indexing

section Placing

/-- A leaf claims the address, or claims its key where nobody claims the address. -/
def Places (claims : List LeafClaim) (addr leaf : String) : Prop :=
  (∃ c ∈ claims, c.leaf = leaf ∧ addr ∈ c.addresses) ∨
    (∀ c ∈ claims, addr ∉ c.addresses) ∧
      ∃ k, leafKey addr = .ok (.keyed k) ∧ ∃ c ∈ claims, c.key = k ∧ c.leaf = leaf

variable {claims : List LeafClaim}

theorem mem_addressEntries {a leaf : String} :
    (a, leaf) ∈ addressEntries claims ↔ ∃ c ∈ claims, c.leaf = leaf ∧ a ∈ c.addresses := by
  simp [addressEntries, and_comm]

theorem mem_keyEntries {k leaf : String} :
    (k, leaf) ∈ keyEntries claims ↔ ∃ c ∈ claims, c.key = k ∧ c.leaf = leaf := by
  simp [keyEntries]

theorem assocGet_reverse_iff {l : List (String × String)} (h : (l.map Prod.fst).Nodup)
    {k v : String} : (assocGet l.reverse k).map Prod.snd = some v ↔ (k, v) ∈ l := by
  have hnodup : (l.reverse.map Prod.fst).Nodup := by
    rw [List.map_reverse, List.nodup_reverse]
    exact h
  constructor
  · intro hget
    obtain ⟨e, he, rfl⟩ := Option.map_eq_some_iff.mp hget
    obtain ⟨hmem, rfl⟩ := (assocGet_eq_some_iff hnodup).mp he
    exact List.mem_reverse.mp hmem
  · intro hmem
    rw [(assocGet_eq_some_iff hnodup).mpr ⟨List.mem_reverse.mpr hmem, rfl⟩]
    rfl

theorem leafOf_iff (h : (Indexes.extend ⟨[], []⟩ claims).Unique) {addr leaf : String} :
    leafOf (Indexes.extend ⟨[], []⟩ claims) addr = some leaf ↔ Places claims addr leaf := by
  have hkeys : ((keyEntries claims).map Prod.fst).Nodup := by
    simpa [Indexes.extend, List.map_reverse] using h.keys
  have haddresses : ((addressEntries claims).map Prod.fst).Nodup := by
    simpa [Indexes.extend, List.map_reverse] using h.addresses
  have hext : Indexes.extend ⟨[], []⟩ claims =
      ⟨(keyEntries claims).reverse, (addressEntries claims).reverse⟩ := by simp [Indexes.extend]
  rw [hext]
  have hclaimed : (assocGet (addressEntries claims).reverse addr).isSome ↔
      ∃ c ∈ claims, addr ∈ c.addresses := by
    rw [assocGet_isSome_iff, List.map_reverse, List.mem_reverse, map_fst_addressEntries,
      List.mem_flatMap]
  unfold leafOf Places
  rw [← mem_addressEntries, ← assocGet_reverse_iff haddresses]
  cases hget : assocGet (addressEntries claims).reverse addr with
  | some e =>
    obtain ⟨c, hc, hin⟩ := hclaimed.mp (by rw [hget]; rfl)
    have hnot : ¬ ∀ c ∈ claims, addr ∉ c.addresses := fun hall => hall c hc hin
    rw [or_iff_left (fun h => hnot h.1)]
    rfl
  | none =>
    have hfree : ∀ c ∈ claims, addr ∉ c.addresses := by
      intro c hc hin
      have hsome := hclaimed.mpr ⟨c, hc, hin⟩
      rw [hget] at hsome
      cases hsome
    rw [or_iff_right nofun, and_iff_right hfree]
    dsimp only
    split
    · next k hk =>
      simp only [← mem_keyEntries, assocGet_reverse_iff hkeys]
      rw [hk]
      simp
    · next hother =>
      refine iff_of_false nofun ?_
      rintro ⟨k, hk, -⟩
      exact hother k hk

theorem place_unplaced (ix : Indexes) (placed : List (String × List String))
    (unplaced as : List String) : (place ix placed unplaced as).2 =
      unplaced ++ as.filter (fun a => (leafOf ix a).isNone) := by
  induction as generalizing placed unplaced with
  | nil => simp [place]
  | cons a rest ih =>
    unfold place
    split
    · next leaf hleaf => rw [ih, List.filter_cons_of_neg (by simp [hleaf])]
    · next hleaf =>
      rw [ih, List.filter_cons_of_pos (by simp [hleaf]), List.append_assoc]
      rfl

/-- The placed addresses are those with a leaf, each under it. -/
theorem place_entries (ix : Indexes) (placed : List (String × List String))
    (unplaced as : List String) : (entries (place ix placed unplaced as).1).Perm
      (as.filterMap (fun a => (leafOf ix a).map (·, a)) ++ entries placed) := by
  induction as generalizing placed unplaced with
  | nil => exact .refl _
  | cons a rest ih =>
    unfold place
    split
    · next leaf hleaf =>
      rw [List.filterMap_cons_some (by rw [hleaf]; rfl), List.cons_append]
      exact (ih _ _).trans (((entries_sortedPush leaf a placed).append_left _).trans
        List.perm_middle)
    · next hleaf =>
      rw [List.filterMap_cons_none (by rw [hleaf]; rfl)]
      exact ih _ _

theorem place_keys {ix : Indexes} {placed : List (String × List String)}
    (h : (placed.map Prod.fst).Pairwise (· < ·)) (unplaced as : List String) :
    ((place ix placed unplaced as).1.map Prod.fst).Pairwise (· < ·) := by
  induction as generalizing placed unplaced with
  | nil => exact h
  | cons a rest ih =>
    unfold place
    split
    · exact ih (keys_sorted_sortedPush h _ a) _
    · exact ih h _

end Placing

section Moves

variable {x : Externals} {fatTemplate : String} {pangeaNamespace : Option String}
  {fat : List UInt8} {addresses : List String} {claims : List LeafClaim}

/-- The maps of a list of claims. -/
def indexes (claims : List LeafClaim) : Indexes := Indexes.extend ⟨[], []⟩ claims

def movesOf (fatTemplate : String) (pangeaNamespace : Option String) (ix : Indexes)
    (addresses : List String) : List StateMove :=
  (place ix [] [] addresses).1.map fun g => ⟨fatTemplate, g.1, pangeaNamespace, g.2⟩

theorem movesByClaims_ok_iff (hread : managedAddresses x fat = .ok addresses)
    {moves : List StateMove} :
    movesByClaims x fatTemplate pangeaNamespace fat claims = .ok moves ↔
      (indexes claims).Unique ∧ (∀ a ∈ addresses, (leafOf (indexes claims) a).isSome) ∧
        moves = movesOf fatTemplate pangeaNamespace (indexes claims) addresses := by
  have hindex {ix : Indexes} : indexClaims ⟨[], []⟩ claims = .ok ix ↔
      (indexes claims).Unique ∧ ix = indexes claims := indexClaims_ok_iff ⟨.nil, .nil⟩
  have hunplaced : (place (indexes claims) [] [] addresses).2 = [] ↔
      ∀ a ∈ addresses, (leafOf (indexes claims) a).isSome := by
    rw [place_unplaced, List.nil_append, List.filter_eq_nil_iff]
    simp [Option.isSome_iff_ne_none]
  constructor
  · intro h
    obtain ⟨ix, hix, h⟩ := bind_eq_ok h
    obtain ⟨got, hgot, h⟩ := bind_eq_ok h
    obtain ⟨hunique, rfl⟩ := hindex.mp hix
    rw [hread] at hgot
    cases hgot
    dsimp only at h
    split at h
    · cases h
    · next hnone => exact ⟨hunique, hunplaced.mp hnone, (Except.ok.inj h).symm⟩
  · rintro ⟨hunique, hall, rfl⟩
    simp only [movesByClaims, hindex.mpr ⟨hunique, rfl⟩, hread, hunplaced.mpr hall, bind,
      Except.bind, movesOf]

theorem templates_movesOf (ix : Indexes) :
    ((movesOf fatTemplate pangeaNamespace ix addresses).map StateMove.toTemplate).Nodup := by
  have hkeys : ((place ix [] [] addresses).1.map Prod.fst).Pairwise (· < ·) :=
    place_keys .nil [] addresses
  rw [movesOf, List.map_map]
  exact hkeys.imp (fun h => h.ne)

theorem entries_movesOf (ix : Indexes) (leaf a : String) :
    (∃ m ∈ movesOf fatTemplate pangeaNamespace ix addresses, m.toTemplate = leaf ∧
      a ∈ m.addresses) ↔ a ∈ addresses ∧ leafOf ix a = some leaf := by
  have hperm := place_entries ix [] [] addresses
  have hmem : (leaf, a) ∈ entries (place ix [] [] addresses).1 ↔
      a ∈ addresses ∧ leafOf ix a = some leaf := by
    rw [hperm.mem_iff, entries_nil, List.append_nil, List.mem_filterMap]
    simp [Option.map_eq_some_iff]
  rw [← hmem, entries, List.mem_flatMap, movesOf]
  simp only [List.mem_map, exists_exists_and_eq_and, Prod.mk.injEq]
  constructor
  · rintro ⟨g, hg, rfl, ha⟩
    exact ⟨g, hg, a, ha, rfl, rfl⟩
  · rintro ⟨g, hg, b, hb, rfl, rfl⟩
    exact ⟨g, hg, rfl, hb⟩

/-- Where every address has a leaf, the moves list every address once. -/
theorem claimed_movesOf (fatTemplate : String) (pangeaNamespace : Option String) {ix : Indexes}
    (hall : ∀ a ∈ addresses, (leafOf ix a).isSome) :
    (claimed (movesOf fatTemplate pangeaNamespace ix addresses)).Perm addresses := by
  have hperm := (place_entries ix [] [] addresses).map Prod.snd
  have hsnd (gs : List (String × List String)) :
      (entries gs).map Prod.snd = gs.flatMap Prod.snd := by
    simp [entries, List.map_flatMap, Function.comp_def]
  have hplaced : (addresses.filterMap (fun a => (leafOf ix a).map (·, a))).map Prod.snd =
      addresses := by
    clear hperm
    induction addresses with
    | nil => rfl
    | cons a rest ih =>
      obtain ⟨leaf, hleaf⟩ := Option.isSome_iff_exists.mp (hall a List.mem_cons_self)
      rw [List.filterMap_cons_some (by rw [hleaf]; rfl), List.map_cons,
        ih (fun b hb => hall b (List.mem_cons_of_mem a hb))]
  rw [entries_nil, List.append_nil, hsnd, hplaced] at hperm
  rwa [claimed, movesOf, List.flatMap_map]

/-- Every address has a leaf of its own, or a keyed leaf that is declared. -/
theorem placed_iff (h : (indexes claims).Unique) (a : String) :
    (leafOf (indexes claims) a).isSome ↔ (∃ c ∈ claims, a ∈ c.addresses) ∨
      ∃ k, leafKey a = .ok (.keyed k) ∧ ∃ c ∈ claims, c.key = k := by
  rw [Option.isSome_iff_exists]
  simp only [indexes] at h ⊢
  simp only [leafOf_iff h]
  constructor
  · rintro ⟨leaf, ⟨c, hc, -, ha⟩ | ⟨-, k, hk, c, hc, hkey, -⟩⟩
    · exact .inl ⟨c, hc, ha⟩
    · exact .inr ⟨k, hk, c, hc, hkey⟩
  · intro hplaced
    by_cases hown : ∃ c ∈ claims, a ∈ c.addresses
    · obtain ⟨c, hc, ha⟩ := hown
      exact ⟨c.leaf, .inl ⟨c, hc, rfl, ha⟩⟩
    · obtain ⟨k, hk, c, hc, hkey⟩ := hplaced.resolve_left hown
      exact ⟨c.leaf, .inr ⟨fun d hd hin => hown ⟨d, hd, hin⟩, k, hk, c, hc, hkey, rfl⟩⟩

theorem unique_indexes_iff : (indexes claims).Unique ↔
    (claims.map LeafClaim.key).Nodup ∧ (claims.flatMap LeafClaim.addresses).Nodup := by
  have hkeys : ((indexes claims).byKey.map Prod.fst) = (claims.map LeafClaim.key).reverse := by
    simp [indexes, Indexes.extend, List.map_reverse, map_fst_keyEntries]
  have haddresses : ((indexes claims).byAddress.map Prod.fst) =
      (claims.flatMap LeafClaim.addresses).reverse := by
    simp only [indexes, Indexes.extend, List.append_nil]
    rw [List.map_reverse, map_fst_addressEntries]
  constructor
  · intro h
    have hk := h.keys
    have ha := h.addresses
    rw [hkeys, List.nodup_reverse] at hk
    rw [haddresses, List.nodup_reverse] at ha
    exact ⟨hk, ha⟩
  · rintro ⟨hk, ha⟩
    exact ⟨by rwa [hkeys, List.nodup_reverse], by rwa [haddresses, List.nodup_reverse]⟩

end Moves

/-- Claims place every state whose managed addresses are distinct, and at least one. -/
theorem claims_place_the_state (x : Externals) (hpretty : ∀ v, ∃ bytes, x.toVecPretty v = .ok bytes)
    (fatTemplate : String) (pangeaNamespace : Option String) (fat : List UInt8)
    (addresses : List String) (hread : managedAddresses x fat = .ok addresses)
    (hnodup : addresses.Nodup) (hne : addresses ≠ []) (claims : List LeafClaim) :
    ((∃ moves, movesByClaims x fatTemplate pangeaNamespace fat claims = .ok moves) ↔
      (claims.map LeafClaim.key).Nodup ∧ (claims.flatMap LeafClaim.addresses).Nodup ∧
        ∀ a ∈ addresses, (∃ c ∈ claims, a ∈ c.addresses) ∨
          ∃ k, leafKey a = .ok (.keyed k) ∧ ∃ c ∈ claims, c.key = k) ∧
    ∀ moves, movesByClaims x fatTemplate pangeaNamespace fat claims = .ok moves →
      (∀ a ∈ addresses, ∀ leaf, Places claims a leaf ↔
        ∃ m ∈ moves, m.toTemplate = leaf ∧ a ∈ m.addresses) ∧
      (moves.map StateMove.toTemplate).Nodup ∧ (claimed moves).Perm addresses ∧
      ∃ s, split x fatTemplate fat moves = .ok s := by
  constructor
  · simp only [movesByClaims_ok_iff hread, exists_and_left, exists_eq, and_true,
      unique_indexes_iff, and_assoc]
    refine and_congr_right (fun hk => and_congr_right (fun ha => ?_))
    exact forall₂_congr (fun a _ => placed_iff (unique_indexes_iff.mpr ⟨hk, ha⟩) a)
  · intro moves hmoves
    obtain ⟨hunique, hall, rfl⟩ := (movesByClaims_ok_iff hread).mp hmoves
    have hperm := claimed_movesOf fatTemplate pangeaNamespace hall
    refine ⟨fun a ha leaf => ?_, templates_movesOf _, hperm, ?_⟩
    · rw [entries_movesOf, and_iff_right ha]
      exact (leafOf_iff hunique).symm
    · obtain ⟨doc, hdoc, hbefore⟩ := bind_eq_ok hread
      have hmovesne : movesOf fatTemplate pangeaNamespace (indexes claims) addresses ≠ [] := by
        intro hnil
        rw [hnil] at hperm
        exact hne hperm.symm.eq_nil
      refine split_ok hpretty (mapError_eq_ok hdoc) (mapError_eq_ok hbefore) hnodup ?_ hperm
      refine checkMoves_ok hmovesne (fun m hm => ?_) (templates_movesOf _)
      obtain ⟨g, -, rfl⟩ := List.mem_map.mp hm
      rfl

def orgClaims : List LeafClaim :=
  [⟨"org-alpha", "alpha", ["github_branch_protection.main[\"beta\"]"]⟩, ⟨"org-beta", "beta", []⟩]

def orgAddresses : List String :=
  ["github_repository.repos[\"alpha\"]", "github_repository.repos[\"beta\"]",
    "github_branch_protection.main[\"beta\"]", "github_branch_protection.main[\"alpha\"]"]

theorem org_claims_place_the_state :
    ((∃ moves, movesByClaims (knownTexts [orgState]) "org" none orgText orgClaims = .ok moves) ↔
      (orgClaims.map LeafClaim.key).Nodup ∧ (orgClaims.flatMap LeafClaim.addresses).Nodup ∧
        ∀ a ∈ orgAddresses, (∃ c ∈ orgClaims, a ∈ c.addresses) ∨
          ∃ k, leafKey a = .ok (.keyed k) ∧ ∃ c ∈ orgClaims, c.key = k) ∧
    ∀ moves, movesByClaims (knownTexts [orgState]) "org" none orgText orgClaims = .ok moves →
      (∀ a ∈ orgAddresses, ∀ leaf, Places orgClaims a leaf ↔
        ∃ m ∈ moves, m.toTemplate = leaf ∧ a ∈ m.addresses) ∧
      (moves.map StateMove.toTemplate).Nodup ∧ (claimed moves).Perm orgAddresses ∧
      ∃ s, split (knownTexts [orgState]) "org" orgText moves = .ok s :=
  claims_place_the_state (knownTexts [orgState]) (fun v => ⟨plainText v, rfl⟩) "org" none orgText
    orgAddresses (by decide +kernel) (by decide +kernel) (by decide +kernel) orgClaims

end PangeaOperator.Migrate
