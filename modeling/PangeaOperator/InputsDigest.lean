import Mathlib
import PangeaOperator.Lib.TrailingText

/-!
# The digest of a leaf's inputs

`pangea-leaf`, `schedule.rs`. The variables of the catalog, those of the template and the refs are
written one behind the other, objects in the order of their keys, and the text is hashed. Values
are the program's own: an object has each key once.
-/

namespace PangeaOperator.InputsDigest

open Json

variable {ν : Type}

mutual
def canonical (numText : ν → List Char) : Json ν → List Char
  | .obj ms =>
    let texts := canonicalMembers numText ms
    let keys := (texts.map Prod.fst).insertionSort (· ≤ ·)
    '\x7b' :: (keys.flatMap fun k =>
      renderString k ++ ':' :: ((texts.lookup k).getD [] ++ [','])) ++ ['\x7d']
  | .arr xs => '[' :: canonicalItems numText xs ++ [']']
  | .null => render numText .null
  | .bool b => render numText (.bool b)
  | .num n => render numText (.num n)
  | .str s => render numText (.str s)
def canonicalItems (numText : ν → List Char) : List (Json ν) → List Char
  | [] => []
  | x :: xs => canonical numText x ++ ',' :: canonicalItems numText xs
def canonicalMembers (numText : ν → List Char) :
    List (String × Json ν) → List (String × List Char)
  | [] => []
  | m :: ms => canonicalMember numText m :: canonicalMembers numText ms
def canonicalMember (numText : ν → List Char) : String × Json ν → String × List Char
  | (k, v) => (k, canonical numText v)
end

def partText (numText : ν → List Char) : Option (Json ν) → List Char
  | some v => canonical numText v
  | none => ['~']

/-- The text that is hashed. -/
def inputsText (numText : ν → List Char)
    (catalogVariables templateVariables refs : Option (Json ν)) : List Char :=
  [catalogVariables, templateVariables, refs].flatMap fun part => partText numText part ++ ['|']

/-- The first half of a hash in hex; `hashHex` is the whole of it. -/
def shortHash (hashHex : String → String) (text : List Char) : String :=
  String.ofList ((hashHex (String.ofList text)).toList.take 32)

def inputsDigest (hashHex : String → String) (numText : ν → List Char)
    (catalogVariables templateVariables refs : Option (Json ν)) : String :=
  shortHash hashHex (inputsText numText catalogVariables templateVariables refs)

section Sorted

variable {numText : ν → List Char} {ms : List (String × Json ν)}

theorem map_fst_canonicalMembers (ms : List (String × Json ν)) :
    (canonicalMembers numText ms).map Prod.fst = ms.map Prod.fst := by
  induction ms with
  | nil => rfl
  | cons m ms ih =>
    obtain ⟨k, v⟩ := m
    rw [canonicalMembers, canonicalMember, List.map_cons, ih, List.map_cons]

theorem lookup_canonicalMembers (k : String) (ms : List (String × Json ν)) :
    (canonicalMembers numText ms).lookup k = (lookup k ms).map (canonical numText) := by
  induction ms with
  | nil => rfl
  | cons m ms ih =>
    obtain ⟨j, v⟩ := m
    rw [canonicalMembers, canonicalMember, List.lookup_cons, lookup_cons, ih]
    by_cases hk : j = k
    · simp [hk]
    · simp [hk, beq_false_of_ne (Ne.symm hk)]

/-- The keys of the sorted members are the keys, sorted. -/
theorem keys_collectKeys (hms : (ms.map Prod.fst).Nodup) :
    (collectKeys (sortMembers ms)).map Prod.fst =
      (ms.map Prod.fst).insertionSort (· ≤ ·) := by
  have hincreasing : ((collectKeys (sortMembers ms)).map Prod.fst).Pairwise (· < ·) :=
    List.pairwise_map.mpr (increasing_collectKeys _)
  have hnodup := keys_sortMembers ms ▸ hms
  have hmem (k : String) :
      k ∈ (collectKeys (sortMembers ms)).map Prod.fst ↔ k ∈ ms.map Prod.fst := by
    have hlookup := lookup_collectKeys k _ hnodup
    rw [← not_iff_not, ← lookup_eq_none_iff, ← lookup_eq_none_iff, hlookup, lookup_sortMembers,
      Option.map_eq_none_iff]
  have hsorted : ((ms.map Prod.fst).insertionSort (· ≤ ·)).SortedLT :=
    (List.pairwise_insertionSort (· ≤ ·) _).sortedLE.sortedLT_of_nodup
      ((List.perm_insertionSort (· ≤ ·) _).nodup_iff.mpr hms)
  refine hincreasing.eq_of_mem_iff hsorted.pairwise fun k => ?_
  rw [hmem, List.mem_insertionSort]

theorem trailingMembers_eq_flatMap (ms : List (String × Json ν)) : trailingMembers numText ms =
    (ms.flatMap fun m => renderString m.1 ++ ':' :: (trailing numText m.2 ++ [','])) ++
      ['\x7d'] := by
  induction ms with
  | nil => rfl
  | cons m ms ih =>
    obtain ⟨k, v⟩ := m
    simp [trailingMembers, trailingMember, ih]

theorem canonicalItems_eq_trailing {xs : List (Json ν)}
    (h : ∀ x ∈ xs, canonical numText x = trailing numText (sortKeys x)) :
    canonicalItems numText xs ++ [']'] = trailingItems numText (sortItems xs) := by
  induction xs with
  | nil => rfl
  | cons x xs ih =>
    have hrest := ih fun y hy => h y (List.mem_cons_of_mem x hy)
    rw [canonicalItems, sortItems, trailingItems, h x List.mem_cons_self, List.append_assoc,
      List.cons_append, hrest]

/-- The text is that of the value with its keys in order. -/
theorem canonical_eq_trailing (v : Json ν) (hv : DistinctKeys v) :
    canonical numText v = trailing numText (sortKeys v) := by
  induction v using induct with
  | obj ms ih =>
    obtain ⟨hms, hvalues⟩ : (ms.map Prod.fst).Nodup ∧ ∀ m ∈ ms, DistinctKeys m.2 := by
      cases hv with
      | obj names values => exact ⟨names, values⟩
    have hnodup : ((collectKeys (sortMembers ms)).map Prod.fst).Nodup :=
      (List.pairwise_map.mpr (increasing_collectKeys _)).imp ne_of_lt
    rw [canonical, sortKeys, trailing, trailingMembers_eq_flatMap, map_fst_canonicalMembers,
      ← keys_collectKeys hms, List.flatMap_map, List.cons_append]
    congr 2
    refine List.flatMap_congr fun m hm => ?_
    -- the member of the sorted object stands for the one of that key
    have hfound := lookup_of_mem hnodup hm
    rw [lookup_collectKeys _ _ (keys_sortMembers ms ▸ hms), lookup_sortMembers,
      Option.map_eq_some_iff] at hfound
    obtain ⟨v, hv, hsorted⟩ := hfound
    rw [lookup_canonicalMembers, hv, Option.map_some, Option.getD_some,
      ih _ (lookup_mem hv) (hvalues _ (lookup_mem hv)), hsorted]
  | arr xs ih =>
    have hitems : ∀ x ∈ xs, DistinctKeys x := by
      cases hv with
      | arr items => exact items
    rw [canonical, sortKeys, trailing, List.cons_append,
      canonicalItems_eq_trailing fun x hx => ih x hx (hitems x hx)]
  | _ => rfl

end Sorted

section Exact

variable {numText : ν → List Char}

/-- No object of a given input has a key twice. -/
def WellFormed (part : Option (Json ν)) : Prop := ∀ v ∈ part, DistinctKeys v

theorem map_sortKeys_eq_iff {p q : Option (Json ν)} (hp : WellFormed p) (hq : WellFormed q) :
    p.map sortKeys = q.map sortKeys ↔ Option.Rel Same p q := by
  cases p with
  | none => cases q <;> simp
  | some v =>
    cases q with
    | none => simp
    | some w => simpa using sortKeys_eq_iff v w (hp v rfl) (hq w rfl)

theorem partText_eq {p : Option (Json ν)} (hp : WellFormed p) :
    partText numText p = ((p.map sortKeys).map (trailing numText)).getD ['~'] := by
  cases p with
  | none => rfl
  | some v => exact canonical_eq_trailing v (hp v rfl)

/-- A part can be read off the front of the text: the mark of an absent one begins no value, and
the bar behind a part is in no number. -/
theorem partText_append_iff (hnum : NumberText numText) {p q : Option (Json ν)}
    (hp : WellFormed p) (hq : WellFormed q) {r s : List Char} :
    partText numText p ++ '|' :: r = partText numText q ++ '|' :: s ↔
      Option.Rel Same p q ∧ r = s := by
  rw [← map_sortKeys_eq_iff hp hq, partText_eq hp, partText_eq hq]
  constructor
  · intro h
    cases p with
    | none =>
      cases q with
      | none => simpa using h
      | some w => exact absurd h.symm ((trailing_headed hnum).ne_cons (by decide))
    | some v =>
      cases q with
      | none => exact absurd h ((trailing_headed hnum).ne_cons (by decide))
      | some w =>
        obtain ⟨hsame, hrest⟩ := frontRead hnum (sortKeys v) (sortKeys w) _ _
          (stop_cons (by decide) _) (stop_cons (by decide) _) h
        exact ⟨congrArg some hsame, (List.cons.inj hrest).2⟩
  · rintro ⟨hsame, rfl⟩
    rw [hsame]

theorem inputsText_eq_iff (hnum : NumberText numText)
    {catalog template refs catalog' template' refs' : Option (Json ν)}
    (h : ∀ p ∈ [catalog, template, refs], WellFormed p)
    (h' : ∀ p ∈ [catalog', template', refs'], WellFormed p) :
    inputsText numText catalog template refs = inputsText numText catalog' template' refs' ↔
      Option.Rel Same catalog catalog' ∧ Option.Rel Same template template' ∧
        Option.Rel Same refs refs' := by
  simp only [List.forall_mem_cons] at h h'
  simp only [inputsText, List.flatMap_cons, List.flatMap_nil, List.append_assoc,
    List.cons_append, List.nil_append]
  rw [partText_append_iff hnum h.1 h'.1, partText_append_iff hnum h.2.1 h'.2.1,
    partText_append_iff hnum h.2.2.1 h'.2.2.1, and_iff_left rfl]

/-- The text that is hashed is that of the three inputs and of no others: two triples have one
text exactly when each of the three is absent from both or equal up to the order of keys. So have
two digests, of texts that the hash keeps apart. -/
theorem digest_sees_exactly_the_inputs (hnum : NumberText numText)
    {catalog template refs catalog' template' refs' : Option (Json ν)}
    (h : ∀ p ∈ [catalog, template, refs], WellFormed p)
    (h' : ∀ p ∈ [catalog', template', refs'], WellFormed p) :
    (inputsText numText catalog template refs = inputsText numText catalog' template' refs' ↔
        Option.Rel Same catalog catalog' ∧ Option.Rel Same template template' ∧
          Option.Rel Same refs refs') ∧
      ∀ hashHex, Set.InjOn (shortHash hashHex) {inputsText numText catalog template refs,
          inputsText numText catalog' template' refs'} →
        (inputsDigest hashHex numText catalog template refs =
            inputsDigest hashHex numText catalog' template' refs' ↔
          Option.Rel Same catalog catalog' ∧ Option.Rel Same template template' ∧
            Option.Rel Same refs refs') := by
  have htexts := inputsText_eq_iff hnum h h'
  refine ⟨htexts, fun hashHex hhash => ?_⟩
  rw [← htexts, inputsDigest, inputsDigest]
  exact hhash.eq_iff (Set.mem_insert _ _) (Set.mem_insert_of_mem _ rfl)

theorem key_order_is_not_seen :
    inputsText (Nat.toDigits 10) (some (.obj [("x", .num 1), ("y", .arr [.null])])) none none =
        inputsText (Nat.toDigits 10) (some (.obj [("y", .arr [.null]), ("x", .num 1)])) none none ↔
      Option.Rel Same
          (some (.obj [("x", .num 1), ("y", .arr [.null])]) : Option (Json Nat))
          (some (.obj [("y", .arr [.null]), ("x", .num 1)])) ∧
        Option.Rel Same (none : Option (Json Nat)) none ∧
        Option.Rel Same (none : Option (Json Nat)) none := by
  have hitem : DistinctKeys (.arr [.null] : Json Nat) := .arr (by simp [DistinctKeys.null])
  have hnone : WellFormed (none : Option (Json Nat)) := by simp [WellFormed]
  refine (digest_sees_exactly_the_inputs numberText_toDigits ?_ ?_).1 <;>
    simp only [List.forall_mem_cons, hnone, List.not_mem_nil, false_imp_iff,
      implies_true, and_true] <;>
    rintro v ⟨⟩ <;>
    exact .obj (by decide) (by simp [DistinctKeys.num, hitem])

end Exact

end PangeaOperator.InputsDigest
