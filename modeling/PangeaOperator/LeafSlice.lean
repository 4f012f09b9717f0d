import Mathlib
import PangeaOperator.Import
import PangeaOperator.LeafPlan

/-!
# The slice of a leaf

`pangea-leaf`, `slice.rs`. A leaf names by annotations the collection it has one entry of, and the
key of that entry. The entry takes the place of the whole collection among the variables the leaf
is rendered with.
-/

namespace PangeaOperator.LeafSlice

open Migrate

def leafCollectionAnnotation : String := "pangea.pleme.io/leaf-collection"
def leafKeyAnnotation : String := "pangea.pleme.io/leaf-key"
def leafKeyFieldAnnotation : String := "pangea.pleme.io/leaf-key-field"

/-- `str::trim` -/
def trim (s : String) : String := String.ofList (trimMatches isWhitespace s.toList)

structure SliceContract where
  collection : String
  key : Option String
  keyField : Option String
  deriving DecidableEq, Repr

/-- An annotation that says something. -/
def annotation (a : SortedMap String String) (k : String) : Option String :=
  ((a.get? k).map trim).filter (· ≠ "")

def SliceContract.fromAnnotations (a : SortedMap String String) : Option SliceContract :=
  (a.get? leafCollectionAnnotation).bind fun c =>
    if trim c = "" then none
    else some ⟨trim c, annotation a leafKeyAnnotation, annotation a leafKeyFieldAnnotation⟩

inductive SliceError where
  | missing (collection : String)
  | notOne (collection : String) (count : Nat)
  | notACollection (collection : String)
  | keyMismatch (declared found : String)
  deriving DecidableEq, Repr

def SliceError.display : SliceError → String
  | .missing c => "leaf declares collection `" ++ c ++ "` but carries no value for it"
  | .notOne c count => "leaf collection `" ++ c ++ "` holds " ++ toString count ++
      " entries; a leaf holds exactly one"
  | .notACollection c => "leaf collection `" ++ c ++ "` is neither a list nor a map"
  | .keyMismatch declared found => "leaf entry key `" ++ found ++
      "` does not match its declared key `" ++ declared ++ "`"

def entryKey (entry : Value) (mapKey : Option String) (field : Option String) : Option String :=
  match field with
  | some f => (entry.get? f).bind asStr
  | none => mapKey

/-- The number of entries, and the key of the first one; neither for what is no collection. -/
def countAndKey (contract : SliceContract) : Value → Option (Nat × Option String)
  | .arr a => some (a.length, a.head?.bind fun e => entryKey e none contract.keyField)
  | .obj o => some (o.length, o.head?.bind fun m => entryKey m.2 (some m.1) contract.keyField)
  | .null | .bool _ | .num _ | .str _ => none

abbrev Variables := SortedMap String Value

/-- The outcome, and the effective variables after it. -/
def isolate (effective own : Variables) (contract : SliceContract) :
    Except SliceError Unit × Variables :=
  let c := contract.collection
  match own.get? c with
  | none => (.error (.missing c), effective)
  | some value =>
    match countAndKey contract value with
    | none => (.error (.notACollection c), effective)
    | some (count, found) =>
      if count ≠ 1 then (.error (.notOne c count), effective)
      else match contract.key, found with
        | some declared, some found =>
          if declared ≠ found then (.error (.keyMismatch declared found), effective)
          else (.ok (), effective.insert c value)
        | _, _ => (.ok (), effective.insert c value)

/-- A collection of one entry, with its key in a map. -/
inductive HoldsOne : Value → Option String → Value → Prop where
  | item (entry : Value) : HoldsOne (.arr [entry]) none entry
  | member (k : String) (entry : Value) : HoldsOne (.obj [(k, entry)]) (some k) entry

/-- The leaf is rendered with one entry of its own, of the key it declares, or not at all. -/
structure RendersOwnRow (effective own : Variables) (contract : SliceContract) : Prop where
  accepted : (isolate effective own contract).1 = .ok () →
    ∃ value mapKey entry, own.get? contract.collection = some value ∧
      HoldsOne value mapKey entry ∧
      ∀ declared ∈ contract.key, entryKey entry mapKey contract.keyField = some declared
  replaced : (isolate effective own contract).1 = .ok () → ∀ k,
    (isolate effective own contract).2.get? k =
      if k = contract.collection then own.get? contract.collection else effective.get? k
  refused : ∀ e, (isolate effective own contract).1 = .error e →
    (isolate effective own contract).2 = effective

/-- Where a key is declared, the one entry has a key that can be read. -/
def Legible (own : Variables) (contract : SliceContract) : Prop :=
  ∀ value mapKey entry, own.get? contract.collection = some value →
    HoldsOne value mapKey entry → contract.key.isSome →
      (entryKey entry mapKey contract.keyField).isSome

section Isolate

variable {effective own : Variables} {contract : SliceContract} {value entry : Value}
  {mapKey : Option String}

theorem countAndKey_eq_one_iff {found : Option String} :
    countAndKey contract value = some (1, found) ↔
      ∃ mapKey entry, HoldsOne value mapKey entry ∧
        found = entryKey entry mapKey contract.keyField := by
  constructor
  · intro h
    cases value with
    | null => cases h
    | bool b => cases h
    | num n => cases h
    | str s => cases h
    | arr a =>
      obtain ⟨hlength, rfl⟩ := Prod.mk.inj (Option.some.inj h)
      obtain ⟨entry, rfl⟩ := List.length_eq_one_iff.mp hlength
      exact ⟨none, entry, .item entry, rfl⟩
    | obj o =>
      obtain ⟨hlength, rfl⟩ := Prod.mk.inj (Option.some.inj h)
      obtain ⟨⟨k, entry⟩, rfl⟩ := List.length_eq_one_iff.mp hlength
      exact ⟨some k, entry, .member k entry, rfl⟩
  · rintro ⟨mapKey, entry, hone, rfl⟩
    cases hone <;> rfl

/-- What is accepted: one entry, and no readable key other than the declared one. -/
def Accepts (contract : SliceContract) (value : Value) : Prop :=
  ∃ found, countAndKey contract value = some (1, found) ∧
    ∀ declared ∈ contract.key, ∀ key ∈ found, declared = key

theorem isolate_missing (h : own.get? contract.collection = none) :
    isolate effective own contract = (.error (.missing contract.collection), effective) := by
  rw [isolate, h]

theorem isolate_of_accepts (h : own.get? contract.collection = some value)
    (haccepts : Accepts contract value) : isolate effective own contract =
      (.ok (), effective.insert contract.collection value) := by
  obtain ⟨found, hcount, hkeys⟩ := haccepts
  simp only [isolate, h, hcount, ne_eq, not_true_eq_false, if_false]
  split
  · next declared key hdeclared =>
    have hsame : declared = key := hkeys declared hdeclared key rfl
    exact if_neg (not_not.mpr hsame)
  · rfl

theorem isolate_of_not_accepts (h : own.get? contract.collection = some value)
    (hnot : ¬Accepts contract value) :
    ∃ e, isolate effective own contract = (.error e, effective) := by
  simp only [isolate, h]
  split
  · exact ⟨_, rfl⟩
  · next count found hfound =>
    split
    · exact ⟨_, rfl⟩
    · next hcount =>
      rw [not_not.mp hcount] at hfound
      split
      · next declared key hdeclared =>
        split
        · exact ⟨_, rfl⟩
        · next hsame =>
          refine absurd ⟨some key, hfound, fun d hd k hk => ?_⟩ hnot
          cases hd.symm.trans hdeclared
          cases hk
          exact not_not.mp hsame
      · next hnone =>
        refine absurd ⟨_, hfound, fun d hd k hk => ?_⟩ hnot
        exact (hnone d k hd hk).elim

/-- Accepted or not, as the collection is; a refusal changes nothing. -/
theorem isolate_cases (effective own : Variables) (contract : SliceContract) :
    (∃ value, own.get? contract.collection = some value ∧ Accepts contract value ∧
      isolate effective own contract =
        (.ok (), effective.insert contract.collection value)) ∨
    (∃ e, isolate effective own contract = (.error e, effective)) := by
  cases h : own.get? contract.collection with
  | none => exact .inr ⟨_, isolate_missing h⟩
  | some value =>
    by_cases haccepts : Accepts contract value
    · exact .inl ⟨value, rfl, haccepts, isolate_of_accepts h haccepts⟩
    · exact .inr (isolate_of_not_accepts h haccepts)

/-- A key that cannot be read is not compared, so just these collections get in. -/
theorem rendersOwnRow_iff (effective own : Variables) (contract : SliceContract) :
    RendersOwnRow effective own contract ↔ Legible own contract := by
  constructor
  · intro h value mapKey entry hvalue hone hdeclared
    by_contra hnone
    rw [Option.not_isSome_iff_eq_none] at hnone
    -- the entry has no key to compare, so it is accepted
    have haccepts : Accepts contract value :=
      ⟨none, countAndKey_eq_one_iff.mpr ⟨mapKey, entry, hone, hnone.symm⟩, fun _ _ _ hk => by
        cases hk⟩
    obtain ⟨declared, hkey⟩ := Option.isSome_iff_exists.mp hdeclared
    obtain ⟨v, k, e, hv, hone', hmatch⟩ :=
      h.accepted (by rw [isolate_of_accepts hvalue haccepts])
    cases Option.some.inj (hv.symm.trans hvalue)
    have hsame := hmatch declared hkey
    cases hone <;> cases hone' <;> simp_all
  · intro hlegible
    rcases isolate_cases effective own contract with
      ⟨value, hvalue, ⟨found, hcount, hkeys⟩, hrun⟩ | ⟨e, hrun⟩
    · refine ⟨fun _ => ?_, fun _ k => ?_, fun e he => ?_⟩
      · obtain ⟨mapKey, entry, hone, rfl⟩ := countAndKey_eq_one_iff.mp hcount
        refine ⟨value, mapKey, entry, hvalue, hone, fun declared hdeclared => ?_⟩
        have hsome : contract.key.isSome := Option.isSome_iff_exists.mpr ⟨declared, hdeclared⟩
        obtain ⟨key, hkey⟩ := Option.isSome_iff_exists.mp
          (hlegible value mapKey entry hvalue hone hsome)
        rw [hkey, hkeys declared hdeclared key hkey]
      · rw [hrun, SortedMap.insert, SortedMap.get?_upsert, hvalue]
      · rw [hrun] at he
        cases he
    · refine ⟨fun hok => ?_, fun hok => ?_, fun _ _ => by rw [hrun]⟩
      · rw [hrun] at hok
        cases hok
      · rw [hrun] at hok
        cases hok

end Isolate

/-- The contract is kept exactly where a declared key has a key to be compared with. -/
theorem renders_own_row_iff (a : SortedMap String String) (own effective : Variables) :
    (∀ contract, SliceContract.fromAnnotations a = some contract →
      RendersOwnRow effective own contract) ↔
    ∀ contract, SliceContract.fromAnnotations a = some contract → Legible own contract := by
  refine forall₂_congr fun contract _ => ?_
  exact rendersOwnRow_iff effective own contract

/-- A leaf of key `b`, with a list whose entries are named by `slug`. -/
def slugAnnotations : SortedMap String String :=
  SortedMap.ofList [( leafCollectionAnnotation, "repos"), ( leafKeyAnnotation, "b"),
    ( leafKeyFieldAnnotation, "slug")]

/-- Its one entry has no `slug`, and is the row of `c`. -/
def namelessRow : Variables :=
  SortedMap.ofList [("repos", .arr [.obj [("name", .str "c")]])]

theorem nameless_row_is_accepted : ¬∀ (a : SortedMap String String) (own effective : Variables)
    (contract : SliceContract), SliceContract.fromAnnotations a = some contract →
      RendersOwnRow effective own contract := by
  intro h
  have hcontract : SliceContract.fromAnnotations slugAnnotations =
      some ⟨"repos", some "b", some "slug"⟩ := by decide +kernel
  have hown : namelessRow.get? "repos" = some (.arr [.obj [("name", .str "c")]]) := by
    decide +kernel
  have hlegible := (rendersOwnRow_iff .empty namelessRow _).mp
    (h slugAnnotations namelessRow .empty _ hcontract)
  have hread := hlegible _ none _ hown (.item _) rfl
  exact absurd hread (by decide +kernel)

end PangeaOperator.LeafSlice
