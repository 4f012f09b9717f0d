import PangeaOperator.Lib.Json

/-!
# Codecs for records on the wire

A `Codec` writes a value as one JSON document, a `Slot` writes a record member
that may be left out. Both carry the proof that what was written is read back.
A record is its list of slots; reading one slot of a written record does not see
the others.
-/

namespace PangeaOperator

namespace Json

/-- Numbers of a document; a timestamp is kept as the instant its text names. -/
inductive Scalar where
  | int (n : Int)
  | float (bits : UInt64)
  | time (t : Int)
  deriving DecidableEq, Repr

abbrev Doc := Json Scalar

structure Codec (α : Type) where
  enc : α → Doc
  dec : Doc → Option α
  dec_enc : ∀ a, dec (enc a) = some a
  enc_ne_null : ∀ a, enc a ≠ .null

attribute [simp] Codec.dec_enc Codec.enc_ne_null

namespace Codec

def string : Codec String where
  enc := .str
  dec | .str s => some s
      | _ => none
  dec_enc _ := rfl
  enc_ne_null _ := by simp

def bool : Codec Bool where
  enc := .bool
  dec | .bool b => some b
      | _ => none
  dec_enc _ := rfl
  enc_ne_null _ := by simp

def int : Codec Int where
  enc n := .num (.int n)
  dec | .num (.int n) => some n
      | _ => none
  dec_enc _ := rfl
  enc_ne_null _ := by simp

/-- An unsigned integer refuses a negative number. -/
def nat : Codec Nat where
  enc n := .num (.int n)
  dec | .num (.int n) => if 0 ≤ n then some n.toNat else none
      | _ => none
  dec_enc n := by simp
  enc_ne_null _ := by simp

def time : Codec Int where
  enc t := .num (.time t)
  dec | .num (.time t) => some t
      | _ => none
  dec_enc _ := rfl
  enc_ne_null _ := by simp

/-- An object kept as its members, whatever their values are. -/
def map : Codec (List (String × Doc)) where
  enc := .obj
  dec | .obj ms => some ms
      | _ => none
  dec_enc _ := rfl
  enc_ne_null _ := by simp

/-- A unit enumeration under its wire names. -/
def enum {α : Type} (name : α → String) (parse : String → Option α)
    (parse_name : ∀ a, parse (name a) = some a) : Codec α where
  enc a := .str (name a)
  dec | .str s => parse s
      | _ => none
  dec_enc := parse_name
  enc_ne_null _ := by simp

theorem mapM_dec_enc {α : Type} (c : Codec α) (as : List α) :
    (as.map c.enc).mapM c.dec = some as := by
  induction as with
  | nil => rfl
  | cons a as ih => simp [ih]

def list {α : Type} (c : Codec α) : Codec (List α) where
  enc as := .arr (as.map c.enc)
  dec | .arr vs => vs.mapM c.dec
      | _ => none
  dec_enc := mapM_dec_enc c
  enc_ne_null _ := by simp

end Codec

/-- One member of a record: what is written, if anything, and how it is read. -/
structure Slot (α : Type) where
  put : α → Option Doc
  take : Option Doc → Option α
  take_put : ∀ a, take (put a) = some a

attribute [simp] Slot.take_put

namespace Slot

variable {α : Type}

def required (c : Codec α) : Slot α where
  put a := some (c.enc a)
  take v := v.bind c.dec
  take_put a := by simp

/-- Always written, and read as the default when the member is missing. -/
def withDefault (c : Codec α) (default : α) : Slot α where
  put a := some (c.enc a)
  take | none => some default
       | some v => c.dec v
  take_put a := by simp

def readOption (c : Codec α) : Option Doc → Option (Option α)
  | none => some none
  | some .null => some none
  | some v => (c.dec v).map some

@[simp] theorem readOption_none (c : Codec α) : readOption c none = some none := rfl
@[simp] theorem readOption_null (c : Codec α) : readOption c (some .null) = some none := rfl

theorem readOption_some (c : Codec α) {v : Doc} (hv : v ≠ .null) :
    readOption c (some v) = (c.dec v).map some := by
  cases v <;> first | exact absurd rfl hv | rfl

@[simp] theorem readOption_enc (c : Codec α) (a : α) :
    readOption c (some (c.enc a)) = some (some a) := by
  rw [readOption_some c (c.enc_ne_null a), c.dec_enc, Option.map_some]

/-- Left out when there is nothing to write. -/
def optional (c : Codec α) : Slot (Option α) where
  put a := a.map c.enc
  take := readOption c
  take_put a := by cases a <;> simp

/-- Written as `null` when there is nothing to write. -/
def nullable (c : Codec α) : Slot (Option α) where
  put a := some ((a.map c.enc).getD .null)
  take := readOption c
  take_put a := by cases a <;> simp

/-- A list that is left out when it is empty. -/
def nonempty (c : Codec α) : Slot (List α) where
  put as := if as.isEmpty then none else some (c.list.enc as)
  take | none => some []
       | some v => c.list.dec v
  take_put as := by
    cases as with
    | nil => rfl
    | cons a as => exact c.list.dec_enc (a :: as)

end Slot

/-- The members that are written, in order. -/
def written : List (String × Option Doc) → List (String × Doc)
  | [] => []
  | (k, some v) :: fs => (k, v) :: written fs
  | (_, none) :: fs => written fs

def record (fs : List (String × Option Doc)) : Doc := .obj (written fs)

@[simp] theorem lookup_written_nil (k : String) : lookup k (written []) = none := rfl

@[simp] theorem lookup_written_cons (k j : String) (o : Option Doc)
    (fs : List (String × Option Doc)) :
    lookup k (written ((j, o) :: fs)) =
      if j = k then o.or (lookup k (written fs)) else lookup k (written fs) := by
  cases o with
  | none => simp [written]
  | some v => simp [written]

@[simp] theorem get?_record (fs : List (String × Option Doc)) (k : String) :
    (record fs).get? k = lookup k (written fs) := rfl

@[simp] theorem record_ne_null (fs : List (String × Option Doc)) : record fs ≠ .null := by
  simp [record]

theorem keys_written_sublist (fs : List (String × Option Doc)) :
    ((written fs).map Prod.fst).Sublist (fs.map Prod.fst) := by
  induction fs with
  | nil => exact .slnil
  | cons f fs ih =>
    obtain ⟨k, _ | v⟩ := f
    · exact .cons _ ih
    · exact .cons_cons _ ih

/-- Merging a record acts member by member. -/
theorem get?_mergePatch_record (stored : Doc) {fs : List (String × Option Doc)}
    (hn : (fs.map Prod.fst).Nodup) (k : String) :
    (mergePatch stored (record fs)).get? k =
      mergeSlot (stored.get? k) (lookup k (written fs)) :=
  get?_mergePatch stored _ ((keys_written_sublist fs).nodup hn) k

theorem lookup_written_eq_none {k : String} {fs : List (String × Option Doc)}
    (h : k ∉ fs.map Prod.fst) : lookup k (written fs) = none :=
  lookup_eq_none_iff.mpr (fun hk => h ((keys_written_sublist fs).subset hk))

/-- In a record without repeated names a member is what its own slot wrote. -/
theorem lookup_written {k : String} {o : Option Doc} {fs : List (String × Option Doc)}
    (hn : (fs.map Prod.fst).Nodup) (h : (k, o) ∈ fs) : lookup k (written fs) = o := by
  induction fs with
  | nil => simp at h
  | cons f fs ih =>
    obtain ⟨j, p⟩ := f
    simp only [List.map_cons, List.nodup_cons] at hn
    rcases List.mem_cons.mp h with he | h
    · cases he
      simp [lookup_written_eq_none hn.1]
    · have hj : j ≠ k := by
        rintro rfl
        exact hn.1 (List.mem_map.mpr ⟨_, h, rfl⟩)
      simp [hj, ih hn.2 h]

theorem mem_written {k : String} {v : Doc} {fs : List (String × Option Doc)} :
    (k, v) ∈ written fs ↔ (k, some v) ∈ fs := by
  induction fs with
  | nil => simp [written]
  | cons f fs ih =>
    obtain ⟨j, o⟩ := f
    cases o with
    | none => simp [written, ih]
    | some w => simp [written, ih]

/-- A scalar or an array. -/
def Plain (v : Doc) : Prop := v ≠ .null ∧ ∀ ms, v ≠ .obj ms

theorem overwrites_of_plain {v : Doc} (h : Plain v) (stored : Doc) :
    overwrites v stored = true := by
  cases v with
  | obj ms => exact absurd rfl (h.2 ms)
  | _ => rfl

/-- Between records of plain members only a member that is not sent can survive. -/
theorem overwrites_record_iff {fs : List (String × Option Doc)}
    (hp : ∀ k v, (k, some v) ∈ fs → Plain v) (gs : List (String × Option Doc)) :
    overwrites (record fs) (record gs) = true ↔
      ∀ k v, (k, some v) ∈ gs → lookup k (written fs) ≠ none := by
  have hmembers : overwritesMembers (written fs) (written gs) = true := by
    rw [overwritesMembers_iff]
    rintro ⟨k, v⟩ hm
    have hv := hp k v (mem_written.mp hm)
    exact (overwritesMember_iff k v _).mpr ⟨hv.1, overwrites_of_plain hv _⟩
  simp only [record, overwrites, members, hmembers, Bool.and_true, List.all_eq_true]
  constructor
  · intro h k v hm
    exact Option.isSome_iff_ne_none.mp (h (k, v) (mem_written.mpr hm))
  · rintro h ⟨k, v⟩ hm
    exact Option.isSome_iff_ne_none.mpr (h k v (mem_written.mp hm))

theorem distinctKeys_record {fs : List (String × Option Doc)} (hn : (fs.map Prod.fst).Nodup)
    (hv : ∀ k v, (k, some v) ∈ fs → DistinctKeys v) : DistinctKeys (record fs) := by
  refine .obj ((keys_written_sublist fs).nodup hn) ?_
  rintro ⟨k, v⟩ hm
  exact hv k v (mem_written.mp hm)

/-- No value of the type is written as an object. -/
def Codec.Flat {α : Type} (c : Codec α) : Prop := ∀ a ms, c.enc a ≠ .obj ms

@[simp] theorem Codec.string_flat : Codec.string.Flat := by intro a ms; simp [Codec.string]
@[simp] theorem Codec.bool_flat : Codec.bool.Flat := by intro a ms; simp [Codec.bool]
@[simp] theorem Codec.int_flat : Codec.int.Flat := by intro a ms; simp [Codec.int]
@[simp] theorem Codec.nat_flat : Codec.nat.Flat := by intro a ms; simp [Codec.nat]
@[simp] theorem Codec.time_flat : Codec.time.Flat := by intro a ms; simp [Codec.time]

@[simp] theorem Codec.enum_flat {α : Type} (name : α → String) (parse : String → Option α)
    (h : ∀ a, parse (name a) = some a) : (Codec.enum name parse h).Flat := by
  intro a ms
  simp [Codec.enum]

@[simp] theorem Codec.list_flat {α : Type} (c : Codec α) : (Codec.list c).Flat := by
  intro a ms
  simp [Codec.list]

theorem Codec.Flat.plain {α : Type} {c : Codec α} (hc : c.Flat) (a : α) : Plain (c.enc a) :=
  ⟨c.enc_ne_null a, hc a⟩

section Merge

variable {α : Type} {c : Codec α}

/-- A value that is no object replaces whatever is stored. -/
theorem mergeSlot_enc (hc : c.Flat) (stored : Option Doc) (a : α) :
    mergeSlot stored (some (c.enc a)) = some (c.enc a) := by
  have hn := c.enc_ne_null a
  have ho := hc a
  cases hv : c.enc a with
  | null => exact absurd hv hn
  | obj ms => exact absurd hv (ho ms)
  | _ => simp [mergeSlot, mergePatch]

theorem required_take_mergeSlot (hc : c.Flat) (stored : Option Doc) (a : α) :
    (Slot.required c).take (mergeSlot stored (some (c.enc a))) = some a := by
  simp [mergeSlot_enc hc, Slot.required]

theorem withDefault_take_mergeSlot (hc : c.Flat) (d : α) (stored : Option Doc) (a : α) :
    (Slot.withDefault c d).take (mergeSlot stored (some (c.enc a))) = some a := by
  simp [mergeSlot_enc hc, Slot.withDefault]

theorem nonempty_take_mergeSlot (stored : Option Doc) (as : List α) :
    (Slot.nonempty c).take (mergeSlot stored (some (c.list.enc as))) = some as := by
  rw [mergeSlot_enc c.list_flat]
  exact c.list.dec_enc as

theorem readOption_mergeSlot (hc : c.Flat) (stored : Option Doc) (a : α) :
    Slot.readOption c (mergeSlot stored (some (c.enc a))) = some (some a) := by
  simp [mergeSlot_enc hc]

/-- An option written as a patch value: `null` clears, anything else replaces. -/
theorem readOption_mergeSlot_getD (hc : c.Flat) (stored : Option Doc) (a : Option α) :
    Slot.readOption c (mergeSlot stored (some ((a.map c.enc).getD .null))) = some a := by
  cases a with
  | none => rfl
  | some a => exact readOption_mergeSlot hc stored a

end Merge

/-- Merging a written value into anything leaves that value. -/
def Codec.Replaces {α : Type} (c : Codec α) : Prop :=
  ∀ stored a, c.dec (mergePatch stored (c.enc a)) = some a

theorem Codec.Flat.replaces {α : Type} {c : Codec α} (hc : c.Flat) : c.Replaces := by
  intro stored a
  have h := mergeSlot_enc hc (some stored) a
  rw [mergeSlot_some (c.enc_ne_null a), Option.some.injEq, Option.getD_some] at h
  rw [h, c.dec_enc]

theorem mergePatch_ne_null {v : Doc} (hv : v ≠ .null) (stored : Doc) :
    mergePatch stored v ≠ .null := by
  cases v <;> simp_all [mergePatch]

theorem Codec.Replaces.readOption {α : Type} {c : Codec α} (hc : c.Replaces) (stored : Option Doc)
    (a : α) : Slot.readOption c (mergeSlot stored (some (c.enc a))) = some (some a) := by
  rw [mergeSlot_some (c.enc_ne_null a),
    Slot.readOption_some c (mergePatch_ne_null (c.enc_ne_null a) _), hc, Option.map_some]

/-- Whatever is stored, the member reads back as it was sent. -/
def Slot.Replaces {α : Type} (sl : Slot α) : Prop :=
  ∀ stored a, sl.take (mergeSlot stored (sl.put a)) = some a

theorem Codec.Replaces.required {α : Type} {c : Codec α} (hc : c.Replaces) :
    (Slot.required c).Replaces := by
  intro stored a
  change (mergeSlot stored (some (c.enc a))).bind c.dec = some a
  rw [mergeSlot_some (c.enc_ne_null a)]
  exact hc _ a

theorem Codec.Replaces.withDefault {α : Type} {c : Codec α} (hc : c.Replaces) (d : α) :
    (Slot.withDefault c d).Replaces := by
  intro stored a
  change (Slot.withDefault c d).take (mergeSlot stored (some (c.enc a))) = some a
  rw [mergeSlot_some (c.enc_ne_null a)]
  exact hc _ a

/-- An optional member that is only sent when there is something to send. -/
theorem Codec.Replaces.optional {α : Type} {c : Codec α} (hc : c.Replaces) {stored : Option Doc}
    {old : Option α} (h : Slot.readOption c stored = some old) (new : Option α) :
    (Slot.optional c).take (mergeSlot stored ((Slot.optional c).put new)) = some (new.or old) := by
  cases new with
  | none => exact h
  | some a => exact hc.readOption stored a

/-- A list that is only sent when it is not empty. -/
theorem take_mergeSlot_nonempty {α : Type} {c : Codec α} {stored : Option Doc} {old : List α}
    (h : (Slot.nonempty c).take stored = some old) (new : List α) :
    (Slot.nonempty c).take (mergeSlot stored ((Slot.nonempty c).put new)) =
      some (if new.isEmpty then old else new) := by
  cases new with
  | nil => exact h
  | cons a as => exact nonempty_take_mergeSlot stored (a :: as)

end Json

end PangeaOperator
