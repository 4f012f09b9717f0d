import PangeaOperator.Lib.JsonReader
import PangeaOperator.Lib.Yields

/-!
# Ruby values as JSON text and back

`generate` writes a Ruby value as compact or pretty JSON, `parse` reads a JSON text as a Ruby
value. Reading what was written gives the value in `normal` form: symbols are strings, the names
of a hash are strings or symbols throughout, and of equal names the last one is kept. The texts
of floating point numbers and the reader of JSON texts (`serde_json::from_str`) are parameters.
-/

namespace PangeaOperator.RubyJson

open PangeaOperator.Json (quote renderString isNumberChar Blank)

/-- The name of a hash entry; any other object is named by its `to_s`. -/
inductive Key where
  | str (s : String)
  | sym (s : String)
  | other (toS : String)
  deriving DecidableEq, Repr

/-- A Ruby value as far as JSON can tell, with what its methods answer: `other` is shown by its
`to_s`, `record` is a `Dry::Struct` and is shown by its `to_h`, and the `to_json` of `custom` is
written as it is. -/
inductive Value (φ : Type) where
  | nil
  | bool (b : Bool)
  | int (i : Int64)
  | float (f : φ)
  | str (s : String)
  | sym (s : String)
  | hash (entries : List (Key × Value φ))
  | arr (items : List (Value φ))
  | record (toH : Value φ)
  | custom (toJson : String)
  | other (toS : String)

structure RubyError where
  cls : String
  message : String
  deriving DecidableEq, Repr

variable {φ : Type}

namespace Value

/-- Induction with the hypothesis for every item and every entry's value. -/
theorem induct {motive : Value φ → Prop}
    (nil : motive .nil) (bool : ∀ b, motive (.bool b)) (int : ∀ i, motive (.int i))
    (float : ∀ f, motive (.float f)) (str : ∀ s, motive (.str s)) (sym : ∀ s, motive (.sym s))
    (hash : ∀ es, (∀ e ∈ es, motive e.2) → motive (.hash es))
    (arr : ∀ xs, (∀ x ∈ xs, motive x) → motive (.arr xs))
    (record : ∀ h, motive h → motive (.record h)) (custom : ∀ s, motive (.custom s))
    (other : ∀ s, motive (.other s)) (v : Value φ) : motive v := by
  refine Value.rec (motive_1 := motive) (motive_2 := fun es => ∀ e ∈ es, motive e.2)
    (motive_3 := fun xs => ∀ x ∈ xs, motive x) (motive_4 := fun e => motive e.2)
    nil bool int float str sym hash arr record custom other ?_ ?_ ?_ ?_ ?_ v
  · intro e he
    cases he
  · intro e es he hes d hd
    rcases List.mem_cons.mp hd with heq | hd
    · exact heq ▸ he
    · exact hes d hd
  · intro x hx
    cases hx
  · intro x xs hx hxs y hy
    rcases List.mem_cons.mp hy with heq | hy
    · exact heq ▸ hx
    · exact hxs y hy
  · intro k v hv
    exact hv

end Value

/-- What the interpreter's floating point numbers are made of. -/
structure Floats (φ : Type) where
  isFinite : φ → Bool
  /-- `float_to_s` -/
  toText : φ → List Char
  /-- The reader's conversion of a number that is no 64 bit integer. -/
  ofText : List Char → Option φ
  ofInt : Int → φ

/-! ## Writing -/

def indent (d : Nat) : List Char := (List.replicate d [' ', ' ']).flatten

/-- A line break, in the pretty layout only. -/
def lineBreak (pretty : Bool) (d : Nat) : List Char := if pretty then '\n' :: indent d else []

def keyString : Key → String
  | .str s => s
  | .sym s => s
  | .other s => s

def intText (i : Int64) : List Char :=
  if i.toInt < 0 then '-' :: Nat.toDigits 10 i.toInt.natAbs else Nat.toDigits 10 i.toInt.natAbs

section Generate

variable (fl : Floats φ) (pretty : Bool)

mutual
def gen : Nat → Value φ → Except RubyError (List Char)
  | _, .nil => pure ['n', 'u', 'l', 'l']
  | _, .bool true => pure ['t', 'r', 'u', 'e']
  | _, .bool false => pure ['f', 'a', 'l', 's', 'e']
  | _, .int i => pure (intText i)
  | _, .float f =>
    if fl.isFinite f then pure (fl.toText f)
    else throw ⟨"JSON::GeneratorError", String.ofList (fl.toText f) ++ " not allowed in JSON"⟩
  | _, .str s => pure (renderString s)
  | _, .sym s => pure (renderString s)
  | d, .hash es => do
    let body ← genEntries d true es
    pure ('\x7b' :: (body ++ (lineBreak pretty d ++ ['\x7d'])))
  | d, .arr xs => do
    let body ← genItems d true xs
    pure ('[' :: ((if pretty then ['\n'] else []) ++ (body ++ (lineBreak pretty d ++ [']']))))
  | d, .record h => gen d h
  | _, .custom t => pure t.toList
  | _, .other s => pure (renderString s)
def genEntries : Nat → Bool → List (Key × Value φ) → Except RubyError (List Char)
  | _, _, [] => pure []
  | d, isFirst, e :: es => do
    let entry ← genEntry d e
    let rest ← genEntries d false es
    pure ((if isFirst then [] else [',']) ++ (lineBreak pretty (d + 1) ++ (entry ++ rest)))
def genEntry : Nat → Key × Value φ → Except RubyError (List Char)
  | d, (k, v) => do
    let value ← gen (d + 1) v
    pure (renderString (keyString k) ++ (':' :: ((if pretty then [' '] else []) ++ value)))
def genItems : Nat → Bool → List (Value φ) → Except RubyError (List Char)
  | _, _, [] => pure []
  | d, isFirst, x :: xs => do
    let item ← gen (d + 1) x
    let rest ← genItems d false xs
    pure ((if isFirst then [] else ',' :: (if pretty then ['\n'] else [])) ++
      ((if pretty then indent (d + 1) else []) ++ (item ++ rest)))
end

def generate (v : Value φ) : Except RubyError (List Char) := gen fl pretty 0 v

end Generate

/-! ## Reading -/

/-- `serde_json::Number` -/
inductive Number (φ : Type) where
  | int (i : Int)
  | float (f : φ)

/-- The reader's limit on nested arrays and objects. -/
def maxNesting : Nat := 127

mutual
/-- An object keeps the last value of a name, where the name first stood. -/
def collapse {ν : Type} : Json ν → Json ν
  | .arr xs => .arr (collapseItems xs)
  | .obj ms => .obj (collapseMembers [] ms)
  | .null => .null
  | .bool b => .bool b
  | .num n => .num n
  | .str s => .str s
def collapseItems {ν : Type} : List (Json ν) → List (Json ν)
  | [] => []
  | x :: xs => collapse x :: collapseItems xs
def collapseMembers {ν : Type} : List (String × Json ν) → List (String × Json ν) →
    List (String × Json ν)
  | acc, [] => acc
  | acc, m :: ms => collapseMembers (collapseMember acc m) ms
def collapseMember {ν : Type} : List (String × Json ν) → String × Json ν → List (String × Json ν)
  | acc, (k, v) => Json.set k (collapse v) acc
end

def keyOf (symbolize : Bool) (k : String) : Key := if symbolize then .sym k else .str k

/-- `RHash::insert` -/
def insertEntry (k : Key) (v : Value φ) : List (Key × Value φ) → List (Key × Value φ)
  | [] => [(k, v)]
  | e :: es => if e.1 = k then (e.1, v) :: es else e :: insertEntry k v es

section FromJson

variable (fl : Floats φ) (symbolize : Bool)

def numberValue : Number φ → Value φ
  | .int i => if -2 ^ 63 ≤ i ∧ i < 2 ^ 63 then .int (Int64.ofInt i) else .float (fl.ofInt i)
  | .float f => .float f

mutual
def fromJson : Json (Number φ) → Value φ
  | .null => .nil
  | .bool b => .bool b
  | .num n => numberValue fl n
  | .str s => .str s
  | .arr xs => .arr (fromItems xs)
  | .obj ms => .hash (fromMembers [] ms)
def fromItems : List (Json (Number φ)) → List (Value φ)
  | [] => []
  | x :: xs => fromJson x :: fromItems xs
def fromMembers : List (Key × Value φ) → List (String × Json (Number φ)) → List (Key × Value φ)
  | acc, [] => acc
  | acc, m :: ms => fromMembers (fromMember acc m) ms
def fromMember : List (Key × Value φ) → String × Json (Number φ) → List (Key × Value φ)
  | acc, (k, v) => insertEntry (keyOf symbolize k) (fromJson v) acc
end

def parse (serde : List Char → Option (Json (Number φ))) (cs : List Char) : Option (Value φ) :=
  (serde cs).map (fromJson fl symbolize)

end FromJson

/-! ## What is written is read -/

section Normal

variable (fl : Floats φ) (symbolize : Bool)

def reread (f : φ) : φ := (fl.ofText (fl.toText f)).getD f

mutual
/-- The value that comes back from JSON. -/
def normal : Value φ → Value φ
  | .nil => .nil
  | .bool b => .bool b
  | .int i => .int i
  | .float f => .float (reread fl f)
  | .str s => .str s
  | .sym s => .str s
  | .hash es => .hash (normalEntries [] es)
  | .arr xs => .arr (normalItems xs)
  | .record h => normal h
  | .custom s => .str s
  | .other s => .str s
def normalItems : List (Value φ) → List (Value φ)
  | [] => []
  | x :: xs => normal x :: normalItems xs
def normalEntries : List (Key × Value φ) → List (Key × Value φ) → List (Key × Value φ)
  | acc, [] => acc
  | acc, e :: es => normalEntries (normalEntry acc e) es
def normalEntry : List (Key × Value φ) → Key × Value φ → List (Key × Value φ)
  | acc, (k, v) => insertEntry (keyOf symbolize (keyString k)) (normal v) acc
end

mutual
/-- The JSON value that is written, names as often as they stand in the hash. What a `custom`
writes may be none; here it stands for its text. -/
def plain : Value φ → Json (Number φ)
  | .nil => .null
  | .bool b => .bool b
  | .int i => .num (.int i.toInt)
  | .float f => .num (.float (reread fl f))
  | .str s => .str s
  | .sym s => .str s
  | .hash es => .obj (plainEntries es)
  | .arr xs => .arr (plainItems xs)
  | .record h => plain h
  | .custom s => .str s
  | .other s => .str s
def plainItems : List (Value φ) → List (Json (Number φ))
  | [] => []
  | x :: xs => plain x :: plainItems xs
def plainEntries : List (Key × Value φ) → List (String × Json (Number φ))
  | [] => []
  | e :: es => plainEntry e :: plainEntries es
def plainEntry : Key × Value φ → String × Json (Number φ)
  | (k, v) => (keyString k, plain v)
end

/-- How deep arrays and hashes are nested. -/
def depth (v : Value φ) : Nat := Json.nesting (plain fl v)

end Normal

/-- The texts that are written for a number. -/
def NumberText (fl : Floats φ) (n : Number φ) (t : List Char) : Prop :=
  (∃ i : Int64, n = .int i.toInt ∧ t = intText i) ∨
    ∃ f, fl.isFinite f = true ∧ n = .float (reread fl f) ∧ t = fl.toText f

/-- What is relied on of `serde_json::from_str`: the text of a value that is nested at most so
deep is read, however it is laid out, and objects keep the last of equal names. -/
def ReadsJson (fl : Floats φ) (serde : List Char → Option (Json (Number φ))) : Prop :=
  ∀ j t, Json.Laid (NumberText fl) j t → Json.nesting j ≤ maxNesting → serde t = some (collapse j)

section Leaves

mutual
/-- Every part that is no hash, array or record. -/
def allLeaves (p : Value φ → Bool) : Value φ → Bool
  | .hash es => allLeavesEntries p es
  | .arr xs => allLeavesItems p xs
  | .record h => allLeaves p h
  | v => p v
def allLeavesEntries (p : Value φ → Bool) : List (Key × Value φ) → Bool
  | [] => true
  | e :: es => allLeavesEntry p e && allLeavesEntries p es
def allLeavesEntry (p : Value φ → Bool) : Key × Value φ → Bool
  | (_, v) => allLeaves p v
def allLeavesItems (p : Value φ → Bool) : List (Value φ) → Bool
  | [] => true
  | x :: xs => allLeaves p x && allLeavesItems p xs
end

def allFinite (fl : Floats φ) : Value φ → Bool :=
  allLeaves (fun | .float f => fl.isFinite f | _ => true)

/-- No object in it has a `to_json` of its own. -/
def noCustom : Value φ → Bool := allLeaves (fun | .custom _ => false | _ => true)

theorem noCustom_entries {es : List (Key × Value φ)} (h : noCustom (.hash es) = true) :
    ∀ e ∈ es, noCustom e.2 = true := by
  intro e he
  induction es with
  | nil => cases he
  | cons d es ih =>
    obtain ⟨k, v⟩ := d
    obtain ⟨hd, hes⟩ : noCustom v = true ∧ noCustom (.hash es) = true :=
      Bool.and_eq_true_iff.mp h
    rcases List.mem_cons.mp he with rfl | he
    · exact hd
    · exact ih hes he

theorem noCustom_items {xs : List (Value φ)} (h : noCustom (.arr xs) = true) :
    ∀ x ∈ xs, noCustom x = true := by
  intro x hx
  induction xs with
  | nil => cases hx
  | cons y xs ih =>
    obtain ⟨hy, hxs⟩ : noCustom y = true ∧ noCustom (.arr xs) = true :=
      Bool.and_eq_true_iff.mp h
    rcases List.mem_cons.mp hx with rfl | hx
    · exact hy
    · exact ih hxs hx

end Leaves

section Layout

variable (fl : Floats φ) (pretty : Bool)

theorem blank_indent (d : Nat) : Blank (indent d) := by
  intro c hc
  obtain ⟨l, hl, hc⟩ := List.mem_flatten.mp hc
  rw [List.eq_of_mem_replicate hl] at hc
  rcases List.mem_pair.mp hc with rfl | rfl <;> rfl

theorem blank_lineBreak (d : Nat) : Blank (lineBreak pretty d) := by
  unfold lineBreak
  split
  · intro c hc
    rcases List.mem_cons.mp hc with rfl | hc
    · rfl
    · exact blank_indent d c hc
  · intro c hc
    cases hc

/-- Every text that is written for the value shows it. -/
def Shows (v : Value φ) : Prop :=
  ∀ d t, gen fl pretty d v = .ok t → Json.Laid (NumberText fl) (plain fl v) t

theorem pure_eq_ok {ε α : Type} {a b : α} (h : (pure a : Except ε α) = .ok b) : b = a :=
  (Except.ok.inj h).symm

variable {fl pretty}

theorem laidMember_genEntry {e : Key × Value φ} (he : Shows fl pretty e.2) {d : Nat}
    {t : List Char} (h : genEntry fl pretty d e = .ok t) :
    Json.LaidMember (NumberText fl) (plainEntry fl e) t := by
  obtain ⟨k, v⟩ := e
  rw [genEntry] at h
  obtain ⟨u, hu, h⟩ := bind_eq_ok h
  obtain rfl := pure_eq_ok h
  refine ⟨[], if pretty then [' '] else [], u, by simp [Blank], ?_, he _ _ hu, rfl⟩
  split
  · intro c hc
    obtain rfl := List.mem_singleton.mp hc
    rfl
  · simp [Blank]

theorem laidMembers_genEntries {es : List (Key × Value φ)}
    (hes : ∀ e ∈ es, Shows fl pretty e.2) {d : Nat} {t : List Char}
    (h : genEntries fl pretty d false es = .ok t) {b : List Char} (hb : Blank b) :
    Json.LaidMembers (NumberText fl) (plainEntries fl es) (t ++ (b ++ ['\x7d'])) := by
  induction es generalizing t with
  | nil =>
    rw [genEntries] at h
    obtain rfl := pure_eq_ok h
    exact ⟨b, hb, rfl⟩
  | cons e es ih =>
    rw [genEntries] at h
    obtain ⟨u, hu, h⟩ := bind_eq_ok h
    obtain ⟨w, hw, h⟩ := bind_eq_ok h
    obtain rfl := pure_eq_ok h
    have hmember := laidMember_genEntry (hes e List.mem_cons_self) hu
    have hrest := ih (fun e' he' => hes e' (List.mem_cons_of_mem e he')) hw
    refine ⟨[], lineBreak pretty (d + 1), u, _, by simp [Blank], blank_lineBreak _ _, hmember,
      hrest, ?_⟩
    simp

theorem laidItems_genItems {xs : List (Value φ)} (hxs : ∀ x ∈ xs, Shows fl pretty x) {d : Nat}
    {t : List Char} (h : genItems fl pretty d false xs = .ok t) {b : List Char} (hb : Blank b) :
    Json.LaidItems (NumberText fl) (plainItems fl xs) (t ++ (b ++ [']'])) := by
  induction xs generalizing t with
  | nil =>
    rw [genItems] at h
    obtain rfl := pure_eq_ok h
    exact ⟨b, hb, rfl⟩
  | cons x xs ih =>
    rw [genItems] at h
    obtain ⟨u, hu, h⟩ := bind_eq_ok h
    obtain ⟨w, hw, h⟩ := bind_eq_ok h
    obtain rfl := pure_eq_ok h
    have hitem := hxs x List.mem_cons_self _ _ hu
    have hrest := ih (fun y hy => hxs y (List.mem_cons_of_mem x hy)) hw
    refine ⟨[], lineBreak pretty (d + 1), u, _, by simp [Blank], blank_lineBreak _ _, hitem,
      hrest, ?_⟩
    cases pretty <;> simp [lineBreak]

theorem shows_hash {es : List (Key × Value φ)} (ih : ∀ e ∈ es, Shows fl pretty e.2) :
    Shows fl pretty (.hash es) := by
  intro d t h
  rw [gen] at h
  obtain ⟨body, hbody, h⟩ := bind_eq_ok h
  obtain rfl := pure_eq_ok h
  cases es with
  | nil =>
    rw [genEntries] at hbody
    obtain rfl := pure_eq_ok hbody
    exact ⟨lineBreak pretty d, blank_lineBreak _ _, rfl⟩
  | cons e es =>
    rw [genEntries] at hbody
    obtain ⟨u, hu, hbody⟩ := bind_eq_ok hbody
    obtain ⟨w, hw, hbody⟩ := bind_eq_ok hbody
    obtain rfl := pure_eq_ok hbody
    refine ⟨lineBreak pretty (d + 1), u, _, blank_lineBreak _ _,
      laidMember_genEntry (ih e List.mem_cons_self) hu,
      laidMembers_genEntries (fun e' he' => ih e' (List.mem_cons_of_mem e he')) hw
        (blank_lineBreak pretty d), ?_⟩
    simp

theorem shows_arr {xs : List (Value φ)} (ih : ∀ x ∈ xs, Shows fl pretty x) :
    Shows fl pretty (.arr xs) := by
  intro d t h
  rw [gen] at h
  obtain ⟨body, hbody, h⟩ := bind_eq_ok h
  obtain rfl := pure_eq_ok h
  cases xs with
  | nil =>
    rw [genItems] at hbody
    obtain rfl := pure_eq_ok hbody
    refine ⟨(if pretty then ['\n'] else []) ++ lineBreak pretty d, ?_, by simp⟩
    intro c hc
    rcases List.mem_append.mp hc with hc | hc
    · split at hc
      · obtain rfl := List.mem_singleton.mp hc
        rfl
      · cases hc
    · exact blank_lineBreak _ _ c hc
  | cons x xs =>
    rw [genItems] at hbody
    obtain ⟨u, hu, hbody⟩ := bind_eq_ok hbody
    obtain ⟨w, hw, hbody⟩ := bind_eq_ok hbody
    obtain rfl := pure_eq_ok hbody
    refine ⟨lineBreak pretty (d + 1), u, _, blank_lineBreak _ _,
      ih x List.mem_cons_self _ _ hu,
      laidItems_genItems (fun y hy => ih y (List.mem_cons_of_mem x hy)) hw
        (blank_lineBreak pretty d), ?_⟩
    cases pretty <;> simp [lineBreak]

theorem shows (v : Value φ) (hv : noCustom v = true) : Shows fl pretty v := by
  induction v using Value.induct with
  | nil =>
    intro d t h
    rw [gen] at h
    exact pure_eq_ok h
  | bool b =>
    intro d t h
    cases b <;> rw [gen] at h <;> exact pure_eq_ok h
  | int i =>
    intro d t h
    rw [gen] at h
    exact .inl ⟨i, rfl, pure_eq_ok h⟩
  | float f =>
    intro d t h
    rw [gen] at h
    split at h
    · next hf => exact .inr ⟨f, hf, rfl, pure_eq_ok h⟩
    · cases h
  | str s =>
    intro d t h
    rw [gen] at h
    exact pure_eq_ok h
  | sym s =>
    intro d t h
    rw [gen] at h
    exact pure_eq_ok h
  | hash es ih => exact shows_hash (fun e he => ih e he (noCustom_entries hv e he))
  | arr xs ih => exact shows_arr (fun x hx => ih x hx (noCustom_items hv x hx))
  | record v ih =>
    intro d t h
    rw [gen] at h
    exact ih hv d t h
  | custom s => cases hv
  | other s =>
    intro d t h
    rw [gen] at h
    exact pure_eq_ok h

end Layout

section Normal

variable {fl : Floats φ} {symbolize : Bool}

theorem keyOf_inj {j k : String} : keyOf symbolize j = keyOf symbolize k ↔ j = k := by
  cases symbolize <;> simp [keyOf]

theorem insertEntry_map (f : Json (Number φ) → Value φ) (k : String) (v : Json (Number φ))
    (acc : List (String × Json (Number φ))) :
    insertEntry (keyOf symbolize k) (f v) (acc.map (Prod.map (keyOf symbolize) f)) =
      (Json.set k v acc).map (Prod.map (keyOf symbolize) f) := by
  induction acc with
  | nil => rfl
  | cons m acc ih =>
    obtain ⟨j, w⟩ := m
    by_cases hj : j = k
    · subst hj
      simp [insertEntry, Json.set]
    · simp [insertEntry, Json.set, keyOf_inj, hj, ih]

theorem mem_set {ν : Type} {j k : String} {v : Json ν} {acc : List (String × Json ν)}
    (h : j ∈ (Json.set k v acc).map Prod.fst) : j = k ∨ j ∈ acc.map Prod.fst := by
  by_contra hc
  rw [not_or, ← Json.lookup_eq_none_iff] at hc
  rw [← Classical.not_not (a := j ∈ _), ← Json.lookup_eq_none_iff, Json.lookup_set,
    if_neg (Ne.symm hc.1)] at h
  exact h hc.2

theorem nodup_set {ν : Type} (k : String) (v : Json ν) {acc : List (String × Json ν)}
    (h : (acc.map Prod.fst).Nodup) : ((Json.set k v acc).map Prod.fst).Nodup := by
  induction acc with
  | nil => simp [Json.set]
  | cons m acc ih =>
    obtain ⟨j, w⟩ := m
    obtain ⟨hj, hacc⟩ := List.nodup_cons.mp h
    unfold Json.set
    split
    · next hjk => exact List.nodup_cons.mpr ⟨show k ∉ _ from hjk ▸ hj, hacc⟩
    · next hjk =>
      refine List.nodup_cons.mpr ⟨fun hmem => ?_, ih hacc⟩
      rcases mem_set hmem with he | hmem
      · exact hjk he
      · exact hj hmem

theorem nodup_collapseMembers {ν : Type} (ms : List (String × Json ν))
    {acc : List (String × Json ν)} (h : (acc.map Prod.fst).Nodup) :
    ((collapseMembers acc ms).map Prod.fst).Nodup := by
  induction ms generalizing acc with
  | nil => exact h
  | cons m ms ih =>
    obtain ⟨k, v⟩ := m
    exact ih (nodup_set k (collapse v) h)

theorem insertEntry_new {k : Key} (v : Value φ) {es : List (Key × Value φ)}
    (h : k ∉ es.map Prod.fst) : insertEntry k v es = es ++ [(k, v)] := by
  induction es with
  | nil => rfl
  | cons e es ih =>
    rw [List.map_cons, List.mem_cons, not_or] at h
    rw [insertEntry, if_neg (Ne.symm h.1), ih h.2]
    rfl

/-- The entries of a hash that is read from an object without equal names. -/
def entriesOf (fl : Floats φ) (symbolize : Bool) (ms : List (String × Json (Number φ))) :
    List (Key × Value φ) :=
  ms.map (Prod.map (keyOf symbolize) (fromJson fl symbolize))

theorem fromMembers_nodup (ms acc : List (String × Json (Number φ)))
    (h : ((acc ++ ms).map Prod.fst).Nodup) :
    fromMembers fl symbolize (entriesOf fl symbolize acc) ms =
      entriesOf fl symbolize (acc ++ ms) := by
  induction ms generalizing acc with
  | nil => rw [fromMembers, List.append_nil]
  | cons m ms ih =>
    obtain ⟨k, v⟩ := m
    have hk : keyOf symbolize k ∉ (entriesOf fl symbolize acc).map Prod.fst := by
      intro hmem
      simp only [entriesOf, List.map_map, List.mem_map] at hmem
      obtain ⟨n, hn, hkey⟩ := hmem
      rw [List.map_append, List.nodup_append] at h
      exact h.2.2 n.1 (List.mem_map_of_mem hn) k List.mem_cons_self (keyOf_inj.mp hkey)
    rw [fromMembers, fromMember, insertEntry_new _ hk]
    have happ : acc ++ (k, v) :: ms = acc ++ [(k, v)] ++ ms := by simp
    rw [happ] at h ⊢
    rw [← ih _ h]
    congr 1
    simp [entriesOf]

theorem normalEntries_collapse {es : List (Key × Value φ)}
    (hes : ∀ e ∈ es, fromJson fl symbolize (collapse (plain fl e.2)) = normal fl symbolize e.2)
    (acc : List (String × Json (Number φ))) :
    normalEntries fl symbolize (entriesOf fl symbolize acc) es =
      entriesOf fl symbolize (collapseMembers acc (plainEntries fl es)) := by
  induction es generalizing acc with
  | nil => rfl
  | cons e es ih =>
    obtain ⟨k, v⟩ := e
    have hv := hes _ List.mem_cons_self
    rw [normalEntries, normalEntry, ← hv]
    rw [entriesOf, insertEntry_map]
    exact ih (fun e' he' => hes e' (List.mem_cons_of_mem _ he')) _

theorem fromJson_collapse_plain (v : Value φ) :
    fromJson fl symbolize (collapse (plain fl v)) = normal fl symbolize v := by
  induction v using Value.induct with
  | nil => rfl
  | bool b => rfl
  | int i =>
    have hlo := i.le_toInt
    have hhi := i.toInt_lt
    rw [plain, collapse, fromJson, numberValue, if_pos ⟨by omega, by omega⟩, normal,
      Int64.ofInt_toInt]
  | float f => rfl
  | str s => rfl
  | sym s => rfl
  | hash es ih =>
    have hnodup : (([] ++ collapseMembers [] (plainEntries fl es)).map Prod.fst).Nodup :=
      nodup_collapseMembers (plainEntries fl es) List.nodup_nil
    have hread : fromMembers fl symbolize [] (collapseMembers [] (plainEntries fl es)) =
        entriesOf fl symbolize (collapseMembers [] (plainEntries fl es)) :=
      fromMembers_nodup _ [] hnodup
    rw [plain, collapse, fromJson, normal]
    exact congrArg Value.hash (hread.trans (normalEntries_collapse ih []).symm)
  | arr xs ih =>
    rw [plain, collapse, fromJson, normal]
    congr 1
    induction xs with
    | nil => rfl
    | cons x xs ihxs =>
      rw [plainItems, collapseItems, fromItems, normalItems, ih x List.mem_cons_self,
        ihxs (fun y hy => ih y (List.mem_cons_of_mem x hy))]
  | record h ih =>
    rw [plain, normal]
    exact ih
  | custom s => rfl
  | other s => rfl

/-- A value that JSON can hold as it is. -/
inductive Settled (fl : Floats φ) (symbolize : Bool) : Value φ → Prop
  | nil : Settled fl symbolize .nil
  | bool (b : Bool) : Settled fl symbolize (.bool b)
  | int (i : Int64) : Settled fl symbolize (.int i)
  | float {f : φ} (h : reread fl f = f) : Settled fl symbolize (.float f)
  | str (s : String) : Settled fl symbolize (.str s)
  | hash {es : List (Key × Value φ)} (distinct : (es.map Prod.fst).Nodup)
      (names : ∀ e ∈ es, keyOf symbolize (keyString e.1) = e.1)
      (values : ∀ e ∈ es, Settled fl symbolize e.2) : Settled fl symbolize (.hash es)
  | arr {xs : List (Value φ)} (items : ∀ x ∈ xs, Settled fl symbolize x) :
      Settled fl symbolize (.arr xs)

theorem normalEntries_nodup (es acc : List (Key × Value φ))
    (hnodup : ((acc ++ es).map Prod.fst).Nodup)
    (hnames : ∀ e ∈ es, keyOf symbolize (keyString e.1) = e.1)
    (hvalues : ∀ e ∈ es, normal fl symbolize e.2 = e.2) :
    normalEntries fl symbolize acc es = acc ++ es := by
  induction es generalizing acc with
  | nil => rw [normalEntries, List.append_nil]
  | cons e es ih =>
    obtain ⟨k, v⟩ := e
    have hk : k ∉ acc.map Prod.fst := by
      intro hmem
      rw [List.map_append, List.nodup_append] at hnodup
      exact hnodup.2.2 k hmem k List.mem_cons_self rfl
    have happ : acc ++ (k, v) :: es = acc ++ [(k, v)] ++ es := by simp
    rw [normalEntries, normalEntry, hnames (k, v) List.mem_cons_self,
      hvalues (k, v) List.mem_cons_self, insertEntry_new _ hk, happ]
    rw [happ] at hnodup
    exact ih _ hnodup (fun e he => hnames e (List.mem_cons_of_mem _ he))
      (fun e he => hvalues e (List.mem_cons_of_mem _ he))

theorem normal_settled {v : Value φ} (h : Settled fl symbolize v) : normal fl symbolize v = v := by
  induction h with
  | nil => rfl
  | bool b => rfl
  | int i => rfl
  | float h => rw [normal, h]
  | str s => rfl
  | hash distinct names _ ih =>
    rw [normal, normalEntries_nodup _ [] distinct names ih]
    rfl
  | arr items ih =>
    rename_i xs
    rw [normal]
    congr 1
    clear items
    induction xs with
    | nil => rfl
    | cons x xs ihxs =>
      rw [normalItems, ih x List.mem_cons_self, ihxs (fun y hy => ih y (List.mem_cons_of_mem x hy))]

end Normal

section Finite

variable {fl : Floats φ} {pretty : Bool}

def Returns {ε α : Type} (x : Except ε α) : Prop := ∃ a, x = .ok a

theorem returns_pure {ε α : Type} (a : α) : Returns (pure a : Except ε α) := ⟨a, rfl⟩

theorem returns_bind_pure_iff {ε α β : Type} {x : Except ε α} {f : α → β} :
    Returns (x >>= fun a => pure (f a)) ↔ Returns x := by
  constructor
  · rintro ⟨b, hb⟩
    obtain ⟨a, ha, -⟩ := bind_eq_ok hb
    exact ⟨a, ha⟩
  · rintro ⟨a, rfl⟩
    exact returns_pure (f a)

theorem returns_bind_both_iff {ε α β γ : Type} {x : Except ε α} {y : Except ε β}
    {f : α → β → γ} :
    Returns (x >>= fun a => y >>= fun b => pure (f a b)) ↔ Returns x ∧ Returns y := by
  cases x with
  | error e =>
    refine iff_of_false ?_ ?_
    · rintro ⟨c, hc⟩
      cases hc
    · rintro ⟨⟨a, ha⟩, -⟩
      cases ha
  | ok a =>
    exact (returns_bind_pure_iff (f := f a)).trans (and_iff_right ⟨a, rfl⟩).symm

theorem returns_genItems_iff {xs : List (Value φ)} {d : Nat}
    (h : ∀ x ∈ xs, ∀ d, Returns (gen fl pretty d x) ↔ allFinite fl x = true) (b : Bool) :
    Returns (genItems fl pretty d b xs) ↔ allFinite fl (.arr xs) = true := by
  induction xs generalizing b with
  | nil =>
    rw [genItems]
    exact iff_of_true (returns_pure _) rfl
  | cons x xs ih =>
    rw [genItems, returns_bind_both_iff, ih (fun y hy => h y (List.mem_cons_of_mem x hy)),
      h x List.mem_cons_self, ← Bool.and_eq_true]
    rfl

theorem returns_genEntries_iff {es : List (Key × Value φ)} {d : Nat}
    (h : ∀ e ∈ es, ∀ d, Returns (gen fl pretty d e.2) ↔ allFinite fl e.2 = true) (b : Bool) :
    Returns (genEntries fl pretty d b es) ↔ allFinite fl (.hash es) = true := by
  induction es generalizing b with
  | nil =>
    rw [genEntries]
    exact iff_of_true (returns_pure _) rfl
  | cons e es ih =>
    obtain ⟨k, v⟩ := e
    rw [genEntries, returns_bind_both_iff, ih (fun e he => h e (List.mem_cons_of_mem _ he)),
      genEntry, returns_bind_pure_iff, h (k, v) List.mem_cons_self, ← Bool.and_eq_true]
    rfl

/-- Writing fails on numbers that are not finite, and only on them. -/
theorem returns_gen_iff (v : Value φ) (d : Nat) :
    Returns (gen fl pretty d v) ↔ allFinite fl v = true := by
  induction v using Value.induct generalizing d with
  | float f =>
    rw [gen]
    split
    · next hf => exact iff_of_true (returns_pure _) hf
    · next hf =>
      refine iff_of_false ?_ hf
      rintro ⟨t, ht⟩
      cases ht
  | hash es ih => rw [gen, returns_bind_pure_iff, returns_genEntries_iff ih]
  | arr xs ih => rw [gen, returns_bind_pure_iff, returns_genItems_iff ih]
  | record h ih =>
    rw [gen]
    exact ih d
  | custom t => rw [gen]; exact iff_of_true (returns_pure _) rfl
  | bool b => cases b <;> rw [gen] <;> exact iff_of_true (returns_pure _) rfl
  | nil => rw [gen]; exact iff_of_true (returns_pure _) rfl
  | int i => rw [gen]; exact iff_of_true (returns_pure _) rfl
  | str s => rw [gen]; exact iff_of_true (returns_pure _) rfl
  | sym s => rw [gen]; exact iff_of_true (returns_pure _) rfl
  | other s => rw [gen]; exact iff_of_true (returns_pure _) rfl

end Finite

/-- A value with finite numbers, without objects that have a `to_json` of their own, is written,
compact or pretty, and read back in normal form; a value that JSON can hold is read back as it
was. -/
theorem parse_generate {fl : Floats φ} {serde : List Char → Option (Json (Number φ))}
    (hserde : ReadsJson fl serde) {v : Value φ} (hv : allFinite fl v = true)
    (hc : noCustom v = true) (hd : depth fl v ≤ maxNesting) (pretty symbolize : Bool) :
    ∃ t, generate fl pretty v = .ok t ∧
      parse fl symbolize serde t = some (normal fl symbolize v) ∧
      (Settled fl symbolize v → parse fl symbolize serde t = some v) := by
  obtain ⟨t, ht⟩ := (returns_gen_iff v 0).mpr hv
  have hread : parse fl symbolize serde t = some (normal fl symbolize v) := by
    rw [parse, hserde _ t (shows v hc 0 t ht) hd, Option.map_some, fromJson_collapse_plain]
  refine ⟨t, ht, hread, fun hs => ?_⟩
  rw [hread, normal_settled hs]

/-! ## A reader -/

def natural (cs : List Char) : Option Nat :=
  if cs ≠ [] ∧ cs.all Char.isDigit ∧ (cs.head? = some '0' → cs.length = 1) then
    some (Nat.ofDigitChars 10 cs 0)
  else none

/-- An integer literal; `-0` is none. -/
def integer : List Char → Option Int
  | '-' :: cs => (natural cs).bind (fun n => if n = 0 then none else some (-n))
  | cs => (natural cs).map Int.ofNat

def number (fl : Floats φ) (cs : List Char) : Option (Number φ) :=
  match integer cs with
  | some i => if -2 ^ 63 ≤ i ∧ i < 2 ^ 64 then some (.int i) else (fl.ofText cs).map .float
  | none => (fl.ofText cs).map .float

/-- A reader of JSON texts; it takes some that are none. -/
def readText (fl : Floats φ) (cs : List Char) : Option (Json (Number φ)) :=
  (Json.read (number fl) maxNesting cs).map collapse

/-- The texts of finite numbers have a fraction and are read as some number. -/
structure FloatTexts (fl : Floats φ) : Prop where
  chars : ∀ {f}, fl.isFinite f = true → ∀ c ∈ fl.toText f, isNumberChar c = true
  fraction : ∀ {f}, fl.isFinite f = true → '.' ∈ fl.toText f
  reads : ∀ {f}, fl.isFinite f = true → (fl.ofText (fl.toText f)).isSome

theorem digitChar_eq_zero {d : Nat} (hd : d < 10) (h : d.digitChar = '0') : d = 0 := by
  revert h
  interval_cases d <;> decide

/-- No zero leads a decimal numeral. -/
theorem head_toDigits (n : Nat) (h : (Nat.toDigits 10 n).head? = some '0') : n = 0 := by
  induction n using Nat.strongRecOn with
  | ind n ih =>
    rw [Nat.toDigits_eq_if (by decide)] at h
    split at h
    · next hlt =>
      simp only [List.head?_cons, Option.some.injEq] at h
      exact digitChar_eq_zero hlt h
    · next hge =>
      rw [List.head?_append_of_ne_nil _ Nat.toDigits_ne_nil] at h
      have hq := ih (n / 10) (by omega) h
      omega

theorem natural_toDigits (n : Nat) : natural (Nat.toDigits 10 n) = some n := by
  have hall : (Nat.toDigits 10 n).all Char.isDigit = true := by
    rw [List.all_eq_true]
    exact fun c hc => Nat.isDigit_of_mem_toDigits (by decide) (by decide) hc
  have hhead : (Nat.toDigits 10 n).head? = some '0' → (Nat.toDigits 10 n).length = 1 := by
    intro h
    rw [head_toDigits n h]
    rfl
  rw [natural, if_pos ⟨Nat.toDigits_ne_nil, hall, hhead⟩, Nat.ofDigitChars_ten_toDigits]

theorem natural_fraction {cs : List Char} (h : '.' ∈ cs) : natural cs = none := by
  rw [natural, if_neg]
  rintro ⟨-, hall, -⟩
  have hdot := List.all_eq_true.mp hall _ h
  revert hdot
  decide

theorem integer_fraction {cs : List Char} (h : '.' ∈ cs) : integer cs = none := by
  unfold integer
  split
  · next cs =>
    have hcs : '.' ∈ cs := by simpa using h
    rw [natural_fraction hcs]
    rfl
  · rw [natural_fraction h]
    rfl

theorem integer_intText (i : Int64) : integer (intText i) = some i.toInt := by
  unfold intText
  split
  · next hneg =>
    rw [integer, natural_toDigits, Option.bind_some, if_neg (by omega)]
    exact congrArg some (by omega)
  · next hpos =>
    obtain ⟨c, cs, hcs⟩ := List.exists_cons_of_ne_nil
      (Nat.toDigits_ne_nil (n := i.toInt.natAbs) (b := 10))
    have hc : c ≠ '-' := by
      rintro rfl
      have := Nat.isDigit_of_mem_toDigits (b := 10) (n := i.toInt.natAbs) (by decide) (by decide)
        (hcs ▸ List.mem_cons_self)
      revert this
      decide
    have hnat := natural_toDigits i.toInt.natAbs
    rw [hcs] at hnat ⊢
    rw [integer, hnat]
    · exact congrArg some (by simp; omega)
    · rintro ds h
      exact hc (List.cons.inj h).1

section Reading

variable {fl : Floats φ} (hfl : FloatTexts fl)
include hfl

theorem chars_numberText {n : Number φ} {t : List Char} (h : NumberText fl n t) :
    t ≠ [] ∧ ∀ c ∈ t, isNumberChar c = true := by
  rcases h with ⟨i, rfl, rfl⟩ | ⟨f, hf, rfl, rfl⟩
  · have hdigits : ∀ c ∈ Nat.toDigits 10 i.toInt.natAbs, isNumberChar c = true := by
      intro c hc
      rw [isNumberChar, Nat.isDigit_of_mem_toDigits (by decide) (by decide) hc]
      rfl
    unfold intText
    split
    · refine ⟨List.cons_ne_nil _ _, fun c hc => ?_⟩
      rcases List.mem_cons.mp hc with rfl | hc
      · decide
      · exact hdigits c hc
    · exact ⟨Nat.toDigits_ne_nil, hdigits⟩
  · exact ⟨List.ne_nil_of_mem (hfl.fraction hf), hfl.chars hf⟩

theorem number_numberText {n : Number φ} {t : List Char} (h : NumberText fl n t) :
    number fl t = some n := by
  rcases h with ⟨i, rfl, rfl⟩ | ⟨f, hf, rfl, rfl⟩
  · have hlo := i.le_toInt
    have hhi := i.toInt_lt
    rw [number, integer_intText]
    exact if_pos ⟨by omega, by omega⟩
  · obtain ⟨g, hg⟩ := Option.isSome_iff_exists.mp (hfl.reads hf)
    rw [number, integer_fraction (hfl.fraction hf), reread, hg]
    rfl

theorem readsNumbers : Json.ReadsNumbers (number fl) (NumberText fl) where
  nonempty h := (chars_numberText hfl h).1
  chars h := (chars_numberText hfl h).2
  reads h := number_numberText hfl h

theorem readsJson_readText : ReadsJson fl (readText fl) := fun j t hj hd => by
  rw [readText, Json.read_laid (readsNumbers hfl) hj hd, Option.map_some]

end Reading

/-- Two numbers: one half, and one that is not finite. -/
def halfOrNaN : Floats Bool where
  isFinite f := f
  toText f := if f then ['0', '.', '5'] else ['N', 'a', 'N']
  ofText cs := if cs = ['0', '.', '5'] then some true else none
  ofInt _ := false

theorem floatTexts_halfOrNaN : FloatTexts halfOrNaN where
  chars {f} hf c hc := by
    obtain rfl : f = true := hf
    simp only [halfOrNaN, if_true, List.mem_cons, List.not_mem_nil, or_false] at hc
    rcases hc with rfl | rfl | rfl <;> rfl
  fraction {f} hf := by
    obtain rfl : f = true := hf
    decide
  reads {f} hf := by
    obtain rfl : f = true := hf
    decide

/-- Of two entries `"a"` and `:a` the last one is read back, in the place of the first. -/
theorem parse_generate_equal_names : ∃ t,
    generate halfOrNaN true (.hash [(.str "a", .arr [.int 1, .float true, .nil]),
      (.other "3", .hash []), (.sym "a", .sym "x")]) = .ok t ∧
    parse halfOrNaN true (readText halfOrNaN) t =
      some (.hash [(.sym "a", .str "x"), (.sym "3", .hash [])]) := by
  obtain ⟨t, ht, hread, -⟩ := parse_generate (readsJson_readText floatTexts_halfOrNaN)
    (show allFinite halfOrNaN (.hash [(.str "a", .arr [.int 1, .float true, .nil]),
      (.other "3", .hash []), (.sym "a", .sym "x")]) = true by decide) (by decide) (by decide)
    true true
  exact ⟨t, ht, hread⟩

end PangeaOperator.RubyJson
