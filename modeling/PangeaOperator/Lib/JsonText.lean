import Mathlib
import PangeaOperator.Lib.Json

/-!
# Canonical key order and compact JSON text

`sortKeys` rebuilds every object as an ordered map; two values with distinct
keys have the same image exactly when they are `Same`. `render` is compact JSON
text, with the text of a number left to a parameter: it determines the value as
long as number texts do, and as long as they use only number characters.
-/

namespace PangeaOperator

namespace Json

variable {ν : Type}

/-- Insertion into an ordered map held as an increasing member list. -/
def insertKey (k : String) (v : Json ν) : List (String × Json ν) → List (String × Json ν)
  | [] => [(k, v)]
  | m :: ms =>
    if k < m.1 then (k, v) :: m :: ms
    else if m.1 = k then (k, v) :: ms else m :: insertKey k v ms

/-- An ordered map collected from a member list; the last of equal names wins. -/
def collectKeys (ms : List (String × Json ν)) : List (String × Json ν) :=
  ms.foldl (fun acc m => insertKey m.1 m.2 acc) []

mutual
def sortKeys : Json ν → Json ν
  | .obj ms => .obj (collectKeys (sortMembers ms))
  | .arr xs => .arr (sortItems xs)
  | .null => .null
  | .bool b => .bool b
  | .num n => .num n
  | .str s => .str s
def sortItems : List (Json ν) → List (Json ν)
  | [] => []
  | x :: xs => sortKeys x :: sortItems xs
def sortMembers : List (String × Json ν) → List (String × Json ν)
  | [] => []
  | m :: ms => sortMember m :: sortMembers ms
def sortMember : String × Json ν → String × Json ν
  | (k, v) => (k, sortKeys v)
end

def Increasing (ms : List (String × Json ν)) : Prop := ms.Pairwise (fun a b => a.1 < b.1)

@[simp] theorem lookup_insertKey (j k : String) (v : Json ν) (ms : List (String × Json ν)) :
    lookup j (insertKey k v ms) = if k = j then some v else lookup j ms := by
  induction ms with
  | nil => simp [insertKey]
  | cons m ms ih =>
    obtain ⟨i, w⟩ := m
    unfold insertKey
    split
    · simp
    · split
      · next hi =>
        simp only at hi
        subst hi
        simp only [lookup_cons]
        split <;> rfl
      · simp only [lookup_cons, ih]
        split <;> split <;> simp_all

theorem mem_insertKey {k : String} {v : Json ν} {ms : List (String × Json ν)}
    {m : String × Json ν} (h : m ∈ insertKey k v ms) : m = (k, v) ∨ m ∈ ms := by
  induction ms with
  | nil => simpa [insertKey] using h
  | cons n ms ih =>
    unfold insertKey at h
    split at h
    · simpa using h
    · split at h
      · rcases List.mem_cons.mp h with h | h
        · exact .inl h
        · exact .inr (List.mem_cons_of_mem _ h)
      · rcases List.mem_cons.mp h with h | h
        · exact .inr (h ▸ List.mem_cons_self)
        · rcases ih h with h | h
          · exact .inl h
          · exact .inr (List.mem_cons_of_mem _ h)

theorem increasing_insertKey (k : String) (v : Json ν) (ms : List (String × Json ν))
    (h : Increasing ms) : Increasing (insertKey k v ms) := by
  unfold Increasing at h ⊢
  induction ms with
  | nil => simp [insertKey]
  | cons m ms ih =>
    obtain ⟨hm, hms⟩ := List.pairwise_cons.mp h
    unfold insertKey
    split
    · next hk =>
      refine List.pairwise_cons.mpr ⟨fun n hn => ?_, h⟩
      rcases List.mem_cons.mp hn with rfl | hn
      · exact hk
      · exact lt_trans hk (hm n hn)
    · split
      · next hk =>
        subst hk
        exact List.pairwise_cons.mpr ⟨hm, hms⟩
      · next hlt hne =>
        refine List.pairwise_cons.mpr ⟨fun n hn => ?_, ih hms⟩
        rcases mem_insertKey hn with rfl | hn
        · exact lt_of_le_of_ne (not_lt.mp hlt) hne
        · exact hm n hn

theorem increasing_foldl (ms acc : List (String × Json ν)) (h : Increasing acc) :
    Increasing (ms.foldl (fun acc m => insertKey m.1 m.2 acc) acc) := by
  induction ms generalizing acc with
  | nil => exact h
  | cons m ms ih => exact ih _ (increasing_insertKey _ _ _ h)

theorem lookup_foldl (k : String) (ms acc : List (String × Json ν))
    (hn : (ms.map Prod.fst).Nodup) :
    lookup k (ms.foldl (fun acc m => insertKey m.1 m.2 acc) acc) =
      (lookup k ms).or (lookup k acc) := by
  induction ms generalizing acc with
  | nil => rfl
  | cons m ms ih =>
    obtain ⟨j, v⟩ := m
    simp only [List.map_cons, List.nodup_cons] at hn
    rw [List.foldl_cons, ih _ hn.2, lookup_insertKey, lookup_cons]
    by_cases h : j = k
    · subst j
      simp [lookup_eq_none_iff.mpr hn.1]
    · simp [h]

theorem increasing_collectKeys (ms : List (String × Json ν)) : Increasing (collectKeys ms) :=
  increasing_foldl ms [] List.Pairwise.nil

theorem lookup_collectKeys (k : String) (ms : List (String × Json ν))
    (hn : (ms.map Prod.fst).Nodup) : lookup k (collectKeys ms) = lookup k ms := by
  simp [collectKeys, lookup_foldl k ms [] hn]

theorem lookup_increasing_none {k : String} {m : String × Json ν} {ms : List (String × Json ν)}
    (h : Increasing (m :: ms)) (hk : k < m.1) : lookup k (m :: ms) = none := by
  rw [lookup_eq_none_iff]
  intro hmem
  obtain ⟨n, hn, rfl⟩ := List.mem_map.mp hmem
  rcases List.mem_cons.mp hn with rfl | hn
  · exact lt_irrefl _ hk
  · exact lt_asymm hk ((List.pairwise_cons.mp h).1 n hn)

/-- An increasing member list is determined by its lookups. -/
theorem increasing_ext {ms ns : List (String × Json ν)} (hm : Increasing ms) (hn : Increasing ns)
    (h : ∀ k, lookup k ms = lookup k ns) : ms = ns := by
  induction ms generalizing ns with
  | nil =>
    cases ns with
    | nil => rfl
    | cons n ns =>
      have hk := h n.1
      simp [lookup] at hk
  | cons m ms ih =>
    cases ns with
    | nil =>
      have hk := h m.1
      simp [lookup] at hk
    | cons n ns =>
      have hkey : m.1 = n.1 := by
        rcases lt_trichotomy m.1 n.1 with hlt | he | hlt
        · have hk := h m.1
          rw [lookup_increasing_none hn hlt] at hk
          simp [lookup] at hk
        · exact he
        · have hk := h n.1
          rw [lookup_increasing_none hm hlt] at hk
          simp [lookup] at hk
      have hval : m.2 = n.2 := by
        have hk := h m.1
        simpa [lookup, hkey] using hk
      have htail : ms = ns := by
        refine ih (List.pairwise_cons.mp hm).2 (List.pairwise_cons.mp hn).2 (fun k => ?_)
        have hk := h k
        by_cases hmk : m.1 = k
        · subst hmk
          rw [lookup_eq_none_iff.mpr, lookup_eq_none_iff.mpr]
          · intro hc
            obtain ⟨p, hp, he⟩ := List.mem_map.mp hc
            exact lt_irrefl _ (hkey ▸ he ▸ (List.pairwise_cons.mp hn).1 p hp)
          · intro hc
            obtain ⟨p, hp, he⟩ := List.mem_map.mp hc
            have := (List.pairwise_cons.mp hm).1 p hp
            exact lt_irrefl _ (he ▸ this)
        · simpa [lookup, hmk, hkey ▸ hmk] using hk
      rw [Prod.ext hkey hval, htail]

theorem lookup_sortMembers (k : String) (ms : List (String × Json ν)) :
    lookup k (sortMembers ms) = (lookup k ms).map sortKeys := by
  induction ms with
  | nil => rfl
  | cons m ms ih =>
    obtain ⟨j, v⟩ := m
    simp only [sortMembers, sortMember, lookup_cons, ih]
    split <;> rfl

theorem keys_sortMembers (ms : List (String × Json ν)) :
    (sortMembers ms).map Prod.fst = ms.map Prod.fst := by
  induction ms with
  | nil => rfl
  | cons m ms ih =>
    obtain ⟨k, v⟩ := m
    simp [sortMembers, sortMember, ih]

theorem sortMembers_eq_iff (ms ns : List (String × Json ν))
    (hm : (ms.map Prod.fst).Nodup) (hn : (ns.map Prod.fst).Nodup) :
    collectKeys (sortMembers ms) = collectKeys (sortMembers ns) ↔
      ∀ k, (lookup k ms).map sortKeys = (lookup k ns).map sortKeys := by
  have hm' := keys_sortMembers ms ▸ hm
  have hn' := keys_sortMembers ns ▸ hn
  constructor
  · intro h k
    have hk := congrArg (lookup k) h
    rwa [lookup_collectKeys k _ hm', lookup_collectKeys k _ hn', lookup_sortMembers,
      lookup_sortMembers] at hk
  · intro h
    refine increasing_ext (increasing_collectKeys _) (increasing_collectKeys _) (fun k => ?_)
    rw [lookup_collectKeys k _ hm', lookup_collectKeys k _ hn', lookup_sortMembers,
      lookup_sortMembers]
    exact h k

theorem sortItems_eq_iff (xs ys : List (Json ν))
    (h : ∀ x ∈ xs, ∀ y ∈ ys, sortKeys x = sortKeys y ↔ Same x y) :
    sortItems xs = sortItems ys ↔ List.Forall₂ Same xs ys := by
  induction xs generalizing ys with
  | nil => cases ys <;> simp [sortItems]
  | cons x xs ih =>
    cases ys with
    | nil => simp [sortItems]
    | cons y ys =>
      simp only [sortItems, List.cons.injEq, List.forall₂_cons]
      rw [h x (by simp) y (by simp), ih ys (fun a ha b hb =>
        h a (List.mem_cons_of_mem _ ha) b (List.mem_cons_of_mem _ hb))]

/-- Sorting identifies exactly the values that differ in member order only. -/
theorem sortKeys_eq_iff (v w : Json ν) (hv : DistinctKeys v) (hw : DistinctKeys w) :
    sortKeys v = sortKeys w ↔ Same v w := by
  induction v using induct generalizing w with
  | null => cases w <;> simp [sortKeys, Same.null] <;> intro h <;> cases h
  | bool b =>
    cases w <;> simp only [sortKeys, reduceCtorEq, false_iff, Json.bool.injEq] <;>
      first | exact ⟨fun h => h ▸ .bool _, fun h => by cases h; rfl⟩ | (intro h; cases h)
  | num n =>
    cases w <;> simp only [sortKeys, reduceCtorEq, false_iff, Json.num.injEq] <;>
      first | exact ⟨fun h => h ▸ .num _, fun h => by cases h; rfl⟩ | (intro h; cases h)
  | str s =>
    cases w <;> simp only [sortKeys, reduceCtorEq, false_iff, Json.str.injEq] <;>
      first | exact ⟨fun h => h ▸ .str _, fun h => by cases h; rfl⟩ | (intro h; cases h)
  | arr xs ih =>
    cases w with
    | arr ys =>
      cases hv with
      | arr hx =>
        cases hw with
        | arr hy =>
          simp only [sortKeys, Json.arr.injEq]
          rw [sortItems_eq_iff xs ys (fun x h y h' => ih x h y (hx x h) (hy y h'))]
          exact ⟨.arr, fun h => by cases h; assumption⟩
    | _ => simp only [sortKeys, reduceCtorEq, false_iff]; intro h; cases h
  | obj ms ih =>
    cases w with
    | obj ns =>
      cases hv with
      | obj hm hmv =>
        cases hw with
        | obj hn hnv =>
          simp only [sortKeys, Json.obj.injEq]
          rw [sortMembers_eq_iff ms ns hm hn, same_obj_iff]
          refine forall_congr' (fun k => ?_)
          cases hk : lookup k ms with
          | none => cases lookup k ns <;> simp
          | some v =>
            cases hk' : lookup k ns with
            | none => simp
            | some w =>
              simp only [Option.map_some, Option.some.injEq, Option.rel_some_some]
              exact ih _ (lookup_mem hk) w (hmv _ (lookup_mem hk)) (hnv _ (lookup_mem hk'))
    | _ => simp only [sortKeys, reduceCtorEq, false_iff]; intro h; cases h

def quote : Char := Char.ofNat 34
def backslash : Char := Char.ofNat 92

def hexDigit (n : Nat) : Char := if n < 10 then Char.ofNat (48 + n) else Char.ofNat (87 + n)
def hexValue (c : Char) : Nat := if c.toNat < 58 then c.toNat - 48 else c.toNat - 87

/-- Only the quote, the backslash and control characters are escaped. -/
def escapeChar (c : Char) : List Char :=
  if c = quote then [backslash, quote]
  else if c = backslash then [backslash, backslash]
  else if c.toNat = 8 then [backslash, 'b']
  else if c.toNat = 9 then [backslash, 't']
  else if c.toNat = 10 then [backslash, 'n']
  else if c.toNat = 12 then [backslash, 'f']
  else if c.toNat = 13 then [backslash, 'r']
  else if c.toNat < 32 then
    [backslash, 'u', '0', '0', hexDigit (c.toNat / 16), hexDigit (c.toNat % 16)]
  else [c]

def renderString (s : String) : List Char := quote :: (s.toList.flatMap escapeChar ++ [quote])

mutual
def render (numText : ν → List Char) : Json ν → List Char
  | .null => ['n', 'u', 'l', 'l']
  | .bool true => ['t', 'r', 'u', 'e']
  | .bool false => ['f', 'a', 'l', 's', 'e']
  | .num n => numText n
  | .str s => renderString s
  | .arr [] => ['[', ']']
  | .arr (x :: xs) => '[' :: (render numText x ++ renderItems numText xs)
  | .obj [] => ['\x7b', '\x7d']
  | .obj (m :: ms) => '\x7b' :: (renderMember numText m ++ renderMembers numText ms)
def renderItems (numText : ν → List Char) : List (Json ν) → List Char
  | [] => [']']
  | x :: xs => ',' :: (render numText x ++ renderItems numText xs)
def renderMembers (numText : ν → List Char) : List (String × Json ν) → List Char
  | [] => ['\x7d']
  | m :: ms => ',' :: (renderMember numText m ++ renderMembers numText ms)
def renderMember (numText : ν → List Char) : String × Json ν → List Char
  | (k, v) => renderString k ++ ':' :: render numText v
end

def isNumberChar (c : Char) : Bool :=
  c.isDigit || c == '-' || c == '+' || c == '.' || c == 'e' || c == 'E'

/-- What the text of a number has to satisfy for the whole text to be unambiguous. -/
structure NumberText (numText : ν → List Char) : Prop where
  injective : Function.Injective numText
  nonempty : ∀ n, numText n ≠ []
  chars : ∀ n, ∀ c ∈ numText n, isNumberChar c = true

/-- Numbers without a sign, in decimal. -/
theorem numberText_toDigits : NumberText (Nat.toDigits 10) := by
  refine ⟨fun m n h => ?_, fun n => Nat.toDigits_ne_nil, fun n c hc => ?_⟩
  · rw [← Nat.ofDigitChars_ten_toDigits (n := m), ← Nat.ofDigitChars_ten_toDigits (n := n)]
    exact congrArg (Nat.ofDigitChars 10 · 0) h
  · rw [isNumberChar, Nat.isDigit_of_mem_toDigits (by decide) (by decide) hc]
    rfl

/-- The reading of one character of a string literal. -/
def unescape : List Char → Option (Char × List Char)
  | [] => none
  | c :: cs =>
    if c = quote then none
    else if c = backslash then
      match cs with
      | 'b' :: cs => some (Char.ofNat 8, cs)
      | 't' :: cs => some (Char.ofNat 9, cs)
      | 'n' :: cs => some (Char.ofNat 10, cs)
      | 'f' :: cs => some (Char.ofNat 12, cs)
      | 'r' :: cs => some (Char.ofNat 13, cs)
      | 'u' :: '0' :: '0' :: h :: l :: cs =>
        some (Char.ofNat (16 * hexValue h + hexValue l), cs)
      | d :: cs => some (d, cs)
      | [] => none
    else some (c, cs)

theorem hexValue_hexDigit : ∀ n < 16, hexValue (hexDigit n) = n := by decide

theorem eq_ofNat_of_toNat {c : Char} {n : Nat} (h : c.toNat = n) : c = Char.ofNat n := by
  rw [← h, Char.ofNat_toNat]

theorem unescape_escapeChar (c : Char) (rest : List Char) :
    unescape (escapeChar c ++ rest) = some (c, rest) := by
  have hbq : backslash ≠ quote := by decide
  unfold escapeChar
  split_ifs with hq hb h8 h9 h10 h12 h13 h32
  · subst hq
    simp only [List.cons_append, List.nil_append, unescape.eq_def, if_true, quote]
    rfl
  · subst hb
    simp only [List.cons_append, List.nil_append, unescape.eq_def, hbq, if_false, if_true]
    rfl
  · simp [unescape, hbq, eq_ofNat_of_toNat h8]
  · simp [unescape, hbq, eq_ofNat_of_toNat h9]
  · simp [unescape, hbq, eq_ofNat_of_toNat h10]
  · simp [unescape, hbq, eq_ofNat_of_toNat h12]
  · simp [unescape, hbq, eq_ofNat_of_toNat h13]
  · have hv : 16 * (c.toNat / 16) + c.toNat % 16 = c.toNat := by omega
    simp [unescape, hbq, hexValue_hexDigit _ (show c.toNat / 16 < 16 by omega),
      hexValue_hexDigit _ (show c.toNat % 16 < 16 by omega), hv, Char.ofNat_toNat]
  · simp [unescape, hq, hb]

theorem escape_append_inj (cs ds : List Char) (r s : List Char)
    (h : cs.flatMap escapeChar ++ quote :: r = ds.flatMap escapeChar ++ quote :: s) :
    cs = ds ∧ r = s := by
  induction cs generalizing ds with
  | nil =>
    cases ds with
    | nil => simpa using h
    | cons d ds =>
      have hu := congrArg unescape h
      simp only [List.flatMap_nil, List.nil_append, List.flatMap_cons, List.append_assoc,
        unescape_escapeChar] at hu
      simp [unescape] at hu
  | cons c cs ih =>
    cases ds with
    | nil =>
      have hu := congrArg unescape h
      simp only [List.flatMap_nil, List.nil_append, List.flatMap_cons, List.append_assoc,
        unescape_escapeChar] at hu
      simp [unescape] at hu
    | cons d ds =>
      have hu := congrArg unescape h
      simp only [List.flatMap_cons, List.append_assoc, unescape_escapeChar, Option.some.injEq,
        Prod.mk.injEq] at hu
      obtain ⟨rfl, ht⟩ := hu
      obtain ⟨rfl, rfl⟩ := ih ds ht
      exact ⟨rfl, rfl⟩

theorem renderString_append_inj {s t : String} {q r : List Char}
    (h : renderString s ++ q = renderString t ++ r) : s = t ∧ q = r := by
  simp only [renderString, List.cons_append, List.append_assoc, List.nil_append,
    List.cons.injEq, true_and] at h
  obtain ⟨hs, hq⟩ := escape_append_inj _ _ _ _ h
  exact ⟨String.toList_inj.mp hs, hq⟩

/-- What may follow a value inside a larger text. -/
def Stop (r : List Char) : Prop := ∀ c, r.head? = some c → isNumberChar c = false

theorem stop_nil : Stop [] := by
  intro c h
  simp at h

theorem stop_cons {c : Char} (h : isNumberChar c = false) (r : List Char) : Stop (c :: r) := by
  intro d hd
  simp only [List.head?_cons, Option.some.injEq] at hd
  exact hd ▸ h

theorem number_append_inj {a b r s : List Char} (ha : ∀ c ∈ a, isNumberChar c = true)
    (hb : ∀ c ∈ b, isNumberChar c = true) (hr : Stop r) (hs : Stop s)
    (h : a ++ r = b ++ s) : a = b ∧ r = s := by
  induction a generalizing b with
  | nil =>
    cases b with
    | nil => exact ⟨rfl, h⟩
    | cons d b =>
      have hd := hr d (by rw [← List.nil_append r, h]; rfl)
      rw [hb d (by simp)] at hd
      simp at hd
  | cons c a ih =>
    cases b with
    | nil =>
      have hc := hs c (by rw [← List.nil_append s, ← h]; rfl)
      rw [ha c (by simp)] at hc
      simp at hc
    | cons d b =>
      simp only [List.cons_append, List.cons.injEq] at h
      obtain ⟨rfl, ht⟩ := h
      obtain ⟨rfl, hrs⟩ := ih (fun x hx => ha x (List.mem_cons_of_mem _ hx))
        (fun x hx => hb x (List.mem_cons_of_mem _ hx)) ht
      exact ⟨rfl, hrs⟩

def kind : Json ν → Nat
  | .null => 0
  | .bool _ => 1
  | .num _ => 2
  | .str _ => 3
  | .arr _ => 4
  | .obj _ => 5

/-- The constructor a text starting with this character belongs to. -/
def kindOfChar (c : Char) : Nat :=
  if c = 'n' then 0 else if c = 't' ∨ c = 'f' then 1 else if isNumberChar c then 2
  else if c = quote then 3 else if c = '[' then 4 else if c = '\x7b' then 5 else 6

theorem kindOfChar_number {c : Char} (h : isNumberChar c = true) : kindOfChar c = 2 := by
  have hn : c ≠ 'n' := by rintro rfl; revert h; decide
  have ht : c ≠ 't' := by rintro rfl; revert h; decide
  have hf : c ≠ 'f' := by rintro rfl; revert h; decide
  simp [kindOfChar, hn, ht, hf, h]

section Injective

variable {numText : ν → List Char}

/-- The first character of a value's text tells its constructor. -/
def Headed (text : Json ν → List Char) : Prop :=
  ∀ v, ∃ c rest, text v = c :: rest ∧ kindOfChar c = kind v

theorem Headed.kind_eq {text : Json ν → List Char} (h : Headed text) {v w : Json ν}
    {r s : List Char} (he : text v ++ r = text w ++ s) : kind v = kind w := by
  obtain ⟨c, rest, hv, hc⟩ := h v
  obtain ⟨d, rest', hw, hd⟩ := h w
  rw [hv, hw] at he
  simp only [List.cons_append, List.cons.injEq] at he
  rw [← hc, ← hd, he.1]

/-- No value begins with a closing bracket, or with another character of kind 6. -/
theorem Headed.ne_cons {text : Json ν → List Char} (h : Headed text) {v : Json ν}
    {r s : List Char} {c : Char} (hc : kindOfChar c = 6) : text v ++ r ≠ c :: s := by
  obtain ⟨d, rest, hv, hd⟩ := h v
  rw [hv]
  intro he
  simp only [List.cons_append, List.cons.injEq] at he
  rw [he.1, hc] at hd
  cases v <;> simp [kind] at hd

theorem render_headed (hnum : NumberText numText) : Headed (render numText) := by
  intro v
  cases v with
  | null => exact ⟨_, _, rfl, rfl⟩
  | bool b => cases b <;> exact ⟨_, _, rfl, rfl⟩
  | num n =>
    cases ht : numText n with
    | nil => exact absurd ht (hnum.nonempty n)
    | cons c rest =>
      refine ⟨c, rest, by rw [render, ht], ?_⟩
      exact kindOfChar_number (hnum.chars n c (by simp [ht]))
  | str s => exact ⟨_, _, rfl, rfl⟩
  | arr xs => cases xs <;> exact ⟨_, _, rfl, rfl⟩
  | obj ms => cases ms <;> exact ⟨_, _, rfl, rfl⟩

/-- One value's text can be read off the front of a longer one. -/
def Readable (numText : ν → List Char) (v : Json ν) : Prop :=
  ∀ (w : Json ν) (r s : List Char), Stop r → Stop s →
    render numText v ++ r = render numText w ++ s → v = w ∧ r = s

theorem stop_items (xs : List (Json ν)) (r : List Char) :
    Stop (renderItems numText xs ++ r) := by
  cases xs <;> exact stop_cons (by decide) _

theorem stop_members (ms : List (String × Json ν)) (r : List Char) :
    Stop (renderMembers numText ms ++ r) := by
  cases ms <;> exact stop_cons (by decide) _

theorem renderItems_append_inj (xs ys : List (Json ν)) (hx : ∀ x ∈ xs, Readable numText x)
    (r s : List Char) (h : renderItems numText xs ++ r = renderItems numText ys ++ s) :
    xs = ys ∧ r = s := by
  induction xs generalizing ys with
  | nil =>
    cases ys with
    | nil => simpa [renderItems] using h
    | cons y ys => simp [renderItems] at h
  | cons x xs ih =>
    cases ys with
    | nil => simp [renderItems] at h
    | cons y ys =>
      simp only [renderItems, List.cons_append, List.append_assoc, List.cons.injEq,
        true_and] at h
      obtain ⟨rfl, ht⟩ := hx x (by simp) y _ _ (stop_items xs r) (stop_items ys s) h
      obtain ⟨rfl, hrs⟩ := ih ys (fun z hz => hx z (List.mem_cons_of_mem _ hz)) ht
      exact ⟨rfl, hrs⟩

theorem renderMember_append_inj (m n : String × Json ν) (hm : Readable numText m.2)
    (r s : List Char) (hr : Stop r) (hs : Stop s)
    (h : renderMember numText m ++ r = renderMember numText n ++ s) : m = n ∧ r = s := by
  obtain ⟨j, v⟩ := m
  obtain ⟨k, w⟩ := n
  simp only [renderMember, List.append_assoc, List.cons_append] at h
  obtain ⟨rfl, ht⟩ := renderString_append_inj h
  simp only [List.cons.injEq, true_and] at ht
  obtain ⟨hvw, hrs⟩ := hm w r s hr hs ht
  exact ⟨by rw [show v = w from hvw], hrs⟩

theorem renderMembers_append_inj (ms ns : List (String × Json ν))
    (hm : ∀ m ∈ ms, Readable numText m.2) (r s : List Char)
    (h : renderMembers numText ms ++ r = renderMembers numText ns ++ s) : ms = ns ∧ r = s := by
  induction ms generalizing ns with
  | nil =>
    cases ns with
    | nil => simpa [renderMembers] using h
    | cons n ns => simp [renderMembers] at h
  | cons m ms ih =>
    cases ns with
    | nil => simp [renderMembers] at h
    | cons n ns =>
      simp only [renderMembers, List.cons_append, List.append_assoc, List.cons.injEq,
        true_and] at h
      obtain ⟨rfl, ht⟩ := renderMember_append_inj m n (hm m (by simp)) _ _
        (stop_members ms r) (stop_members ns s) h
      obtain ⟨rfl, hrs⟩ := ih ns (fun z hz => hm z (List.mem_cons_of_mem _ hz)) ht
      exact ⟨rfl, hrs⟩

theorem readable_arr (hnum : NumberText numText) {xs : List (Json ν)}
    (ih : ∀ x ∈ xs, Readable numText x) : Readable numText (.arr xs) := by
  intro w r s _ _ h
  have hk := (render_headed hnum).kind_eq h
  cases w with
  | arr ys =>
    cases xs with
    | nil =>
      cases ys with
      | nil => exact ⟨rfl, by simpa [render] using h⟩
      | cons y ys =>
        simp only [render, List.cons_append, List.nil_append, List.append_assoc,
          List.cons.injEq, true_and] at h
        exact absurd h.symm ((render_headed hnum).ne_cons (by decide))
    | cons x xs =>
      cases ys with
      | nil =>
        simp only [render, List.cons_append, List.nil_append, List.append_assoc,
          List.cons.injEq, true_and] at h
        exact absurd h ((render_headed hnum).ne_cons (by decide))
      | cons y ys =>
        simp only [render, List.cons_append, List.append_assoc, List.cons.injEq,
          true_and] at h
        obtain ⟨rfl, ht⟩ := ih x (by simp) y _ _ (stop_items xs r) (stop_items ys s) h
        obtain ⟨rfl, hrs⟩ := renderItems_append_inj xs ys
          (fun z hz => ih z (List.mem_cons_of_mem _ hz)) r s ht
        exact ⟨rfl, hrs⟩
  | _ => simp [kind] at hk

theorem readable_obj (hnum : NumberText numText) {ms : List (String × Json ν)}
    (ih : ∀ m ∈ ms, Readable numText m.2) : Readable numText (.obj ms) := by
  intro w r s _ _ h
  have hk := (render_headed hnum).kind_eq h
  cases w with
  | obj ns =>
    cases ms with
    | nil =>
      cases ns with
      | nil => exact ⟨rfl, by simpa [render] using h⟩
      | cons n ns =>
        obtain ⟨k, v⟩ := n
        simp [render, renderMember, renderString, quote] at h
    | cons m ms =>
      cases ns with
      | nil =>
        obtain ⟨k, v⟩ := m
        simp [render, renderMember, renderString, quote] at h
      | cons n ns =>
        simp only [render, List.cons_append, List.append_assoc, List.cons.injEq,
          true_and] at h
        obtain ⟨rfl, ht⟩ := renderMember_append_inj m n (ih m (by simp)) _ _
          (stop_members ms r) (stop_members ns s) h
        obtain ⟨rfl, hrs⟩ := renderMembers_append_inj ms ns
          (fun z hz => ih z (List.mem_cons_of_mem _ hz)) r s ht
        exact ⟨rfl, hrs⟩
  | _ => simp [kind] at hk

theorem readable (hnum : NumberText numText) (v : Json ν) : Readable numText v := by
  induction v using induct with
  | null =>
    intro w r s _ _ h
    have hk := (render_headed hnum).kind_eq h
    cases w <;> simp [kind] at hk
    exact ⟨rfl, by simpa [render] using h⟩
  | bool b =>
    intro w r s _ _ h
    have hk := (render_headed hnum).kind_eq h
    cases w with
    | bool c => cases b <;> cases c <;> simp_all [render]
    | _ => simp [kind] at hk
  | num n =>
    intro w r s hr hs h
    have hk := (render_headed hnum).kind_eq h
    cases w with
    | num m =>
      obtain ⟨ht, hrs⟩ := number_append_inj (hnum.chars n) (hnum.chars m) hr hs h
      exact ⟨by rw [hnum.injective ht], hrs⟩
    | _ => simp [kind] at hk
  | str t =>
    intro w r s _ _ h
    have hk := (render_headed hnum).kind_eq h
    cases w with
    | str u =>
      obtain ⟨rfl, hrs⟩ := renderString_append_inj h
      exact ⟨rfl, hrs⟩
    | _ => simp [kind] at hk
  | arr xs ih => exact readable_arr hnum ih
  | obj ms ih => exact readable_obj hnum ih

/-- Compact JSON text determines the value. -/
theorem render_injective (hnum : NumberText numText) :
    Function.Injective (render numText) := by
  intro v w h
  exact (readable hnum v w [] [] stop_nil stop_nil (by rw [h])).1

end Injective

end Json

end PangeaOperator
