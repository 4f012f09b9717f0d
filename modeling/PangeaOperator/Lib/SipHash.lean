import Mathlib.Algebra.Ring.Nat
import PangeaOperator.Lib.Text

/-!
# SipHash-1-3 with zero keys

The hash behind Rust's `DefaultHasher`, over the bytes written to it: one round for
every eight bytes, three to finish. `Hash` impls are byte strings: a text ends in
`0xff`, an integer is its little-endian bytes, a byte slice starts with its length.
-/

namespace PangeaOperator

namespace SipHash

structure State where
  v0 : UInt64
  v1 : UInt64
  v2 : UInt64
  v3 : UInt64

def rotl (x b : UInt64) : UInt64 := (x <<< b) ||| (x >>> (64 - b))

def round (s : State) : State :=
  let v0 := s.v0 + s.v1
  let v2 := s.v2 + s.v3
  let v1 := rotl s.v1 13 ^^^ v0
  let v3 := rotl s.v3 16 ^^^ v2
  let v0 := rotl v0 32 + v3
  let v2 := v2 + v1
  let v3 := rotl v3 21 ^^^ v0
  let v1 := rotl v1 17 ^^^ v2
  ⟨v0, v1, rotl v2 32, v3⟩

def absorb (s : State) (m : UInt64) : State :=
  let t := round ⟨s.v0, s.v1, s.v2, s.v3 ^^^ m⟩
  ⟨t.v0 ^^^ m, t.v1, t.v2, t.v3⟩

def init : State :=
  ⟨0x736f6d6570736575, 0x646f72616e646f6d, 0x6c7967656e657261, 0x7465646279746573⟩

/-- Little-endian reading of at most eight bytes. -/
def word : List UInt8 → UInt64
  | [] => 0
  | b :: bs => b.toUInt64 ||| (word bs <<< 8)

def absorbAll (s : State) (length : Nat) : List UInt8 → State
  | b0 :: b1 :: b2 :: b3 :: b4 :: b5 :: b6 :: b7 :: rest =>
    absorbAll (absorb s (word [b0, b1, b2, b3, b4, b5, b6, b7])) length rest
  | tail => absorb s (word tail ||| (UInt64.ofNat length <<< 56))

def finish (s : State) : UInt64 :=
  let t := round (round (round ⟨s.v0, s.v1, s.v2 ^^^ 0xff, s.v3⟩))
  t.v0 ^^^ t.v1 ^^^ t.v2 ^^^ t.v3

def sipHash (bytes : List UInt8) : UInt64 := finish (absorbAll init bytes.length bytes)

/-- The bytes of the eight-byte little-endian integer. -/
def leBytes (n : UInt64) : List UInt8 :=
  [n, n >>> 8, n >>> 16, n >>> 24, n >>> 32, n >>> 40, n >>> 48, n >>> 56].map UInt64.toUInt8

def utf8 (s : String) : List UInt8 := s.toUTF8.data.toList

/-- What hashing a text writes. -/
def textBytes (s : String) : List UInt8 := utf8 s ++ [0xff]

/-- What hashing a byte slice writes. -/
def sliceBytes (bs : List UInt8) : List UInt8 := leBytes (UInt64.ofNat bs.length) ++ bs

def hexDigits (n : UInt64) : Nat → List Char
  | 0 => []
  | k + 1 => hexDigits (n >>> 4) k ++ [Nat.digitChar (n &&& 15).toNat]

/-- Sixteen lowercase hex digits. -/
def hex16 (n : UInt64) : String := String.ofList (hexDigits n 16)

theorem utf8_eq_flatMap (s : String) : utf8 s = s.toList.flatMap String.utf8EncodeChar := by
  unfold utf8
  rw [show s.toUTF8 = s.toByteArray from rfl, ← String.utf8Encode_toList]
  simp [List.utf8Encode]

theorem utf8_injective : Function.Injective utf8 := by
  intro s t h
  apply String.toByteArray_inj.mp
  exact ByteArray.ext (Array.toList_inj.mp h)

theorem utf8EncodeChar_lt (c : Char) : ∀ b ∈ String.utf8EncodeChar c, b.toNat < 255 := by
  have ofNat_lt {n : Nat} (h : n < 255) : (UInt8.ofNat n).toNat < 255 :=
    Nat.lt_of_le_of_lt (Nat.mod_le _ _) h
  intro b hb
  unfold String.utf8EncodeChar at hb
  dsimp only at hb
  split at hb
  · simp only [List.mem_singleton] at hb
    exact hb ▸ ofNat_lt (by omega)
  · split at hb
    · simp only [List.mem_cons, List.not_mem_nil, or_false] at hb
      rcases hb with rfl | rfl <;> exact ofNat_lt (by omega)
    · split at hb
      · simp only [List.mem_cons, List.not_mem_nil, or_false] at hb
        rcases hb with rfl | rfl | rfl <;> exact ofNat_lt (by omega)
      · simp only [List.mem_cons, List.not_mem_nil, or_false] at hb
        rcases hb with rfl | rfl | rfl | rfl <;> exact ofNat_lt (by omega)

/-- The closing byte of a text occurs in no text. -/
theorem not_mem_utf8 (s : String) : (0xff : UInt8) ∉ utf8 s := by
  rw [utf8_eq_flatMap, List.mem_flatMap]
  rintro ⟨c, _, hb⟩
  exact absurd (utf8EncodeChar_lt c _ hb) (by decide)

theorem textBytes_append_inj {s t : String} {q r : List UInt8}
    (h : textBytes s ++ q = textBytes t ++ r) : s = t ∧ q = r := by
  simp only [textBytes, List.append_assoc, List.cons_append, List.nil_append] at h
  obtain ⟨hs, hq⟩ := append_cons_inj (not_mem_utf8 s) (not_mem_utf8 t) h
  exact ⟨utf8_injective hs, hq⟩

theorem textBytes_injective : Function.Injective textBytes := by
  intro s t h
  exact (textBytes_append_inj (congrArg (· ++ []) h)).1

/-- Hashing texts one after the other writes a string that tells them apart. -/
theorem flatMap_textBytes_injective : Function.Injective (List.flatMap textBytes) := by
  intro ss ts h
  induction ss generalizing ts with
  | nil =>
    cases ts with
    | nil => rfl
    | cons t ts => simp [textBytes] at h
  | cons s ss ih =>
    cases ts with
    | nil => simp [textBytes] at h
    | cons t ts =>
      simp only [List.flatMap_cons] at h
      obtain ⟨rfl, hr⟩ := textBytes_append_inj h
      rw [ih hr]

@[simp] theorem length_leBytes (n : UInt64) : (leBytes n).length = 8 := rfl

theorem sliceBytes_injective : Function.Injective sliceBytes := by
  intro a b h
  exact (List.append_inj h (by simp)).2

theorem digitChar_injOn : ∀ a < 16, ∀ b < 16, Nat.digitChar a = Nat.digitChar b → a = b := by
  decide

theorem toNat_shiftRight_four (n : UInt64) : (n >>> 4).toNat = n.toNat / 16 := by
  rw [UInt64.toNat_shiftRight, Nat.shiftRight_eq_div_pow]
  rfl

theorem toNat_and_fifteen (n : UInt64) : (n &&& 15).toNat = n.toNat % 16 := by
  rw [UInt64.toNat_and]
  exact Nat.and_two_pow_sub_one_eq_mod n.toNat 4

theorem hexDigits_inj (k : Nat) (m n : UInt64) (h : hexDigits m k = hexDigits n k) :
    m.toNat % 16 ^ k = n.toNat % 16 ^ k := by
  induction k generalizing m n with
  | zero => simp [Nat.mod_one]
  | succ k ih =>
    simp only [hexDigits] at h
    obtain ⟨hrest, hlast⟩ := List.append_inj' h rfl
    have hhigh := ih _ _ hrest
    have hlow := digitChar_injOn _ (by rw [toNat_and_fifteen]; omega) _
      (by rw [toNat_and_fifteen]; omega) (List.cons.inj hlast).1
    rw [toNat_shiftRight_four, toNat_shiftRight_four] at hhigh
    rw [toNat_and_fifteen, toNat_and_fifteen] at hlow
    rw [Nat.pow_succ, Nat.mul_comm, Nat.mod_mul, Nat.mod_mul, hlow, hhigh]

theorem hex16_injective : Function.Injective hex16 := by
  intro m n h
  have hd := hexDigits_inj 16 m n (String.ofList_inj.mp h)
  apply UInt64.toNat_inj.mp
  have hm := m.toNat_lt
  have hn := n.toNat_lt
  rwa [Nat.mod_eq_of_lt (by omega), Nat.mod_eq_of_lt (by omega)] at hd

theorem toNat_byte (n : UInt64) (k : UInt64) :
    (n >>> k).toUInt8.toNat = n.toNat / 2 ^ (k.toNat % 64) % 256 := by
  rw [UInt64.toNat_toUInt8, UInt64.toNat_shiftRight, Nat.shiftRight_eq_div_pow]

theorem leBytes_injective : Function.Injective leBytes := by
  intro m n h
  simp only [leBytes, List.map_cons, List.map_nil, List.cons.injEq, and_true] at h
  obtain ⟨h0, h1, h2, h3, h4, h5, h6, h7⟩ := h
  have hm := m.toNat_lt
  have hn := n.toNat_lt
  have b0 := congrArg UInt8.toNat h0
  have b1 := congrArg UInt8.toNat h1
  have b2 := congrArg UInt8.toNat h2
  have b3 := congrArg UInt8.toNat h3
  have b4 := congrArg UInt8.toNat h4
  have b5 := congrArg UInt8.toNat h5
  have b6 := congrArg UInt8.toNat h6
  have b7 := congrArg UInt8.toNat h7
  rw [UInt64.toNat_toUInt8, UInt64.toNat_toUInt8] at b0
  rw [toNat_byte, toNat_byte] at b1 b2 b3 b4 b5 b6 b7
  apply UInt64.toNat_inj.mp
  simp only [UInt64.reduceToNat, Nat.reduceMod, Nat.reducePow] at b0 b1 b2 b3 b4 b5 b6 b7 hm hn
  omega

theorem ofNat_inj_of_lt {m n : Nat} (hm : m < 2 ^ 64) (hn : n < 2 ^ 64)
    (h : UInt64.ofNat m = UInt64.ofNat n) : m = n := by
  have ht := congrArg UInt64.toNat h
  rwa [UInt64.toNat_ofNat_of_lt' hm, UInt64.toNat_ofNat_of_lt' hn] at ht

theorem sliceBytes_append_inj {a b r s : List UInt8} (ha : a.length < 2 ^ 64)
    (hb : b.length < 2 ^ 64) (h : sliceBytes a ++ r = sliceBytes b ++ s) : a = b ∧ r = s := by
  unfold sliceBytes at h
  rw [List.append_assoc, List.append_assoc] at h
  obtain ⟨hlen, hrest⟩ := List.append_inj h (by simp)
  exact List.append_inj hrest (ofNat_inj_of_lt ha hb (leBytes_injective hlen))

theorem flatMap_sliceBytes_inj {as bs : List (List UInt8)} (ha : ∀ a ∈ as, a.length < 2 ^ 64)
    (hb : ∀ b ∈ bs, b.length < 2 ^ 64)
    (h : as.flatMap sliceBytes = bs.flatMap sliceBytes) : as = bs := by
  induction as generalizing bs with
  | nil =>
    cases bs with
    | nil => rfl
    | cons b bs => simp [sliceBytes, leBytes] at h
  | cons a as ih =>
    cases bs with
    | nil => simp [sliceBytes, leBytes] at h
    | cons b bs =>
      simp only [List.flatMap_cons] at h
      obtain ⟨rfl, hr⟩ := sliceBytes_append_inj (ha a (by simp)) (hb b (by simp)) h
      have hbs : ∀ c ∈ bs, c.length < 2 ^ 64 := by
        intro c hc
        exact hb c (List.mem_cons_of_mem _ hc)
      rw [ih (fun c hc => ha c (List.mem_cons_of_mem _ hc)) hbs hr]

end SipHash

end PangeaOperator
