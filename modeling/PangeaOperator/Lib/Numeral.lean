import Mathlib.Data.Nat.Digits.Lemmas
import Mathlib.Tactic.Ring

/-!
# Numerals

Digits in a base, least significant first, multiplied by a number in place with a carry; the
numeral of a number as the digits without a leading zero; the octets of a number, most significant
first; and what is read as an unsigned number.
-/

namespace PangeaOperator

/-- `str::parse::<u64>`: an optional plus sign, then at least one digit. -/
def parseU64 (cs : List Char) : Option Nat :=
  let digits : List Char := match cs with
    | '+' :: rest => rest
    | _ => cs
  let n : Nat := digits.foldl (fun n c => 10 * n + (c.toNat - '0'.toNat)) 0
  if digits ≠ [] ∧ digits.all Char.isDigit ∧ n < UInt64.size then some n else none

namespace Numeral

/-- `ds` times `m` plus `carry`. -/
def scale (b m : Nat) : Nat → List Nat → List Nat
  | carry, [] => Nat.digits b carry
  | carry, d :: ds => (d * m + carry) % b :: scale b m ((d * m + carry) / b) ds

theorem ofDigits_scale (b m carry : Nat) (ds : List Nat) :
    Nat.ofDigits b (scale b m carry ds) = Nat.ofDigits b ds * m + carry := by
  induction ds generalizing carry with
  | nil => simp [scale, Nat.ofDigits_digits]
  | cons d ds ih =>
    have hv := Nat.mod_add_div (d * m + carry) b
    rw [scale, Nat.ofDigits_cons, Nat.ofDigits_cons, ih]
    calc
      (d * m + carry) % b + b * (Nat.ofDigits b ds * m + (d * m + carry) / b)
        = (d * m + carry) % b + b * ((d * m + carry) / b) + b * Nat.ofDigits b ds * m := by ring
      _ = d * m + carry + b * Nat.ofDigits b ds * m := by rw [hv]
      _ = (d + b * Nat.ofDigits b ds) * m + carry := by ring

/-- Digits below the base, the last of them zero in the numeral of zero only. -/
structure Canonical (b : Nat) (ds : List Nat) : Prop where
  digit : ∀ d ∈ ds, d < b
  leading : ds ≠ [0] → ∃ d, ds.getLast? = some d ∧ d ≠ 0

theorem canonical_zero {b : Nat} (hb : 1 < b) : Canonical b [0] where
  digit := by
    intro d hd
    rw [List.mem_singleton.mp hd]
    omega
  leading h := absurd rfl h

theorem Canonical.ne_nil {b : Nat} {ds : List Nat} (h : Canonical b ds) : ds ≠ [] := by
  intro hds
  obtain ⟨d, hd, -⟩ := h.leading (by simp [hds])
  simp [hds] at hd

theorem lt_of_mem_scale {b m carry d : Nat} {ds : List Nat} (hb : 1 < b)
    (hd : d ∈ scale b m carry ds) : d < b := by
  induction ds generalizing carry with
  | nil => exact Nat.digits_lt_base hb hd
  | cons x ds ih =>
    rcases List.mem_cons.mp hd with rfl | hd
    · exact Nat.mod_lt _ (by omega)
    · exact ih hd

/-- A carry is written without a leading zero. -/
theorem getLast_digits {b n : Nat} (hn : n ≠ 0) :
    ∃ d, (Nat.digits b n).getLast? = some d ∧ d ≠ 0 := by
  have hne : Nat.digits b n ≠ [] := Nat.digits_ne_nil_iff_ne_zero.mpr hn
  exact ⟨_, List.getLast?_eq_some_getLast hne, Nat.getLast_digit_ne_zero b hn⟩

/-- The last digit stays other than zero: what it loses to its remainder goes into the carry. -/
theorem getLast_scale {b m carry : Nat} {ds : List Nat} (hb : 1 < b) (hm : 0 < m)
    (hlast : ∃ d, ds.getLast? = some d ∧ d ≠ 0) :
    ∃ d, (scale b m carry ds).getLast? = some d ∧ d ≠ 0 := by
  induction ds generalizing carry with
  | nil => simp at hlast
  | cons x ds ih =>
    cases ds with
    | nil =>
      have hx : x ≠ 0 := by simpa using hlast
      have hpos : 0 < x * m := Nat.mul_pos (by omega) hm
      simp only [scale]
      by_cases hq : (x * m + carry) / b = 0
      · have hlt : x * m + carry < b := (Nat.div_eq_zero_iff_lt (by omega)).mp hq
        rw [hq, Nat.digits_zero, Nat.mod_eq_of_lt hlt]
        exact ⟨x * m + carry, rfl, by omega⟩
      · obtain ⟨d, hd, h0⟩ := getLast_digits (b := b) hq
        exact ⟨d, by rw [List.getLast?_cons, hd]; rfl, h0⟩
    | cons y ds =>
      have hrest : ∃ d, (scale b m ((x * m + carry) / b) (y :: ds)).getLast? = some d ∧ d ≠ 0 :=
        ih (by simpa using hlast)
      obtain ⟨d, hd, h0⟩ := hrest
      rw [scale, List.getLast?_cons, hd]
      exact ⟨d, rfl, h0⟩

theorem Canonical.scale {b m carry : Nat} {ds : List Nat} (h : Canonical b ds) (hb : 1 < b)
    (hm : 0 < m) : Canonical b (scale b m carry ds) where
  digit _ hd := lt_of_mem_scale hb hd
  leading hne := by
    by_cases hds : ds = [0]
    · subst hds
      simp only [Numeral.scale, Nat.zero_mul, Nat.zero_add] at hne ⊢
      by_cases hq : carry / b = 0
      · have hlt : carry < b := (Nat.div_eq_zero_iff_lt (by omega)).mp hq
        rw [hq, Nat.digits_zero, Nat.mod_eq_of_lt hlt] at hne ⊢
        exact ⟨_, rfl, by simpa using hne⟩
      · obtain ⟨d, hd, h0⟩ := getLast_digits (b := b) hq
        exact ⟨d, by rw [List.getLast?_cons, hd]; rfl, h0⟩
    · exact getLast_scale hb hm (h.leading hds)

/-- A number other than zero has digits behind its last one. -/
theorem ofDigits_pos {b : Nat} {ds : List Nat} (hb : 0 < b)
    (hlast : ∃ d, ds.getLast? = some d ∧ d ≠ 0) : 0 < Nat.ofDigits b ds := by
  induction ds with
  | nil => simp at hlast
  | cons x ds ih =>
    rw [Nat.ofDigits_cons]
    cases ds with
    | nil =>
      have hx : x ≠ 0 := by simpa using hlast
      exact Nat.add_pos_left (Nat.pos_of_ne_zero hx) _
    | cons y ds =>
      have hrest := ih (by simpa using hlast)
      exact Nat.add_pos_right _ (Nat.mul_pos hb hrest)

/-- The printed digits are the numeral of the number they stand for. -/
theorem Canonical.toDigits_ofDigits {b : Nat} {ds : List Nat} (h : Canonical b ds) (hb : 1 < b) :
    Nat.toDigits b (Nat.ofDigits b ds) = ds.reverse.map Nat.digitChar := by
  induction ds with
  | nil => exact absurd rfl h.ne_nil
  | cons x ds ih =>
    have hx := h.digit x List.mem_cons_self
    cases ds with
    | nil => simpa using Nat.toDigits_of_lt_base hx
    | cons y ds =>
      have hlast : ∃ d, (y :: ds).getLast? = some d ∧ d ≠ 0 := by
        simpa using h.leading (by simp)
      have hpos := ofDigits_pos (b := b) (by omega) hlast
      have hrest : Canonical b (y :: ds) :=
        ⟨fun d hd => h.digit d (List.mem_cons_of_mem _ hd), fun _ => hlast⟩
      have hge : b ≤ x + b * Nat.ofDigits b (y :: ds) :=
        (Nat.le_mul_of_pos_right b hpos).trans (Nat.le_add_left _ _)
      have hdiv : (x + b * Nat.ofDigits b (y :: ds)) / b = Nat.ofDigits b (y :: ds) := by
        rw [Nat.add_mul_div_left _ _ (by omega), Nat.div_eq_of_lt hx, Nat.zero_add]
      have hmod : (x + b * Nat.ofDigits b (y :: ds)) % b = x := by
        rw [Nat.add_mul_mod_self_left, Nat.mod_eq_of_lt hx]
      rw [Nat.ofDigits_cons, Nat.toDigits_of_base_le hb hge, hdiv, hmod, ih hrest]
      simp

section Octets

/-- The number that the octets encode. -/
def bigEndian (bytes : List UInt8) : Nat :=
  bytes.foldl (fun n byte => n * 256 + byte.toNat) 0

/-- The fewest octets of a number; none for zero. -/
def octets (n : Nat) : List UInt8 :=
  (Nat.digits 256 n).reverse.map UInt8.ofNat

theorem length_octets_le_iff (n k : Nat) : (octets n).length ≤ k ↔ n < 256 ^ k := by
  rw [octets, List.length_map, List.length_reverse]
  exact Nat.digits_length_le_iff (by omega) n

theorem bigEndian_concat (bytes : List UInt8) (byte : UInt8) :
    bigEndian (bytes ++ [byte]) = bigEndian bytes * 256 + byte.toNat := by
  simp [bigEndian]

theorem bigEndian_map_reverse {ds : List Nat} (h : ∀ d ∈ ds, d < 256) :
    bigEndian (ds.reverse.map UInt8.ofNat) = Nat.ofDigits 256 ds := by
  induction ds with
  | nil => rfl
  | cons d ds ih =>
    have hd : (UInt8.ofNat d).toNat = d :=
      UInt8.toNat_ofNat_of_lt' (h d List.mem_cons_self)
    rw [List.reverse_cons, List.map_append, List.map_singleton, bigEndian_concat, hd,
      ih (fun x hx => h x (List.mem_cons_of_mem _ hx)), Nat.ofDigits_cons]
    omega

theorem bigEndian_octets (n : Nat) : bigEndian (octets n) = n := by
  rw [octets, bigEndian_map_reverse (fun d hd => Nat.digits_lt_base (by omega) hd),
    Nat.ofDigits_digits]

theorem bigEndian_lt (bytes : List UInt8) : bigEndian bytes < 256 ^ bytes.length := by
  induction bytes using List.reverseRecOn with
  | nil => simp [bigEndian]
  | append_singleton bytes byte ih =>
    have hbyte := byte.toNat_lt
    rw [bigEndian_concat, List.length_append, List.length_singleton, Nat.pow_succ]
    omega

end Octets

end Numeral

end PangeaOperator
