import PangeaOperator.Lib.Numeral

/-!
# The serial number of a certificate

`big_endian_to_decimal` of `roles-anywhere/src/lib.rs`: the octets of a serial number as a decimal
numeral, one octet after the other into a vector of digits, least significant first.
-/

namespace PangeaOperator

namespace SerialNumber

/-- A `u32` result; none where it overflows. -/
def u32 (n : Nat) : Option UInt32 :=
  if n < UInt32.size then some (UInt32.ofNat n) else none

/-- A `u8` result; none where it overflows. -/
def u8 (n : Nat) : Option UInt8 :=
  if n < UInt8.size then some (UInt8.ofNat n) else none

def digitStep (d : UInt8) (carry : UInt32) : Option (UInt8 × UInt32) := do
  let product ← u32 (d.toUInt32.toNat * 256)
  let v ← u32 (product.toNat + carry.toNat)
  some ((v % 10).toUInt8, v / 10)

/-- The loop over the digits: the digits it leaves and the carry behind the last one. -/
def forDigits : UInt32 → List UInt8 → Option (List UInt8 × UInt32)
  | carry, [] => some ([], carry)
  | carry, d :: ds => do
    let (d, carry) ← digitStep d carry
    let (ds, carry) ← forDigits carry ds
    some (d :: ds, carry)

/-- The digits that the loop on the carry pushes. -/
def pushedDigits (carry : UInt32) : List UInt8 :=
  if carry = 0 then [] else (carry % 10).toUInt8 :: pushedDigits (carry / 10)
termination_by carry.toNat
decreasing_by
  rename_i h
  have hpos : carry.toNat ≠ 0 := fun h0 => h (UInt32.toNat_inj.mp h0)
  rw [UInt32.toNat_div, show (10 : UInt32).toNat = 10 from rfl]
  omega

def byteStep (digits : List UInt8) (byte : UInt8) : Option (List UInt8) := do
  let (digits, carry) ← forDigits byte.toUInt32 digits
  some (digits ++ pushedDigits carry)

/-- The vector of digits behind the last octet. -/
def decimalDigits (bytes : List UInt8) : Option (List UInt8) :=
  bytes.foldlM byteStep [0]

def digitChar (d : UInt8) : Option Char :=
  (u8 ('0'.toUInt8.toNat + d.toNat)).map (fun c => Char.ofNat c.toNat)

def bigEndianToDecimal (bytes : List UInt8) : Option String := do
  let digits ← decimalDigits bytes
  let chars ← digits.reverse.mapM digitChar
  some (String.ofList chars)

theorem u32_eq {n : Nat} (h : n < UInt32.size) : u32 n = some (UInt32.ofNat n) := if_pos h

/-- With a digit and a carry of one octet nothing overflows, and the next carry is below an octet
again. -/
theorem digitStep_eq {d : UInt8} {carry : UInt32} (hd : d.toNat < 10) (hc : carry.toNat < 256) :
    ∃ d' carry', digitStep d carry = some (d', carry') ∧
      d'.toNat = (d.toNat * 256 + carry.toNat) % 10 ∧
      carry'.toNat = (d.toNat * 256 + carry.toNat) / 10 ∧ carry'.toNat < 256 := by
  have hfits : d.toNat * 256 + carry.toNat < 4294967296 := by omega
  have hv : d.toNat * 256 + carry.toNat < UInt32.size := hfits
  have hp : d.toUInt32.toNat * 256 < UInt32.size := by
    rw [UInt8.toNat_toUInt32]
    exact lt_of_le_of_lt (Nat.le_add_right _ _) hv
  have hpn : (UInt32.ofNat (d.toUInt32.toNat * 256)).toNat = d.toNat * 256 := by
    rw [UInt32.toNat_ofNat_of_lt' hp, UInt8.toNat_toUInt32]
  have hstep : digitStep d carry =
      some ((UInt32.ofNat (d.toNat * 256 + carry.toNat) % 10).toUInt8,
        UInt32.ofNat (d.toNat * 256 + carry.toNat) / 10) := by
    simp only [digitStep, u32_eq hp, Option.bind_eq_bind, Option.bind_some, hpn, u32_eq hv]
  have hten : (10 : UInt32).toNat = 10 := rfl
  refine ⟨_, _, hstep, ?_, ?_, ?_⟩
  · rw [UInt32.toNat_toUInt8, UInt32.toNat_mod, UInt32.toNat_ofNat_of_lt' hv, hten]
    omega
  · rw [UInt32.toNat_div, UInt32.toNat_ofNat_of_lt' hv, hten]
  · rw [UInt32.toNat_div, UInt32.toNat_ofNat_of_lt' hv, hten]
    omega

theorem pushedDigits_toNat (carry : UInt32) :
    (pushedDigits carry).map UInt8.toNat = Nat.digits 10 carry.toNat := by
  induction carry using pushedDigits.induct with
  | case1 => simp [pushedDigits]
  | case2 carry h ih =>
    have hpos : 0 < carry.toNat :=
      Nat.pos_of_ne_zero (fun h0 => h (UInt32.toNat_inj.mp h0))
    have hten : (10 : UInt32).toNat = 10 := rfl
    have hdigit : (carry % 10).toUInt8.toNat = carry.toNat % 10 := by
      rw [UInt32.toNat_toUInt8, UInt32.toNat_mod, hten]
      omega
    rw [pushedDigits, if_neg h, List.map_cons, ih, hdigit, UInt32.toNat_div, hten,
      Nat.digits_def' (by omega) hpos]

/-- The loop over the digits and the loop on its carry scale the digits. -/
theorem forDigits_eq {ds : List UInt8} {carry : UInt32} (hds : ∀ d ∈ ds, d.toNat < 10)
    (hc : carry.toNat < 256) :
    ∃ ds' carry', forDigits carry ds = some (ds', carry') ∧
      (ds' ++ pushedDigits carry').map UInt8.toNat =
        Numeral.scale 10 256 carry.toNat (ds.map UInt8.toNat) := by
  induction ds generalizing carry with
  | nil => exact ⟨[], carry, rfl, pushedDigits_toNat carry⟩
  | cons d ds ih =>
    obtain ⟨d', carry', hstep, hd', hcarry, hlt⟩ := digitStep_eq (hds d List.mem_cons_self) hc
    obtain ⟨ds', last, hrest, hscale⟩ :=
      ih (fun x hx => hds x (List.mem_cons_of_mem _ hx)) hlt
    have hfor : forDigits carry (d :: ds) = some (d' :: ds', last) := by
      simp only [forDigits, hstep, hrest, Option.bind_eq_bind, Option.bind_some]
    refine ⟨d' :: ds', last, hfor, ?_⟩
    rw [List.cons_append, List.map_cons, hscale, hd', hcarry, List.map_cons, Numeral.scale]

theorem byteStep_eq {digits : List UInt8} (h : ∀ d ∈ digits, d.toNat < 10) (byte : UInt8) :
    ∃ digits', byteStep digits byte = some digits' ∧
      digits'.map UInt8.toNat =
        Numeral.scale 10 256 byte.toNat (digits.map UInt8.toNat) := by
  have hc : byte.toUInt32.toNat < 256 := by
    rw [UInt8.toNat_toUInt32]
    exact byte.toNat_lt
  obtain ⟨ds, carry, hfor, hscale⟩ := forDigits_eq h hc
  rw [UInt8.toNat_toUInt32] at hscale
  exact ⟨_, by simp only [byteStep, hfor, Option.bind_eq_bind, Option.bind_some], hscale⟩

/-- What the vector of digits is behind every octet. -/
structure Holds (digits : List UInt8) (n : Nat) : Prop where
  canonical : Numeral.Canonical 10 (digits.map UInt8.toNat)
  value : Nat.ofDigits 10 (digits.map UInt8.toNat) = n

theorem Holds.digit {digits : List UInt8} {n : Nat} (h : Holds digits n) :
    ∀ d ∈ digits, d.toNat < 10 :=
  fun d hd => h.canonical.digit d.toNat (List.mem_map_of_mem hd)

theorem Holds.byteStep {digits : List UInt8} {n : Nat} (h : Holds digits n) (byte : UInt8) :
    ∃ digits', byteStep digits byte = some digits' ∧ Holds digits' (n * 256 + byte.toNat) := by
  obtain ⟨digits', hstep, hscale⟩ := byteStep_eq h.digit byte
  refine ⟨digits', hstep, ?_, ?_⟩
  · rw [hscale]
    exact h.canonical.scale (by omega) (by omega)
  · rw [hscale, Numeral.ofDigits_scale, h.value]

theorem Holds.foldlM {digits : List UInt8} {n : Nat} (h : Holds digits n) (bytes : List UInt8) :
    ∃ digits', bytes.foldlM SerialNumber.byteStep digits = some digits' ∧
      Holds digits' (bytes.foldl (fun n byte => n * 256 + byte.toNat) n) := by
  induction bytes generalizing digits n with
  | nil => exact ⟨digits, rfl, h⟩
  | cons byte bytes ih =>
    obtain ⟨next, hstep, hnext⟩ := h.byteStep byte
    obtain ⟨last, hrest, hlast⟩ := ih hnext
    refine ⟨last, ?_, hlast⟩
    rw [List.foldlM_cons, hstep]
    exact hrest

theorem decimalDigits_holds (bytes : List UInt8) :
    ∃ digits, decimalDigits bytes = some digits ∧ Holds digits (Numeral.bigEndian bytes) :=
  Holds.foldlM ⟨Numeral.canonical_zero (by omega), rfl⟩ bytes

theorem digitChar_eq {d : UInt8} (hd : d.toNat < 10) :
    digitChar d = some (Nat.digitChar d.toNat) := by
  have hall : ∀ n < 10, digitChar (UInt8.ofNat n) = some (Nat.digitChar n) := by decide
  simpa using hall d.toNat hd

theorem mapM_digitChar {ds : List UInt8} (h : ∀ d ∈ ds, d.toNat < 10) :
    ds.mapM digitChar = some ((ds.map UInt8.toNat).map Nat.digitChar) := by
  induction ds with
  | nil => rfl
  | cons d ds ih =>
    rw [List.mapM_cons, digitChar_eq (h d List.mem_cons_self),
      ih (fun x hx => h x (List.mem_cons_of_mem _ hx))]
    rfl

/-- No operation on the way overflows, every digit is one, and what comes out is the decimal
numeral of the number that the octets encode. -/
theorem bigEndianToDecimal_eq (bytes : List UInt8) :
    ∃ digits, decimalDigits bytes = some digits ∧ (∀ d ∈ digits, d.toNat ≤ 9) ∧
      (digits ≠ [0] → digits.getLast? ≠ some 0) ∧
      bigEndianToDecimal bytes = some (toString (Numeral.bigEndian bytes)) := by
  obtain ⟨digits, hdigits, hholds⟩ := decimalDigits_holds bytes
  refine ⟨digits, hdigits, fun d hd => Nat.le_of_lt_succ (hholds.digit d hd), ?_, ?_⟩
  · intro hne hlast
    have hzero : digits.map UInt8.toNat ≠ [0] := by
      intro hmap
      obtain ⟨d, rfl, hd⟩ := List.map_eq_singleton_iff.mp hmap
      exact hne (by rw [UInt8.toNat_inj.mp (hd.trans rfl : d.toNat = (0 : UInt8).toNat)])
    obtain ⟨d, hd, h0⟩ := hholds.canonical.leading hzero
    rw [List.getLast?_map, hlast] at hd
    exact h0 (Option.some.inj hd).symm
  · have hrev : ∀ d ∈ digits.reverse, d.toNat < 10 :=
      fun d hd => hholds.digit d (List.mem_reverse.mp hd)
    have hchars := hholds.canonical.toDigits_ofDigits (by omega)
    rw [hholds.value, ← List.map_reverse] at hchars
    simp only [bigEndianToDecimal, hdigits, Option.bind_eq_bind, Option.bind_some,
      mapM_digitChar hrev, Nat.toString_eq_ofList_toDigits, hchars]

example : bigEndianToDecimal [0x01, 0x00] = some "256" := by decide +kernel

end SerialNumber

end PangeaOperator
