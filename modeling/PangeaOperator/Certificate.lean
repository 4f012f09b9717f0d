import Mathlib.Control.Lawful
import PangeaOperator.Lib.SipHash
import PangeaOperator.Lib.Tlv

/-!
# Reading a certificate

`der_tlv` and the readers over it in `roles-anywhere/src/lib.rs`: the serial number of a certificate
and the end of its validity, out of bytes that anyone may have sent. Against them stands a
certificate by its fields, with the encoding that the readers are to invert.
-/

namespace PangeaOperator

open SipHash Tlv

namespace Certificate

/-- A slice beyond the end of its bytes. -/
inductive Panic
  | outOfBounds
  deriving DecidableEq, Repr

abbrev Reading := OptionT (Except Panic)

section Reader

def splitFirst : List UInt8 → Reading (UInt8 × List UInt8)
  | [] => failure
  | byte :: rest => pure (byte, rest)

/-- `&bytes[..n]` -/
def sliceTo (bytes : List UInt8) (n : Nat) : Reading (List UInt8) :=
  if n ≤ bytes.length then pure (bytes.take n) else throwThe Panic .outOfBounds

/-- `&bytes[n..]` -/
def sliceFrom (bytes : List UInt8) (n : Nat) : Reading (List UInt8) :=
  if n ≤ bytes.length then pure (bytes.drop n) else throwThe Panic .outOfBounds

/-- A `usize` has 64 bits. -/
def lengthStep (acc : UInt64) (byte : UInt8) : UInt64 := acc <<< 8 ||| byte.toUInt64

/-- The length, from its first octet and what follows that, and the bytes behind it. -/
def derLength (first : UInt8) (rest : List UInt8) : Reading (UInt64 × List UInt8) :=
  if first < 0x80 then pure (first.toUInt64, rest)
  else
    let n := (first &&& 0x7f).toNat
    if n = 0 ∨ 4 < n ∨ rest.length < n then failure
    else do
      let octets ← sliceTo rest n
      let rest ← sliceFrom rest n
      pure (octets.foldl lengthStep 0, rest)

def derTlv (input : List UInt8) : Reading (UInt8 × List UInt8 × List UInt8) := do
  let (tag, rest) ← splitFirst input
  let (first, rest) ← splitFirst rest
  let (len, rest) ← derLength first rest
  if rest.length < len.toNat then failure
  else do
    let value ← sliceTo rest len.toNat
    let rest ← sliceFrom rest len.toNat
    pure (tag, value, rest)

def certificateSerial (der : List UInt8) : Reading (List UInt8) := do
  let (tag, cert, _) ← derTlv der
  guard (tag = 0x30)
  let (tag, tbs, _) ← derTlv cert
  guard (tag = 0x30)
  let (tag, value, rest) ← derTlv tbs
  let (tag, value, _) ← (if tag = 0xa0 then derTlv rest else pure (tag, value, rest))
  guard (tag = 0x02)
  pure value

/-- `text.get(..n)`: nothing beyond the end of the text or inside a character. -/
def getTo : List Char → Nat → Option (List Char)
  | [], n => if n = 0 then some [] else none
  | c :: cs, n =>
    if n = 0 then some []
    else if c.utf8Size ≤ n then (getTo cs (n - c.utf8Size)).map (c :: ·) else none

def parseU32 (cs : List Char) : Option Nat :=
  (parseU64 cs).filter (· < UInt32.size)

/-- `parseFromStr` reads a text by a format, and gives the seconds since the start of 1970. -/
def derTimeUnix (parseFromStr : String → String → Option Int) (tag : UInt8) (value : List UInt8) :
    Option Int := do
  let text ← String.fromUTF8? ⟨value.toArray⟩
  let full ←
    if tag = 0x17 then do
      let yy ← (getTo text.toList 2).bind parseU32
      some ((if 50 ≤ yy then "19" else "20") ++ text)
    else if tag = 0x18 then some text
    else none
  parseFromStr full "%Y%m%d%H%M%SZ"

def certificateNotAfter (parseFromStr : String → String → Option Int) (der : List UInt8) :
    Reading Int := do
  let (tag, cert, _) ← derTlv der
  guard (tag = 0x30)
  let (tag, tbs, _) ← derTlv cert
  guard (tag = 0x30)
  let (tag, _, rest) ← derTlv tbs
  let rest ← (if tag = 0xa0 then (fun field => field.2.2) <$> derTlv rest else pure rest)
  let (_, _, rest) ← derTlv rest
  let (_, _, rest) ← derTlv rest
  let (tag, validity, _) ← derTlv rest
  guard (tag = 0x30)
  let (_, _, after) ← derTlv validity
  let (tag, value, _) ← derTlv after
  OptionT.mk (pure (derTimeUnix parseFromStr tag value))

end Reader

section Bounds

variable {α β : Type}

/-- No slice on the way is out of bounds. -/
def InBounds (reading : Reading α) : Prop := ∃ r, reading.run = .ok r

theorem inBounds_pure (a : α) : InBounds (pure a) := ⟨some a, rfl⟩

theorem inBounds_failure : InBounds (failure : Reading α) := ⟨none, rfl⟩

theorem InBounds.bind {reading : Reading α} {f : α → Reading β} (h : InBounds reading)
    (hf : ∀ a, InBounds (f a)) : InBounds (reading >>= f) := by
  obtain ⟨r, hr⟩ := h
  cases r with
  | none =>
    refine ⟨none, ?_⟩
    rw [OptionT.run_bind, hr]
    rfl
  | some a =>
    obtain ⟨s, hs⟩ := hf a
    refine ⟨s, ?_⟩
    rw [OptionT.run_bind, hr]
    exact hs

theorem InBounds.map {reading : Reading α} (h : InBounds reading) (f : α → β) :
    InBounds (f <$> reading) := by
  rw [← bind_pure_comp]
  exact h.bind fun a => inBounds_pure (f a)

theorem inBounds_guard (p : Prop) [Decidable p] : InBounds (guard p) := by
  by_cases h : p
  · rw [guard, if_pos h]
    exact inBounds_pure ()
  · rw [guard, if_neg h]
    exact inBounds_failure

theorem inBounds_splitFirst (bytes : List UInt8) : InBounds (splitFirst bytes) := by
  cases bytes with
  | nil => exact inBounds_failure
  | cons byte rest => exact inBounds_pure (byte, rest)

theorem sliceTo_eq {bytes : List UInt8} {n : Nat} (h : n ≤ bytes.length) :
    sliceTo bytes n = pure (bytes.take n) := if_pos h

theorem sliceFrom_eq {bytes : List UInt8} {n : Nat} (h : n ≤ bytes.length) :
    sliceFrom bytes n = pure (bytes.drop n) := if_pos h

theorem inBounds_derLength (first : UInt8) (rest : List UInt8) :
    InBounds (derLength first rest) := by
  unfold derLength
  split
  · exact inBounds_pure _
  · dsimp only
    split
    · exact inBounds_failure
    · next h =>
      have hn : (first &&& 0x7f).toNat ≤ rest.length := by omega
      rw [sliceTo_eq hn, sliceFrom_eq hn, pure_bind, pure_bind]
      exact inBounds_pure _

theorem inBounds_derTlv (input : List UInt8) : InBounds (derTlv input) := by
  apply (inBounds_splitFirst input).bind
  rintro ⟨tag, rest⟩
  apply (inBounds_splitFirst rest).bind
  rintro ⟨first, rest⟩
  apply (inBounds_derLength first rest).bind
  rintro ⟨len, rest⟩
  dsimp only
  split
  · exact inBounds_failure
  · next h =>
    rw [sliceTo_eq (not_lt.mp h), sliceFrom_eq (not_lt.mp h), pure_bind, pure_bind]
    exact inBounds_pure _

theorem inBounds_certificateSerial (der : List UInt8) : InBounds (certificateSerial der) := by
  apply (inBounds_derTlv der).bind
  rintro ⟨tag, cert, -⟩
  apply (inBounds_guard _).bind
  intro _
  apply (inBounds_derTlv cert).bind
  rintro ⟨tag, tbs, -⟩
  apply (inBounds_guard _).bind
  intro _
  apply (inBounds_derTlv tbs).bind
  rintro ⟨tag, value, rest⟩
  apply InBounds.bind
  · split
    · exact inBounds_derTlv rest
    · exact inBounds_pure _
  · rintro ⟨tag, value, -⟩
    exact (inBounds_guard _).bind fun _ => inBounds_pure _

theorem inBounds_certificateNotAfter (parseFromStr : String → String → Option Int)
    (der : List UInt8) : InBounds (certificateNotAfter parseFromStr der) := by
  apply (inBounds_derTlv der).bind
  rintro ⟨tag, cert, -⟩
  apply (inBounds_guard _).bind
  intro _
  apply (inBounds_derTlv cert).bind
  rintro ⟨tag, tbs, -⟩
  apply (inBounds_guard _).bind
  intro _
  apply (inBounds_derTlv tbs).bind
  rintro ⟨tag, -, rest⟩
  apply InBounds.bind
  · split
    · exact (inBounds_derTlv rest).map _
    · exact inBounds_pure _
  · intro rest
    apply (inBounds_derTlv rest).bind
    rintro ⟨-, -, rest⟩
    apply (inBounds_derTlv rest).bind
    rintro ⟨-, -, rest⟩
    apply (inBounds_derTlv rest).bind
    rintro ⟨tag, validity, -⟩
    apply (inBounds_guard _).bind
    intro _
    apply (inBounds_derTlv validity).bind
    rintro ⟨-, -, after⟩
    apply (inBounds_derTlv after).bind
    rintro ⟨tag, value, -⟩
    exact ⟨derTimeUnix parseFromStr tag value, rfl⟩

end Bounds

section Fields

theorem lengthStep_toNat {acc : UInt64} (byte : UInt8) (h : acc.toNat < 2 ^ 56) :
    (lengthStep acc byte).toNat = acc.toNat * 256 + byte.toNat := by
  have hbyte := byte.toNat_lt
  have hshift : (acc <<< 8).toNat = acc.toNat <<< 8 := by
    rw [UInt64.toNat_shiftLeft, show (8 : UInt64).toNat % 64 = 8 from rfl, Nat.shiftLeft_eq]
    omega
  rw [lengthStep, UInt64.toNat_or, hshift, UInt8.toNat_toUInt64,
    ← Nat.shiftLeft_add_eq_or_of_lt (by omega), Nat.shiftLeft_eq]

theorem foldl_lengthStep {bytes : List UInt8} (h : bytes.length ≤ 8) :
    (bytes.foldl lengthStep 0).toNat = Numeral.bigEndian bytes := by
  induction bytes using List.reverseRecOn with
  | nil => rfl
  | append_singleton bytes byte ih =>
    rw [List.length_append, List.length_singleton] at h
    have hacc := ih (by omega)
    have hlt : (bytes.foldl lengthStep 0).toNat < 2 ^ 56 := by
      rw [hacc]
      calc
        Numeral.bigEndian bytes < 256 ^ bytes.length := Numeral.bigEndian_lt bytes
        _ ≤ 256 ^ 7 := Nat.pow_le_pow_right (by omega) (by omega)
        _ = 2 ^ 56 := by norm_num
    rw [List.foldl_append, List.foldl_cons, List.foldl_nil, lengthStep_toNat byte hlt, hacc,
      Numeral.bigEndian_concat]

theorem sliceTo_append (a b : List UInt8) : sliceTo (a ++ b) a.length = pure a := by
  rw [sliceTo_eq (by simp), List.take_left]

theorem sliceFrom_append (a b : List UInt8) : sliceFrom (a ++ b) a.length = pure b := by
  rw [sliceFrom_eq (by simp), List.drop_left]

/-- The first octet of a long form, of which the lower seven bits count the octets behind it. -/
theorem longForm_first : ∀ n, 1 ≤ n ∧ n ≤ 4 →
    ¬ UInt8.ofNat (128 + n) < 0x80 ∧ (UInt8.ofNat (128 + n) &&& 0x7f).toNat = n := by
  rintro n ⟨h1, h4⟩
  interval_cases n <;> decide

theorem derLength_isLength {bytes : List UInt8} {n : Nat} (h : IsLength bytes n)
    (rest : List UInt8) : ∃ first more len, bytes = first :: more ∧
      derLength first (more ++ rest) = pure (len, rest) ∧ len.toNat = n := by
  cases h with
  | short n h =>
    have hn : (UInt8.ofNat n).toNat = n := UInt8.toNat_ofNat_of_lt' (by
      rw [show UInt8.size = 256 from rfl]
      omega)
    have hlt : UInt8.ofNat n < 0x80 := by
      rw [UInt8.lt_iff_toNat_lt, hn]
      exact h
    refine ⟨_, [], (UInt8.ofNat n).toUInt64, rfl, if_pos hlt, ?_⟩
    rw [UInt8.toNat_toUInt64, hn]
  | long bytes h =>
    obtain ⟨hlong, hcount⟩ := longForm_first bytes.length h
    refine ⟨_, bytes, bytes.foldl lengthStep 0, rfl, ?_, foldl_lengthStep (by omega)⟩
    have hpresent : ¬ (bytes.length = 0 ∨ 4 < bytes.length ∨
        (bytes ++ rest).length < bytes.length) := by
      rw [List.length_append]
      omega
    unfold derLength
    rw [if_neg hlong]
    simp only [hcount, if_neg hpresent, sliceTo_append, sliceFrom_append, pure_bind]

theorem derTlv_isLength {bytes content : List UInt8} (h : IsLength bytes content.length)
    (tag : UInt8) (rest : List UInt8) :
    derTlv (tag :: (bytes ++ content) ++ rest) = pure (tag, content, rest) := by
  obtain ⟨first, more, len, rfl, hlen, hcontent⟩ := derLength_isLength h (content ++ rest)
  have hfits : ¬ (content ++ rest).length < content.length := by
    rw [List.length_append]
    omega
  simp only [derTlv, splitFirst, List.cons_append, List.append_assoc, pure_bind, hlen, hcontent,
    if_neg hfits, sliceTo_append, sliceFrom_append]

theorem derTlv_encode {content : List UInt8} (h : content.length < 2 ^ 32) (tag : UInt8)
    (rest : List UInt8) : derTlv (encode tag content ++ rest) = pure (tag, content, rest) :=
  derTlv_isLength (isLength_lengthOctets h) tag rest

end Fields

section Times

def daysInMonth (year month : Nat) : Nat :=
  if month = 2 then (if 4 ∣ year ∧ (¬ 100 ∣ year ∨ 400 ∣ year) then 29 else 28)
  else if month = 4 ∨ month = 6 ∨ month = 9 ∨ month = 11 then 30
  else 31

/-- The days from the start of year 0 to the start of a year. -/
def daysBefore (year : Nat) : Nat :=
  365 * year + (year + 3) / 4 + (year + 399) / 400 - (year + 99) / 100

/-- Seconds since the start of 1970, which is day 719528 from the start of year 0. -/
def unixSeconds (year month day hour minute second : Nat) : Int :=
  let inYear := ((List.range (month - 1)).map fun m => daysInMonth year (m + 1)).sum + (day - 1)
  (((daysBefore year + inYear : Nat) - 719528 : Int) * 24 + hour) * 3600 + minute * 60 + second

example : unixSeconds 2027 1 27 23 15 48 = 1801091748 := by decide +kernel

example : unixSeconds 1950 1 1 0 0 0 = -631152000 := by decide +kernel

/-- A time of the calendar, in a year of four digits. -/
structure CalendarTime where
  year : Nat
  month : Nat
  day : Nat
  hour : Nat
  minute : Nat
  second : Nat
  year_lt : year < 10000
  month_mem : 1 ≤ month ∧ month ≤ 12
  day_mem : 1 ≤ day ∧ day ≤ daysInMonth year month
  hour_lt : hour < 24
  minute_lt : minute < 60
  second_lt : second < 60

def twoDigits (n : Nat) : List Char := [Nat.digitChar (n / 10), Nat.digitChar (n % 10)]

namespace CalendarTime

variable (t : CalendarTime)

def unix : Int := unixSeconds t.year t.month t.day t.hour t.minute t.second

/-- `MMDDhhmmssZ` -/
def afterYear : List Char :=
  twoDigits t.month ++ twoDigits t.day ++ twoDigits t.hour ++ twoDigits t.minute ++
    twoDigits t.second ++ ['Z']

/-- `YYMMDDhhmmssZ` -/
def shortText : List Char := twoDigits (t.year % 100) ++ t.afterYear

/-- `YYYYMMDDhhmmssZ` -/
def longText : List Char := twoDigits (t.year / 100) ++ t.shortText

end CalendarTime

/-- What the reader of times does by its documentation: it reads the text of a time by the format
of that text. -/
def ReadsTimes (parseFromStr : String → String → Option Int) : Prop :=
  ∀ t : CalendarTime, parseFromStr (String.ofList t.longText) "%Y%m%d%H%M%SZ" = some t.unix

/-- The end of a validity. A year of two digits stands for one from 1950 to 2049. -/
inductive NotAfter
  | utcTime (t : CalendarTime) (h : 1950 ≤ t.year ∧ t.year < 2050)
  | generalizedTime (t : CalendarTime)

namespace NotAfter

def time : NotAfter → CalendarTime
  | utcTime t _ => t
  | generalizedTime t => t

def tag : NotAfter → UInt8
  | utcTime _ _ => 0x17
  | generalizedTime _ => 0x18

def value : NotAfter → List UInt8
  | utcTime t _ => utf8 (String.ofList t.shortText)
  | generalizedTime t => utf8 (String.ofList t.longText)

end NotAfter

theorem fromUTF8_utf8 (s : String) : String.fromUTF8? ⟨(utf8 s).toArray⟩ = some s := by
  have hbytes : (⟨(utf8 s).toArray⟩ : ByteArray) = s.toByteArray := rfl
  rw [hbytes, String.fromUTF8?, dif_pos s.isValidUTF8]
  rfl

theorem parseU32_twoDigits {n : Nat} (h : n < 100) : parseU32 (twoDigits n) = some n := by
  have hall : ∀ n < 100, parseU32 (twoDigits n) = some n := by decide +kernel
  exact hall n h

theorem utf8Size_digitChar {d : Nat} (h : d < 10) : (Nat.digitChar d).utf8Size = 1 := by
  interval_cases d <;> rfl

theorem getTo_twoDigits {n : Nat} (h : n < 100) (cs : List Char) :
    getTo (twoDigits n ++ cs) 2 = some (twoDigits n) := by
  have h1 := utf8Size_digitChar (d := n / 10) (by omega)
  have h2 := utf8Size_digitChar (d := n % 10) (Nat.mod_lt _ (by omega))
  have hnil : getTo cs 0 = some [] := by cases cs <;> rfl
  simp [twoDigits, getTo, h1, h2, hnil]

/-- The century that is put before two digits is the one they were cut from. -/
theorem century {y : Nat} (h : 1950 ≤ y ∧ y < 2050) :
    (if 50 ≤ y % 100 then "19" else "20") = String.ofList (twoDigits (y / 100)) := by
  split
  · have hy : y / 100 = 19 := by omega
    rw [hy]
    rfl
  · have hy : y / 100 = 20 := by omega
    rw [hy]
    rfl

theorem derTimeUnix_notAfter {parseFromStr : String → String → Option Int}
    (hparse : ReadsTimes parseFromStr) (notAfter : NotAfter) :
    derTimeUnix parseFromStr notAfter.tag notAfter.value = some notAfter.time.unix := by
  cases notAfter with
  | utcTime t h =>
    have hyear : t.year % 100 < 100 := Nat.mod_lt _ (by omega)
    have hhead : getTo t.shortText 2 = some (twoDigits (t.year % 100)) :=
      getTo_twoDigits hyear t.afterYear
    have htag : NotAfter.tag (.utcTime t h) = 0x17 := rfl
    rw [derTimeUnix, NotAfter.value, fromUTF8_utf8, htag]
    simp only [Option.bind_eq_bind, Option.bind_some, if_true, String.toList_ofList, hhead,
      parseU32_twoDigits hyear, century h, ← String.ofList_append]
    exact hparse t
  | generalizedTime t =>
    have htag : NotAfter.tag (.generalizedTime t) = 0x18 := rfl
    rw [derTimeUnix, NotAfter.value, fromUTF8_utf8, htag]
    exact hparse t

end Times

section Encoding

/-- A field that the readers pass over. -/
structure Element where
  tag : UInt8
  content : List UInt8

def Element.encode (e : Element) : List UInt8 := Tlv.encode e.tag e.content

/-- `version` is the content of the explicit first field, and `subjectOn` all that follows the
validity. -/
structure TbsCertificate where
  version : Option (List UInt8)
  serial : List UInt8
  signature : Element
  issuer : Element
  notBefore : Element
  notAfter : NotAfter
  subjectOn : List UInt8

namespace TbsCertificate

variable (tbs : TbsCertificate)

def validity : List UInt8 :=
  tbs.notBefore.encode ++ Tlv.encode tbs.notAfter.tag tbs.notAfter.value

def afterSerial : List UInt8 :=
  tbs.signature.encode ++
    (tbs.issuer.encode ++ (Tlv.encode 0x30 tbs.validity ++ tbs.subjectOn))

def content : List UInt8 :=
  (tbs.version.elim [] (Tlv.encode 0xa0)) ++ (Tlv.encode 0x02 tbs.serial ++ tbs.afterSerial)

end TbsCertificate

/-- `signatureOn` is what follows the part that is signed. The length of the whole fits in four
octets. -/
structure SignedCertificate where
  tbs : TbsCertificate
  signatureOn : List UInt8
  fits : (Tlv.encode 0x30 tbs.content ++ signatureOn).length < 2 ^ 32

def SignedCertificate.encode (cert : SignedCertificate) : List UInt8 :=
  Tlv.encode 0x30 (Tlv.encode 0x30 cert.tbs.content ++ cert.signatureOn)

/-- No field is longer than what it is a part of. -/
structure TbsCertificate.Fits (tbs : TbsCertificate) : Prop where
  version : ∀ v, tbs.version = some v → v.length < 2 ^ 32
  serial : tbs.serial.length < 2 ^ 32
  signature : tbs.signature.content.length < 2 ^ 32
  issuer : tbs.issuer.content.length < 2 ^ 32
  validity : tbs.validity.length < 2 ^ 32
  notBefore : tbs.notBefore.content.length < 2 ^ 32
  notAfter : tbs.notAfter.value.length < 2 ^ 32

theorem TbsCertificate.fits {tbs : TbsCertificate} (h : tbs.content.length < 2 ^ 32) :
    tbs.Fits := by
  have hserial := length_le_encode 0x02 tbs.serial
  have hsignature := length_le_encode tbs.signature.tag tbs.signature.content
  have hissuer := length_le_encode tbs.issuer.tag tbs.issuer.content
  have hvalidity := length_le_encode 0x30 tbs.validity
  have hbefore := length_le_encode tbs.notBefore.tag tbs.notBefore.content
  have hafter := length_le_encode tbs.notAfter.tag tbs.notAfter.value
  have hparts : tbs.validity.length = tbs.notBefore.encode.length +
      (Tlv.encode tbs.notAfter.tag tbs.notAfter.value).length := List.length_append
  simp only [content, afterSerial, List.length_append] at h
  simp only [Element.encode] at h hparts
  refine ⟨?_, by omega, by omega, by omega, by omega, by omega, by omega⟩
  intro v hv
  have hversion := length_le_encode 0xa0 v
  rw [hv, Option.elim_some] at h
  omega

theorem SignedCertificate.tbs_fits (cert : SignedCertificate) :
    cert.tbs.content.length < 2 ^ 32 := by
  have hlen := length_le_encode 0x30 cert.tbs.content
  have hfits := cert.fits
  rw [List.length_append] at hfits
  omega

variable (cert : SignedCertificate) (rest : List UInt8)

theorem certificateSerial_encode : certificateSerial (cert.encode ++ rest) =
    pure cert.tbs.serial := by
  have htbs := cert.tbs_fits
  have hfields := TbsCertificate.fits htbs
  have hserial := derTlv_encode hfields.serial 0x02 cert.tbs.afterSerial
  simp only [certificateSerial, SignedCertificate.encode, derTlv_encode cert.fits,
    derTlv_encode htbs, pure_bind, guard_true]
  rw [TbsCertificate.content]
  cases hversion : cert.tbs.version with
  | none =>
    simp only [Option.elim_none, List.nil_append, hserial, pure_bind]
    rfl
  | some v =>
    simp only [Option.elim_some, derTlv_encode (hfields.version v hversion), pure_bind, if_true,
      hserial]
    rfl

/-- The version, where it is present, the serial number, the signature algorithm and the issuer are
passed over. -/
theorem certificateNotAfter_encode {parseFromStr : String → String → Option Int}
    (hparse : ReadsTimes parseFromStr) :
    certificateNotAfter parseFromStr (cert.encode ++ rest) = pure cert.tbs.notAfter.time.unix := by
  have htbs := cert.tbs_fits
  have hfields := TbsCertificate.fits htbs
  have hserial := derTlv_encode hfields.serial 0x02 cert.tbs.afterSerial
  have hafter := derTlv_encode hfields.notAfter cert.tbs.notAfter.tag []
  rw [List.append_nil] at hafter
  have hbehind : (do
      let (_, _, rest) ← derTlv cert.tbs.afterSerial
      let (_, _, rest) ← derTlv rest
      let (tag, validity, _) ← derTlv rest
      guard (tag = 0x30)
      let (_, _, after) ← derTlv validity
      let (tag, value, _) ← derTlv after
      OptionT.mk (pure (derTimeUnix parseFromStr tag value)) : Reading Int) =
        pure cert.tbs.notAfter.time.unix := by
    simp only [TbsCertificate.afterSerial, Element.encode, derTlv_encode hfields.signature,
      derTlv_encode hfields.issuer, derTlv_encode hfields.validity, pure_bind, guard_true]
    simp only [TbsCertificate.validity, Element.encode, derTlv_encode hfields.notBefore,
      pure_bind, hafter, derTimeUnix_notAfter hparse]
    rfl
  simp only [certificateNotAfter, SignedCertificate.encode, derTlv_encode cert.fits,
    derTlv_encode htbs, pure_bind, guard_true]
  rw [TbsCertificate.content]
  cases hversion : cert.tbs.version with
  | none =>
    simp only [Option.elim_none, List.nil_append, hserial, pure_bind]
    exact hbehind
  | some v =>
    simp only [Option.elim_some, derTlv_encode (hfields.version v hversion), pure_bind, if_true,
      hserial, map_pure]
    exact hbehind

end Encoding

/-- The readers give back what was encoded, and no bytes make them slice out of bounds. -/
theorem certificate_read {parseFromStr : String → String → Option Int}
    (hparse : ReadsTimes parseFromStr) :
    (∀ (tag : UInt8) (content rest : List UInt8), content.length < 2 ^ 32 →
      derTlv (Tlv.encode tag content ++ rest) = pure (tag, content, rest)) ∧
    (∀ (cert : SignedCertificate) (rest : List UInt8),
      certificateSerial (cert.encode ++ rest) = pure cert.tbs.serial ∧
      certificateNotAfter parseFromStr (cert.encode ++ rest) =
        pure cert.tbs.notAfter.time.unix) ∧
    (∀ bytes, InBounds (derTlv bytes) ∧ InBounds (certificateSerial bytes) ∧
      ∀ parse, InBounds (certificateNotAfter parse bytes)) :=
  ⟨fun tag _ rest h => derTlv_encode h tag rest,
    fun cert rest =>
      ⟨certificateSerial_encode cert rest, certificateNotAfter_encode cert rest hparse⟩,
    fun bytes => ⟨inBounds_derTlv bytes, inBounds_certificateSerial bytes,
      fun parse => inBounds_certificateNotAfter parse bytes⟩⟩

/-- A reader of times of fourteen digits. -/
def readTime (text format : String) : Option Int :=
  match text.toList with
  | [c1, c2, y1, y2, o1, o2, d1, d2, h1, h2, m1, m2, s1, s2, 'Z'] => do
    let century ← parseU32 [c1, c2]
    let year ← parseU32 [y1, y2]
    let month ← parseU32 [o1, o2]
    let day ← parseU32 [d1, d2]
    let hour ← parseU32 [h1, h2]
    let minute ← parseU32 [m1, m2]
    let second ← parseU32 [s1, s2]
    if format = "%Y%m%d%H%M%SZ" then
      some (unixSeconds (century * 100 + year) month day hour minute second)
    else none
  | _ => none

theorem readsTimes_readTime : ReadsTimes readTime := by
  intro t
  have hdays : t.day ≤ 31 := by
    have hday := t.day_mem.2
    unfold daysInMonth at hday
    split_ifs at hday <;> omega
  have hcentury := parseU32_twoDigits (n := t.year / 100) (by have := t.year_lt; omega)
  have hyear := parseU32_twoDigits (n := t.year % 100) (Nat.mod_lt _ (by omega))
  have hmonth := parseU32_twoDigits (n := t.month) (by have := t.month_mem; omega)
  have hday := parseU32_twoDigits (n := t.day) (by omega)
  have hhour := parseU32_twoDigits (n := t.hour) (by have := t.hour_lt; omega)
  have hminute := parseU32_twoDigits (n := t.minute) (by have := t.minute_lt; omega)
  have hsecond := parseU32_twoDigits (n := t.second) (by have := t.second_lt; omega)
  have hfull : t.year / 100 * 100 + t.year % 100 = t.year := by omega
  simp only [twoDigits] at hcentury hyear hmonth hday hhour hminute hsecond
  simp only [readTime, String.toList_ofList, CalendarTime.longText, CalendarTime.shortText,
    CalendarTime.afterYear, twoDigits, List.cons_append, List.nil_append, hcentury, hyear, hmonth,
    hday, hhour, hminute, hsecond, Option.bind_eq_bind, Option.bind_some, if_true, hfull]
  rfl

/-- A certificate with a version and a serial number of two octets, valid up to the end of January
27, 2027. -/
def sample : SignedCertificate where
  tbs :=
    { version := some [0x02, 0x01, 0x02]
      serial := [0x01, 0x00]
      signature := ⟨0x30, []⟩
      issuer := ⟨0x30, []⟩
      notBefore := ⟨0x17, [0x32, 0x36]⟩
      notAfter := .utcTime ⟨2027, 1, 27, 23, 15, 48, by decide, by decide, by decide, by decide,
        by decide, by decide⟩ (by decide)
      subjectOn := [0x30, 0x00] }
  signatureOn := [0x03, 0x01, 0x00]
  fits := by decide +kernel

theorem certificate_read_sample :
    derTlv [0x04, 0x01, 0xff, 0x00] = pure (0x04, [0xff], [0x00]) ∧
    certificateSerial sample.encode = pure [0x01, 0x00] ∧
    certificateNotAfter readTime sample.encode = pure 1801091748 := by
  have hread := certificate_read readsTimes_readTime
  have hcert := hread.2.1 sample []
  have hunix : sample.tbs.notAfter.time.unix = 1801091748 := by decide +kernel
  rw [List.append_nil, hunix] at hcert
  exact ⟨hread.1 0x04 [0xff] [0x00] (by norm_num), hcert⟩

end Certificate

end PangeaOperator
