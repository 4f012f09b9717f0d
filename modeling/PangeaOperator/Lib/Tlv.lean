import PangeaOperator.Lib.Numeral

/-!
# Tags, lengths and contents

The encoding of a tag of one octet and a content behind its length: in one octet below 128, else
in one octet that counts the octets of the length.
-/

namespace PangeaOperator

namespace Tlv

open Numeral

/-- The shortest length octets. -/
def lengthOctets (n : Nat) : List UInt8 :=
  if n < 128 then [UInt8.ofNat n] else UInt8.ofNat (128 + (octets n).length) :: octets n

def encode (tag : UInt8) (content : List UInt8) : List UInt8 :=
  tag :: (lengthOctets content.length ++ content)

/-- A length in the short form, or in the long form with one to four octets. -/
inductive IsLength : List UInt8 → Nat → Prop
  | short (n : Nat) (h : n < 128) : IsLength [UInt8.ofNat n] n
  | long (bytes : List UInt8) (h : 1 ≤ bytes.length ∧ bytes.length ≤ 4) :
      IsLength (UInt8.ofNat (128 + bytes.length) :: bytes) (bigEndian bytes)

theorem isLength_lengthOctets {n : Nat} (h : n < 2 ^ 32) : IsLength (lengthOctets n) n := by
  unfold lengthOctets
  split
  · exact .short n ‹_›
  · have hmost : (octets n).length ≤ 4 := (length_octets_le_iff n 4).mpr (by omega)
    have hsome : ¬ (octets n).length ≤ 0 := fun h0 => by
      have := (length_octets_le_iff n 0).mp h0
      omega
    have hlong := IsLength.long (octets n) ⟨by omega, hmost⟩
    rwa [bigEndian_octets] at hlong

theorem length_le_encode (tag : UInt8) (content : List UInt8) :
    content.length ≤ (encode tag content).length := by
  simp only [encode, List.length_cons, List.length_append]
  omega

end Tlv

end PangeaOperator
