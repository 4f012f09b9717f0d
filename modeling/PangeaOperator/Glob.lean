import Mathlib
import PangeaOperator.Lib.Text
import PangeaOperator.Lib.Wildcard
import PangeaOperator.Policy

/-!
# Globs

`executor/policy.rs`, `glob_match`. The scan keeps a cursor in bytes, and a slice from a cursor
inside a character ends the program. It never does: the cursor stands behind what is matched so
far, and the scan is the one over the characters that are left.
-/

namespace PangeaOperator

open String (utf8Len)
open Wildcard

/-- `&input[cursor..]`; nothing where the cursor is inside a character or behind the end. -/
def sliceFrom : List Char → Nat → Option (List Char)
  | cs, 0 => some cs
  | [], _ + 1 => none
  | c :: cs, n + 1 => if n + 1 < c.utf8Size then none else sliceFrom cs (n + 1 - c.utf8Size)

/-- `str::find`, in bytes. -/
def findBytes (part : List Char) : List Char → Option Nat
  | [] => if part.isEmpty then some 0 else none
  | c :: cs =>
    if part.isPrefixOf (c :: cs) then some 0 else (findBytes part cs).map (· + c.utf8Size)

/-- The loop over the parts, from the part `i`; no result where a slice fails. -/
def globLoop (input : List Char) (last : Nat) : Nat → List (List Char) → Nat → Option Bool
  | _, [], _ => some true
  | i, part :: parts, cursor =>
    if part.isEmpty then globLoop input last (i + 1) parts cursor
    else if i = 0 then
      match sliceFrom input cursor with
      | none => none
      | some rest =>
        if !part.isPrefixOf rest then some false
        else globLoop input last (i + 1) parts (cursor + utf8Len part)
    else if i = last then
      if !part.isSuffixOf input then some false
      else if utf8Len input - utf8Len part < cursor then some false
      else globLoop input last (i + 1) parts cursor
    else
      match sliceFrom input cursor with
      | none => none
      | some rest =>
        match findBytes part rest with
        | some idx => globLoop input last (i + 1) parts (cursor + (idx + utf8Len part))
        | none => some false

def globMatchBytes (pattern input : String) : Option Bool :=
  if pattern = "*" then some true
  else if '*' ∉ pattern.toList then some (pattern = input)
  else
    let parts := pattern.toList.splitOn '*'
    globLoop input.toList (parts.length - 1) 0 parts 0

section Cursor

variable {part pre rest input : List Char} {parts : List (List Char)}

theorem sliceFrom_append (pre rest : List Char) :
    sliceFrom (pre ++ rest) (utf8Len pre) = some rest := by
  induction pre with
  | nil => cases rest <;> rfl
  | cons c pre ih =>
    have hsize := c.utf8Size_pos
    rw [String.utf8Len_cons, List.cons_append]
    obtain ⟨n, hn⟩ : ∃ n, utf8Len pre + c.utf8Size = n + 1 :=
      ⟨utf8Len pre + c.utf8Size - 1, by omega⟩
    rw [hn, sliceFrom, if_neg (by omega), ← hn, Nat.add_sub_cancel, ih]

/-- The search in bytes finds what the search in characters finds, and where. -/
theorem findBytes_eq_none_iff : findBytes part input = none ↔ afterFirst part input = none := by
  induction input with
  | nil =>
    rw [findBytes, afterFirst]
    split <;> simp
  | cons c cs ih =>
    rw [findBytes, afterFirst]
    split <;> simp [ih]

theorem findBytes_spec {idx : Nat} (h : findBytes part input = some idx) :
    ∃ pre rest, input = pre ++ part ++ rest ∧ utf8Len pre = idx ∧
      afterFirst part input = some rest := by
  induction input generalizing idx with
  | nil =>
    rw [findBytes] at h
    split at h
    · next hempty =>
      cases h
      exact ⟨[], [], by simpa using hempty, rfl, by rw [afterFirst, if_pos hempty]⟩
    · cases h
  | cons c cs ih =>
    rw [findBytes] at h
    split at h
    · next hstarts =>
      cases h
      obtain ⟨rest, hrest⟩ := List.isPrefixOf_iff_prefix.mp hstarts
      exact ⟨[], rest, hrest.symm, rfl, by rw [afterFirst, if_pos hstarts, ← hrest,
        List.drop_left]⟩
    · next hstarts =>
      obtain ⟨n, hn, rfl⟩ := Option.map_eq_some_iff.mp h
      obtain ⟨pre, rest, hsplit, hlen, hafter⟩ := ih hn
      refine ⟨c :: pre, rest, by rw [hsplit]; simp, ?_, by rw [afterFirst, if_neg hstarts, hafter]⟩
      rw [String.utf8Len_cons, hlen]

/-- A suffix of the text that does not reach back over what is matched is one of the rest. -/
theorem isSuffix_rest_iff : part <:+ rest ↔
    part <:+ pre ++ rest ∧ ¬utf8Len (pre ++ rest) - utf8Len part < utf8Len pre := by
  constructor
  · intro h
    refine ⟨h.trans (List.suffix_append pre rest), ?_⟩
    have hlen := String.utf8Len_le_of_suffix h
    rw [String.utf8Len_append]
    omega
  · rintro ⟨⟨s, hs⟩, hlen⟩
    have hbytes := congrArg utf8Len hs
    rw [String.utf8Len_append, String.utf8Len_append] at hbytes
    rw [String.utf8Len_append] at hlen
    rcases List.append_eq_append_iff.mp hs with ⟨m, rfl, hm⟩ | ⟨m, rfl, rfl⟩
    · -- the suffix starts before the rest does, by no more than nothing
      rw [String.utf8Len_append] at hbytes hlen
      have hnil : m = [] := String.utf8Len_eq_zero.mp (by omega)
      rw [hnil, List.nil_append] at hm
      rw [hm]
    · exact List.suffix_append m part

/-- A part that is not the last one. -/
theorem globSegments_cons (first : Bool) (part q : List Char) (parts : List (List Char))
    (rest : List Char) : globSegments first (part :: q :: parts) rest =
      if part.isEmpty then globSegments false (q :: parts) rest
      else if first then
        part.isPrefixOf rest && globSegments false (q :: parts) (rest.drop part.length)
      else match afterFirst part rest with
        | some rest => globSegments false (q :: parts) rest
        | none => false := rfl

theorem globLoop_last (last : Nat) (hlast : last ≠ 0) (pre rest : List Char) :
    globLoop (pre ++ rest) last last [part] (utf8Len pre) =
      some (globSegments false [part] rest) := by
  rw [globLoop, globSegments]
  cases hempty : part.isEmpty with
  | true => rfl
  | false =>
    have hsuffix : part.isSuffixOf rest = (part.isSuffixOf (pre ++ rest) &&
        !decide (utf8Len (pre ++ rest) - utf8Len part < utf8Len pre)) := by
      rw [Bool.eq_iff_iff, Bool.and_eq_true, Bool.not_eq_true', decide_eq_false_iff_not,
        List.isSuffixOf_iff_suffix, List.isSuffixOf_iff_suffix]
      exact isSuffix_rest_iff
    rw [if_neg Bool.false_ne_true, if_neg hlast, if_pos rfl, hsuffix, if_neg Bool.false_ne_true,
      Bool.false_or]
    cases part.isSuffixOf (pre ++ rest) with
    | false => rfl
    | true =>
      by_cases hover : utf8Len (pre ++ rest) - utf8Len part < utf8Len pre
      · rw [if_pos hover, decide_eq_true hover]
        rfl
      · rw [if_neg hover, decide_eq_false hover]
        rfl

/-- The cursor stands behind what is matched, and the loop is the walk over the rest. -/
theorem globLoop_eq {last i : Nat} (hlast : last ≠ 0) (hi : i + parts.length = last + 1)
    (hparts : parts ≠ []) (pre rest : List Char) :
    globLoop (pre ++ rest) last i parts (utf8Len pre) =
      some (globSegments (i = 0) parts rest) := by
  induction parts generalizing i pre rest with
  | nil => exact absurd rfl hparts
  | cons part parts ih =>
    cases parts with
    | nil =>
      have hend : i = last := by simpa using hi
      rw [hend, decide_eq_false hlast]
      exact globLoop_last last hlast pre rest
    | cons q parts =>
      have hmore : i + 1 + (q :: parts).length = last + 1 := by
        rw [← hi]
        simp only [List.length_cons]
        omega
      have hne : i ≠ last := by
        simp only [List.length_cons] at hi
        omega
      have hnext := fun pre rest => ih hmore (List.cons_ne_nil q parts) pre rest
      rw [decide_eq_false (Nat.succ_ne_zero i)] at hnext
      rw [globLoop, globSegments_cons]
      cases hempty : part.isEmpty with
      | true => exact hnext pre rest
      | false =>
        rw [if_neg Bool.false_ne_true, if_neg Bool.false_ne_true, sliceFrom_append]
        dsimp only
        by_cases hfirst : i = 0
        · rw [if_pos hfirst, if_pos (decide_eq_true hfirst)]
          cases hstarts : part.isPrefixOf rest with
          | false => rfl
          | true =>
            obtain ⟨tail, rfl⟩ := List.isPrefixOf_iff_prefix.mp hstarts
            have htail := hnext (pre ++ part) tail
            rw [List.append_assoc, String.utf8Len_append] at htail
            rw [List.drop_left]
            exact htail
        · rw [if_neg hfirst, if_neg hne, if_neg (by simpa using hfirst)]
          cases hfind : findBytes part rest with
          | none => rw [findBytes_eq_none_iff.mp hfind]
          | some idx =>
            obtain ⟨before, tail, rfl, rfl, hafter⟩ := findBytes_spec hfind
            have htail := hnext (pre ++ (before ++ part)) tail
            rw [List.append_assoc, String.utf8Len_append, String.utf8Len_append] at htail
            rw [hafter]
            exact htail

/-- No slice of the scan fails, and its answer is that of the scan over characters. -/
theorem globMatchBytes_eq (pattern input : String) :
    globMatchBytes pattern input = some (globMatch pattern input) := by
  rw [globMatchBytes, globMatch]
  split
  · rfl
  · split
    · rfl
    · next hstar =>
      have hlen := two_le_length_splitOn (not_not.mp hstar)
      exact globLoop_eq (by omega) (by omega) (by rw [← List.length_pos_iff]; omega) [] input.toList

end Cursor

section Segments

variable {part input rest : List Char} {parts : List (List Char)}

theorem afterFirst_behindFirst (hpart : part ≠ []) (h : afterFirst part input = some rest) :
    BehindFirst part input rest := by
  induction input with
  | nil =>
    rw [afterFirst, if_neg (by simpa using hpart)] at h
    cases h
  | cons c cs ih =>
    rw [afterFirst] at h
    split at h
    · next hstarts =>
      obtain ⟨tail, htail⟩ := List.isPrefixOf_iff_prefix.mp hstarts
      rw [← htail, List.drop_left] at h
      cases h
      refine ⟨by rw [htail], fun other hother => ?_⟩
      rw [← htail] at hother
      have hlen := hother.length_le
      rw [List.length_append, List.length_append] at hlen
      exact List.suffix_of_suffix_length_le ((List.suffix_append part other).trans hother)
        (List.suffix_append part _) (by omega)
    · next hstarts =>
      have hrest := ih h
      refine ⟨hrest.occurs.trans (List.suffix_cons c cs), fun other hother => ?_⟩
      rcases List.suffix_cons_iff.mp hother with heq | hsuffix
      · exact absurd (List.isPrefixOf_iff_prefix.mpr ⟨other, heq⟩) hstarts
      · exact hrest.first other hsuffix

theorem not_infix_of_afterFirst (hpart : part ≠ []) (h : afterFirst part input = none) :
    ¬part <:+: input := by
  induction input with
  | nil => simpa using hpart
  | cons c cs ih =>
    rw [afterFirst] at h
    split at h
    · cases h
    · next hstarts =>
      rw [List.infix_cons_iff, not_or]
      exact ⟨fun hp => hstarts (List.isPrefixOf_iff_prefix.mpr hp), ih h⟩

/-- Behind a star. -/
theorem globSegments_rest_iff (hparts : ∀ part ∈ parts, '*' ∉ part) (hne : parts ≠ [])
    (rest : List Char) : globSegments false parts rest = true ↔
      Fills '*' ('*' :: ['*'].intercalate parts) rest := by
  induction parts generalizing rest with
  | nil => exact absurd rfl hne
  | cons part parts ih =>
    obtain ⟨hpart, hrest⟩ := List.forall_mem_cons.mp hparts
    cases parts with
    | nil =>
      rw [List.intercalate_singleton, fills_wild_literal_iff hpart, globSegments,
        Bool.or_eq_true, List.isEmpty_iff, if_neg Bool.false_ne_true, List.isSuffixOf_iff_suffix]
      constructor
      · rintro (rfl | hsuffix)
        · exact List.nil_suffix
        · exact hsuffix
      · exact .inr
    | cons q parts =>
      have hnext := ih hrest (List.cons_ne_nil q parts)
      rw [List.intercalate_cons_cons, globSegments_cons]
      by_cases hempty : part = []
      · rw [hempty, if_pos (by rfl), hnext]
        exact fills_wild_wild_iff.symm
      · rw [if_neg (by simpa using hempty), if_neg Bool.false_ne_true]
        cases hafter : afterFirst part rest with
        | none =>
          have hnot := not_fills_wild_part (p := '*' :: ['*'].intercalate (q :: parts)) hpart
            (not_infix_of_afterFirst hempty hafter)
          simpa using hnot
        | some tail =>
          have hbehind := fills_wild_part_iff (p := ['*'].intercalate (q :: parts)) hpart
            (afterFirst_behindFirst hempty hafter)
          rw [List.append_assoc, List.singleton_append, hbehind]
          exact hnext tail

/-- From the start of the text. -/
theorem globSegments_iff (hparts : ∀ part ∈ parts, '*' ∉ part) (hlen : 2 ≤ parts.length)
    (input : List Char) : globSegments true parts input = true ↔
      Fills '*' (['*'].intercalate parts) input := by
  cases parts with
  | nil => exact absurd hlen (by simp)
  | cons part parts =>
    cases parts with
    | nil => exact absurd hlen (by simp)
    | cons q parts =>
      obtain ⟨hpart, hrest⟩ := List.forall_mem_cons.mp hparts
      have hnext := globSegments_rest_iff hrest (List.cons_ne_nil q parts)
      rw [List.intercalate_cons_cons, globSegments_cons, List.append_assoc, List.singleton_append]
      by_cases hempty : part = []
      · rw [hempty, if_pos (by rfl), hnext]
        rfl
      · rw [if_neg (by simpa using hempty), if_pos rfl, Bool.and_eq_true, fills_append_iff hpart,
          List.isPrefixOf_iff_prefix]
        constructor
        · rintro ⟨⟨tail, rfl⟩, htail⟩
          rw [List.drop_left] at htail
          exact ⟨tail, rfl, (hnext tail).mp htail⟩
        · rintro ⟨tail, rfl, htail⟩
          rw [List.drop_left]
          exact ⟨List.prefix_append part tail, (hnext tail).mpr htail⟩

theorem globMatch_iff_fills (pattern input : String) :
    globMatch pattern input = true ↔ Fills '*' pattern.toList input.toList := by
  rw [globMatch]
  split
  · next hstar =>
    have hfills : Fills '*' ['*'] input.toList :=
      fills_wild_iff.mpr ⟨[], List.nil_suffix, .nil⟩
    rw [hstar]
    exact iff_of_true rfl hfills
  · split
    · next hstar => rw [fills_literal_iff hstar, decide_eq_true_eq, String.toList_inj]
    · next hstar =>
      rw [globSegments_iff (fun _ => not_mem_of_mem_splitOn)
        (two_le_length_splitOn (not_not.mp hstar)), List.intercalate_splitOn]

end Segments

/-- The scan is total, and accepts the texts that are the pattern with some text for each star. -/
theorem glob_match_iff_fills (pattern input : String) :
    (globMatchBytes pattern input).isSome ∧
    (globMatchBytes pattern input = some true ↔ Fills '*' pattern.toList input.toList) := by
  rw [globMatchBytes_eq, Option.some.injEq]
  exact ⟨rfl, globMatch_iff_fills pattern input⟩

example : globMatchBytes "a*a" "a" = some false := by decide +kernel
example : globMatchBytes "é*z" "éèz" = some true := by decide +kernel

end PangeaOperator
