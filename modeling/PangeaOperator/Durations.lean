import PangeaOperator.Reactive

/-!
# Durations in texts

The parsers of durations in `controller/reconciler.rs` and in `controller/reactive.rs`, with the
places where they stop: a slice that begins inside a character, and a product beyond `u64`. Numbers
of seconds, minutes and hours are all that both of them read.
-/

namespace PangeaOperator

/-- What stops a program that checks its arithmetic and its slices. -/
inductive Fault where
  | charBoundary
  | overflow
  deriving DecidableEq, Repr

def mulU64 (a b : Nat) : Except Fault Nat :=
  if a * b < UInt64.size then .ok (a * b) else .error .overflow

def addU64 (a b : Nat) : Except Fault Nat :=
  if a + b < UInt64.size then .ok (a + b) else .error .overflow

/-- `std::time::Duration`, in nanoseconds. -/
abbrev Duration := Nat

def fromMillis (n : Nat) : Duration := n * 1000000

def fromSecs (n : Nat) : Duration := n * 1000000000

namespace Reconciler

/-- The digits and the unit. The last character is cut off as one byte. -/
def splitUnit (cs : List Char) : Except Fault (Option (List Char × String)) :=
  match (stripSuffix 's' cs).bind (stripSuffix 'm') with
  | some stripped => .ok (some (stripped, "ms"))
  | none =>
    match cs.getLast? with
    | none => .ok none
    | some lastChar =>
      if lastChar.isDigit then .ok (some (cs, "s"))
      else if lastChar.utf8Size = 1 then .ok (some (cs.dropLast, String.singleton lastChar))
      else .error .charBoundary

def inUnit (num : Nat) : String → Except Fault (Option Duration)
  | "ms" => .ok (some (fromMillis num))
  | "s" => .ok (some (fromSecs num))
  | "m" => (mulU64 num 60).map (fun secs => some (fromSecs secs))
  | "h" => (mulU64 num 3600).map (fun secs => some (fromSecs secs))
  | "d" => (mulU64 num 86400).map (fun secs => some (fromSecs secs))
  | _ => .ok none

def parseTrimmed (cs : List Char) : Except Fault (Option Duration) :=
  if cs = [] then .ok none
  else do
    match ← splitUnit cs with
    | none => .ok none
    | some (numStr, unit) =>
      match parseU64 numStr with
      | none => .ok none
      | some num => inUnit num unit

/-- `reconciler::parse_duration`. -/
def parseDuration (s : String) : Except Fault (Option Duration) :=
  parseTrimmed (trimMatches isWhitespace s.toList)

end Reconciler

namespace Reactive

def parseTrimmed (cs : List Char) : Except Fault (Option Duration) :=
  match (stripSuffix 's' cs).bind parseU64 with
  | some n => .ok (some (fromSecs n))
  | none =>
    match (stripSuffix 'm' cs).bind parseU64 with
    | some n => (mulU64 n 60).map (fun secs => some (fromSecs secs))
    | none =>
      match (stripSuffix 'h' cs).bind parseU64 with
      | some n => (mulU64 n 3600).map (fun secs => some (fromSecs secs))
      | none => .ok none

/-- `reactive::parse_duration`, where its products are checked. -/
def parseDuration (s : String) : Except Fault (Option Duration) :=
  parseTrimmed (trimMatches isWhitespace s.toList)

end Reactive

section Arithmetic

theorem mulU64_eq_ok_iff {a b n : Nat} : mulU64 a b = .ok n ↔ n = a * b ∧ a * b < UInt64.size := by
  rw [mulU64]
  by_cases h : a * b < UInt64.size
  · simp [h, eq_comm]
  · simp [h]

theorem addU64_eq_ok_iff {a b n : Nat} : addU64 a b = .ok n ↔ n = a + b ∧ a + b < UInt64.size := by
  rw [addU64]
  by_cases h : a + b < UInt64.size
  · simp [h, eq_comm]
  · simp [h]

theorem parseU64_lt {cs : List Char} {n : Nat} (h : parseU64 cs = some n) : n < UInt64.size := by
  simp only [parseU64, Option.ite_none_right_eq_some, Option.some.injEq] at h
  obtain ⟨⟨-, -, hlt⟩, rfl⟩ := h
  exact hlt

theorem exists_digits {cs : List Char} {n : Nat} (h : parseU64 cs = some n) :
    ∃ digits, digits <:+ cs ∧ digits ≠ [] ∧ ∀ d ∈ digits, d.isDigit = true := by
  simp only [parseU64, Option.ite_none_right_eq_some, List.all_eq_true] at h
  refine ⟨_, ?_, h.1.1, h.1.2.1⟩
  split
  · exact List.suffix_cons '+' _
  · exact List.suffix_rfl

/-- A number ends in a digit. -/
theorem parseU64_concat {cs : List Char} {c : Char} {n : Nat} (h : parseU64 (cs ++ [c]) = some n) :
    c.isDigit = true := by
  obtain ⟨digits, hsuffix, hne, hdigits⟩ := exists_digits h
  rcases List.suffix_concat_iff.mp hsuffix with hnil | ⟨front, rfl, -⟩
  · exact absurd hnil hne
  · exact hdigits c (List.mem_append_right _ List.mem_cons_self)

/-- Where no product overflows, the checks change nothing. -/
theorem Reactive.parseDuration_eq {s : String} {d : Option Duration}
    (h : Reactive.parseDuration s = .ok d) : (PangeaOperator.parseDuration s).map fromSecs = d := by
  have hscaled {n k : Nat} (hscale : (mulU64 n k).map (fun secs => some (fromSecs secs)) = .ok d) :
      some (fromSecs (n * k % UInt64.size)) = d := by
    rw [mulU64] at hscale
    split at hscale
    · next hlt =>
      cases hscale
      rw [Nat.mod_eq_of_lt hlt]
    · cases hscale
  rw [Reactive.parseDuration, parseTrimmed] at h
  rw [PangeaOperator.parseDuration]
  dsimp only
  cases hs : (stripSuffix 's' (trimMatches isWhitespace s.toList)).bind parseU64 with
  | some n =>
    obtain ⟨digits, -, hn⟩ := Option.bind_eq_some_iff.mp hs
    rw [hs] at h
    cases h
    rw [Option.map_some, Nat.mul_one, Nat.mod_eq_of_lt (parseU64_lt hn)]
    rfl
  | none =>
    cases hm : (stripSuffix 'm' (trimMatches isWhitespace s.toList)).bind parseU64 with
    | some n =>
      rw [hs, hm] at h
      exact hscaled h
    | none =>
      cases hh : (stripSuffix 'h' (trimMatches isWhitespace s.toList)).bind parseU64 with
      | some n =>
        rw [hs, hm, hh] at h
        exact hscaled h
      | none =>
        rw [hs, hm, hh] at h
        cases h
        rfl

theorem stripSuffix_concat (c d : Char) (cs : List Char) :
    stripSuffix c (cs ++ [d]) = if d = c then some cs else none := by
  simp [stripSuffix]

end Arithmetic

section Shapes

variable {cs : List Char} {c : Char}

theorem Reconciler.parseTrimmed_of_splitUnit {numStr : List Char} {unit : String} (hcs : cs ≠ [])
    (h : Reconciler.splitUnit cs = .ok (some (numStr, unit))) :
    Reconciler.parseTrimmed cs = (parseU64 numStr).elim (.ok none) (Reconciler.inUnit · unit) := by
  rw [parseTrimmed, if_neg hcs, h]
  simp only [bind, Except.bind]
  cases parseU64 numStr <;> rfl

theorem Reconciler.parseTrimmed_millis (es : List Char) :
    Reconciler.parseTrimmed (es ++ ['m', 's']) = .ok ((parseU64 es).map fromMillis) := by
  have hsplit : splitUnit (es ++ ['m', 's']) = .ok (some (es, "ms")) := by
    rw [show es ++ ['m', 's'] = es ++ ['m'] ++ ['s'] by simp, splitUnit, stripSuffix_concat]
    simp [stripSuffix_concat]
  rw [parseTrimmed_of_splitUnit (by simp) hsplit]
  cases parseU64 es <;> rfl

theorem Reconciler.splitUnit_concat (hms : c = 's' → cs.getLast? ≠ some 'm') :
    Reconciler.splitUnit (cs ++ [c]) =
      if c.isDigit then .ok (some (cs ++ [c], "s"))
      else if c.utf8Size = 1 then .ok (some (cs, String.singleton c))
      else .error .charBoundary := by
  have hnone : (stripSuffix 's' (cs ++ [c])).bind (stripSuffix 'm') = none := by
    rw [stripSuffix_concat]
    by_cases hc : c = 's'
    · simp [hc, stripSuffix, hms hc]
    · simp [hc]
  rw [splitUnit, hnone]
  simp

theorem Reactive.parseTrimmed_concat : Reactive.parseTrimmed (cs ++ [c]) =
    (parseU64 cs).elim (.ok none) (fun n =>
      if c = 's' then .ok (some (fromSecs n))
      else if c = 'm' then (mulU64 n 60).map (fun secs => some (fromSecs secs))
      else if c = 'h' then (mulU64 n 3600).map (fun secs => some (fromSecs secs))
      else .ok none) := by
  simp only [parseTrimmed, stripSuffix_concat]
  cases hn : parseU64 cs with
  | none => split_ifs <;> simp [hn]
  | some n =>
    by_cases hs : c = 's'
    · simp [hs, hn]
    by_cases hm : c = 'm'
    · simp [hm, hn]
    by_cases hh : c = 'h'
    · simp [hh, hn]
    · simp [hs, hm, hh]

end Shapes

section Compare

/-- Neither parser stops, and what one of them reads the other reads as well. -/
structure MeansOneThing (s : String) : Prop where
  reconciler : ∃ r, Reconciler.parseDuration s = .ok r
  reactive : ∃ r, Reactive.parseDuration s = .ok r
  same : ∀ d, Reconciler.parseDuration s = .ok (some d) ↔ Reactive.parseDuration s = .ok (some d)

/-- No number stands where only one parser reads it, by itself or before `ms` or `d`; a number of
minutes or hours is small enough; and the last character is one byte. -/
structure InCommon (cs : List Char) : Prop where
  ascii : ∀ c, cs.getLast? = some c → c.utf8Size = 1
  bare : parseU64 cs = none
  millis : ∀ num, cs = num ++ ['m', 's'] → parseU64 num = none
  days : ∀ num, cs = num ++ ['d'] → parseU64 num = none
  minutes : ∀ num n, cs = num ++ ['m'] → parseU64 num = some n → n * 60 < UInt64.size
  hours : ∀ num n, cs = num ++ ['h'] → parseU64 num = some n → n * 3600 < UInt64.size

def Agree (a b : Except Fault (Option Duration)) : Prop := ∃ r, a = .ok r ∧ b = .ok r

variable {cs : List Char} {c : Char}

theorem agree_self_iff {a : Except Fault (Option Duration)} : Agree a a ↔ ∃ r, a = .ok r := by
  simp [Agree]

theorem agree_none_iff {a : Except Fault (Option Duration)} :
    Agree a (.ok none) ↔ a = .ok none := by
  simp [Agree]

theorem meansOneThing_iff_agree {s : String} : MeansOneThing s ↔
    Agree (Reconciler.parseDuration s) (Reactive.parseDuration s) := by
  constructor
  · rintro ⟨⟨r, hr⟩, ⟨r', hr'⟩, hsame⟩
    rw [hr, hr'] at hsame ⊢
    refine ⟨r, rfl, congrArg Except.ok (Option.ext fun d => ?_)⟩
    simpa using (hsame d).symm
  · rintro ⟨r, hr, hr'⟩
    exact ⟨⟨r, hr⟩, ⟨r, hr'⟩, fun d => by rw [hr, hr']⟩

/-- A product in a unit that both have. -/
theorem exists_scaled_iff (num : Option Nat) (k : Nat) :
    (∃ r, num.elim (.ok none) (fun n => (mulU64 n k).map fun secs => some (fromSecs secs)) =
      Except.ok r) ↔ ∀ n, num = some n → n * k < UInt64.size := by
  cases num with
  | none => simp
  | some n =>
    rw [Option.elim_some, mulU64]
    by_cases h : n * k < UInt64.size
    · simp [h, Except.map]
    · simp [h, Except.map]

theorem inCommon_concat_iff : InCommon (cs ++ [c]) ↔
    c.utf8Size = 1 ∧ parseU64 (cs ++ [c]) = none ∧
      (c = 's' → ∀ num, cs = num ++ ['m'] → parseU64 num = none) ∧
      (c = 'd' → parseU64 cs = none) ∧
      (c = 'm' → ∀ n, parseU64 cs = some n → n * 60 < UInt64.size) ∧
      (c = 'h' → ∀ n, parseU64 cs = some n → n * 3600 < UInt64.size) := by
  constructor
  · intro h
    refine ⟨h.ascii c List.getLast?_concat, h.bare, ?_, ?_, ?_, ?_⟩
    · rintro rfl num rfl
      exact h.millis num (by simp)
    · rintro rfl
      exact h.days cs rfl
    · rintro rfl n hn
      exact h.minutes cs n rfl hn
    · rintro rfl n hn
      exact h.hours cs n rfl hn
  · rintro ⟨hascii, hbare, hmillis, hdays, hminutes, hhours⟩
    refine ⟨fun d hd => ?_, hbare, fun num heq => ?_, fun num heq => ?_, fun num n heq => ?_,
      fun num n heq => ?_⟩
    · rw [List.getLast?_concat, Option.some_inj] at hd
      exact hd ▸ hascii
    · rw [List.append_cons num 'm' ['s']] at heq
      obtain ⟨hcs, hc⟩ := List.append_inj' heq rfl
      exact hmillis (List.cons.inj hc).1 num hcs
    · obtain ⟨rfl, hc⟩ := List.append_inj' heq rfl
      exact hdays (List.cons.inj hc).1
    · obtain ⟨rfl, hc⟩ := List.append_inj' heq rfl
      exact hminutes (List.cons.inj hc).1 n
    · obtain ⟨rfl, hc⟩ := List.append_inj' heq rfl
      exact hhours (List.cons.inj hc).1 n

theorem parseU64_concat_eq_none (hc : c.isDigit ≠ true) : parseU64 (cs ++ [c]) = none := by
  cases h : parseU64 (cs ++ [c]) with
  | none => rfl
  | some n => exact absurd (parseU64_concat h) hc

theorem utf8Size_of_isDigit (hc : c.isDigit = true) : c.utf8Size = 1 := by
  simp only [Char.isDigit, Bool.and_eq_true, decide_eq_true_eq] at hc
  exact Char.utf8Size_eq_one_iff.mpr (UInt32.le_trans hc.2 (by decide))

theorem ne_of_isDigit (hc : c.isDigit = true) : c ≠ 's' ∧ c ≠ 'm' ∧ c ≠ 'h' ∧ c ≠ 'd' := by
  refine ⟨?_, ?_, ?_, ?_⟩ <;> rintro rfl <;> exact absurd hc (by decide)

/-- A unit of one letter, which is not the end of `ms`. -/
theorem parseTrimmed_unit (hms : c = 's' → cs.getLast? ≠ some 'm') (hc : c.isDigit ≠ true)
    (hascii : c.utf8Size = 1) : Reconciler.parseTrimmed (cs ++ [c]) =
      (parseU64 cs).elim (.ok none) (Reconciler.inUnit · (String.singleton c)) := by
  refine Reconciler.parseTrimmed_of_splitUnit (by simp) ?_
  rw [Reconciler.splitUnit_concat hms, if_neg hc, if_pos hascii]

theorem inUnit_other {n : Nat} (hs : c ≠ 's') (hm : c ≠ 'm') (hh : c ≠ 'h') (hd : c ≠ 'd') :
    Reconciler.inUnit n (String.singleton c) = .ok none := by
  have hne (unit : String) (hunit : unit.toList ≠ [c]) : String.singleton c ≠ unit := by
    rintro rfl
    exact hunit (String.toList_singleton c)
  have h1 := hne "ms" (by simp)
  have h2 := hne "s" (by simpa using hs.symm)
  have h3 := hne "m" (by simpa using hm.symm)
  have h4 := hne "h" (by simpa using hh.symm)
  have h5 := hne "d" (by simpa using hd.symm)
  unfold Reconciler.inUnit
  split
  · next h => exact absurd h h1
  · next h => exact absurd h h2
  · next h => exact absurd h h3
  · next h => exact absurd h h4
  · next h => exact absurd h h5
  · rfl

theorem agree_digit_iff (hc : c.isDigit = true) :
    Agree (Reconciler.parseTrimmed (cs ++ [c])) (Reactive.parseTrimmed (cs ++ [c])) ↔
      parseU64 (cs ++ [c]) = none := by
  obtain ⟨hs, hm, hh, -⟩ := ne_of_isDigit hc
  have hsplit : Reconciler.splitUnit (cs ++ [c]) = .ok (some (cs ++ [c], "s")) := by
    rw [Reconciler.splitUnit_concat (absurd · hs), if_pos hc]
  have hreactive : Reactive.parseTrimmed (cs ++ [c]) = .ok none := by
    rw [Reactive.parseTrimmed_concat]
    cases parseU64 cs <;> simp [hs, hm, hh]
  rw [Reconciler.parseTrimmed_of_splitUnit (by simp) hsplit, hreactive, agree_none_iff]
  cases parseU64 (cs ++ [c]) <;> simp [Reconciler.inUnit]

/-- Seconds are read by both, and milliseconds by one. -/
theorem agree_seconds_iff :
    Agree (Reconciler.parseTrimmed (cs ++ ['s'])) (Reactive.parseTrimmed (cs ++ ['s'])) ↔
      ∀ num, cs = num ++ ['m'] → parseU64 num = none := by
  rcases List.eq_nil_or_concat' cs with rfl | ⟨num, c, rfl⟩
  · refine iff_of_true ⟨none, by decide +kernel, by decide +kernel⟩ (by simp)
  by_cases hc : c = 'm'
  · subst hc
    have hreactive : Reactive.parseTrimmed (num ++ ['m'] ++ ['s']) = .ok none := by
      rw [Reactive.parseTrimmed_concat, parseU64_concat_eq_none (by decide), Option.elim_none]
    rw [hreactive, agree_none_iff, ← List.append_cons num 'm' ['s'],
      Reconciler.parseTrimmed_millis]
    cases hnum : parseU64 num <;> simp [hnum]
  · have hms : 's' = 's' → (num ++ [c]).getLast? ≠ some 'm' := by simpa using hc
    have hboth : Reactive.parseTrimmed (num ++ [c] ++ ['s']) =
        Reconciler.parseTrimmed (num ++ [c] ++ ['s']) := by
      rw [parseTrimmed_unit hms (by decide) rfl, Reactive.parseTrimmed_concat]
      rfl
    rw [hboth, agree_self_iff, parseTrimmed_unit hms (by decide) rfl]
    refine iff_of_true ?_ fun num' heq => ?_
    · cases parseU64 (num ++ [c]) with
      | none => exact ⟨none, rfl⟩
      | some n => exact ⟨some (fromSecs n), rfl⟩
    · exact absurd (List.cons.inj (List.append_inj' heq rfl).2).1 hc

theorem agree_days_iff :
    Agree (Reconciler.parseTrimmed (cs ++ ['d'])) (Reactive.parseTrimmed (cs ++ ['d'])) ↔
      parseU64 cs = none := by
  have hreactive : Reactive.parseTrimmed (cs ++ ['d']) = .ok none := by
    rw [Reactive.parseTrimmed_concat]
    cases parseU64 cs <;> simp
  rw [hreactive, agree_none_iff, parseTrimmed_unit (by simp) (by decide) rfl]
  cases parseU64 cs with
  | none => simp
  | some n =>
    have hscaled : Reconciler.inUnit n (String.singleton 'd') =
        (mulU64 n 86400).map fun secs => some (fromSecs secs) := rfl
    rw [Option.elim_some, hscaled, mulU64]
    split <;> simp [Except.map]

/-- Minutes and hours are read by both, as long as the product is. -/
theorem agree_scaled_iff {k : Nat} (hc : c = 'm' ∧ k = 60 ∨ c = 'h' ∧ k = 3600) :
    Agree (Reconciler.parseTrimmed (cs ++ [c])) (Reactive.parseTrimmed (cs ++ [c])) ↔
      ∀ n, parseU64 cs = some n → n * k < UInt64.size := by
  have hreconciler : Reconciler.parseTrimmed (cs ++ [c]) = (parseU64 cs).elim (.ok none)
      (fun n => (mulU64 n k).map fun secs => some (fromSecs secs)) := by
    rcases hc with ⟨rfl, rfl⟩ | ⟨rfl, rfl⟩ <;> exact parseTrimmed_unit (by simp) (by decide) rfl
  have hreactive : Reactive.parseTrimmed (cs ++ [c]) = (parseU64 cs).elim (.ok none)
      (fun n => (mulU64 n k).map fun secs => some (fromSecs secs)) := by
    rcases hc with ⟨rfl, rfl⟩ | ⟨rfl, rfl⟩ <;> exact Reactive.parseTrimmed_concat
  rw [hreconciler, hreactive, agree_self_iff, exists_scaled_iff]

theorem agree_other (hs : c ≠ 's') (hm : c ≠ 'm') (hh : c ≠ 'h') (hd : c ≠ 'd')
    (hc : c.isDigit ≠ true) (hascii : c.utf8Size = 1) :
    Agree (Reconciler.parseTrimmed (cs ++ [c])) (Reactive.parseTrimmed (cs ++ [c])) := by
  refine ⟨none, ?_, ?_⟩
  · rw [parseTrimmed_unit (absurd · hs) hc hascii]
    cases parseU64 cs with
    | none => rfl
    | some n => exact inUnit_other hs hm hh hd
  · rw [Reactive.parseTrimmed_concat]
    cases parseU64 cs <;> simp [hs, hm, hh]

theorem agree_iff_inCommon (cs : List Char) :
    Agree (Reconciler.parseTrimmed cs) (Reactive.parseTrimmed cs) ↔ InCommon cs := by
  rcases List.eq_nil_or_concat' cs with rfl | ⟨cs, c, rfl⟩
  · refine iff_of_true ⟨none, rfl, rfl⟩ ⟨?_, rfl, ?_, ?_, ?_, ?_⟩ <;> simp
  rw [inCommon_concat_iff]
  by_cases hdigit : c.isDigit = true
  · obtain ⟨hs, hm, hh, hd⟩ := ne_of_isDigit hdigit
    rw [agree_digit_iff hdigit]
    simp [hs, hm, hh, hd, utf8Size_of_isDigit hdigit]
  rw [parseU64_concat_eq_none hdigit]
  by_cases hascii : c.utf8Size = 1
  · by_cases hs : c = 's'
    · subst hs
      simp [agree_seconds_iff, hascii]
    by_cases hm : c = 'm'
    · subst hm
      simp [agree_scaled_iff (.inl ⟨rfl, rfl⟩), hascii]
    by_cases hh : c = 'h'
    · subst hh
      simp [agree_scaled_iff (.inr ⟨rfl, rfl⟩), hascii]
    by_cases hd : c = 'd'
    · subst hd
      simp [agree_days_iff, hascii]
    · simp [hs, hm, hh, hd, hascii, agree_other hs hm hh hd hdigit hascii]
  · have hs : c ≠ 's' := fun h => hascii (h ▸ rfl)
    have hstops : Reconciler.parseTrimmed (cs ++ [c]) = .error .charBoundary := by
      rw [Reconciler.parseTrimmed, if_neg (by simp), Reconciler.splitUnit_concat (absurd · hs),
        if_neg hdigit, if_neg hascii]
      rfl
    refine iff_of_false ?_ fun h => hascii h.1
    rintro ⟨r, hr, -⟩
    cases hstops.symm.trans hr

/-- The two parsers mean one thing by the texts that both have a form for, and by no other. -/
theorem meansOneThing_iff (s : String) :
    MeansOneThing s ↔ InCommon (trimMatches isWhitespace s.toList) :=
  meansOneThing_iff_agree.trans (agree_iff_inCommon _)

/-- A day is read by one of them; a last character of two bytes stops the first, and a number of
minutes that is too large stops both. -/
theorem not_meansOneThing_day : ¬ MeansOneThing "1d" ∧ ¬ MeansOneThing "5µ" ∧
    ¬ MeansOneThing "307445734561825861m" := by
  refine ⟨fun h => ?_, fun h => ?_, fun h => ?_⟩
  · have hday : Reconciler.parseDuration "1d" = .ok (some (fromSecs 86400)) := by decide +kernel
    have hnone : Reactive.parseDuration "1d" = .ok none := by decide +kernel
    cases hnone.symm.trans ((h.same _).mp hday)
  · obtain ⟨r, hr⟩ := h.reconciler
    have hstops : Reconciler.parseDuration "5µ" = .error .charBoundary := by decide +kernel
    cases hstops.symm.trans hr
  · obtain ⟨r, hr⟩ := h.reconciler
    have hstops : Reconciler.parseDuration "307445734561825861m" = .error .overflow := by
      decide +kernel
    cases hstops.symm.trans hr

end Compare

end PangeaOperator
