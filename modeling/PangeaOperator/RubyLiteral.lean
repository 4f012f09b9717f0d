import PangeaOperator.Lib.JsonText

/-!
# Ruby string literals

`ruby_string_literal` of `ruby/escape.rs` puts a template into a Ruby program as a double-quoted
literal. Against it stands the reader of such literals: an escape in octal takes up to three digits
and one in hexadecimal up to two, an unescaped number sign may start an interpolation, and an
unescaped quote ends the literal.
-/

namespace PangeaOperator

namespace RubyLiteral

open Json (quote backslash hexDigit)

def nul : Char := Char.ofNat 0

section Escape

/-- The control characters without an escape of their own have two hexadecimal digits. -/
def escapeChar (ch : Char) : List Char :=
  if ch = backslash then [backslash, backslash]
  else if ch = quote then [backslash, quote]
  else if ch = Char.ofNat 10 then [backslash, 'n']
  else if ch = Char.ofNat 13 then [backslash, 'r']
  else if ch = Char.ofNat 9 then [backslash, 't']
  else if ch = nul then [backslash, '0']
  else if ch = '#' then [backslash, '#']
  else if ch.toNat < 0x20 then
    [backslash, 'x', hexDigit (ch.toNat / 16), hexDigit (ch.toNat % 16)]
  else [ch]

def escaped (cs : List Char) : List Char := cs.flatMap escapeChar

def rubyStringLiteral (s : String) : String :=
  String.ofList (quote :: (escaped s.toList ++ [quote]))

end Escape

section Reader

def isOctal (c : Char) : Bool := 48 ≤ c.toNat && c.toNat < 56

def isHex (c : Char) : Bool :=
  c.isDigit || (97 ≤ c.toNat && c.toNat < 103) || (65 ≤ c.toNat && c.toNat < 71)

def digitValue (c : Char) : Nat :=
  if c.toNat < 58 then c.toNat - 48 else if c.toNat < 97 then c.toNat - 55 else c.toNat - 87

def character (base : Nat) (digits : List Char) : Char :=
  Char.ofNat (digits.foldl (fun n c => base * n + digitValue c) 0)

/-- What follows a backslash: the character that is meant, and what is behind it. -/
def readEscape : List Char → Option (Char × List Char)
  | [] => none
  | c :: cs =>
    let octal := ((c :: cs).take 3).takeWhile isOctal
    let hex := (cs.take 2).takeWhile isHex
    if c = 'n' then some (Char.ofNat 10, cs)
    else if c = 'r' then some (Char.ofNat 13, cs)
    else if c = 't' then some (Char.ofNat 9, cs)
    else if octal ≠ [] then some (character 8 octal, (c :: cs).drop octal.length)
    else if c = 'x' ∧ hex ≠ [] then some (character 16 hex, cs.drop hex.length)
    else some (c, cs)

theorem length_readEscape {cs rest : List Char} {c : Char} (h : readEscape cs = some (c, rest)) :
    rest.length < cs.length := by
  cases cs with
  | nil => simp [readEscape] at h
  | cons d cs =>
    simp only [readEscape] at h
    split_ifs at h with hn hr ht ho hx <;> obtain ⟨-, rfl⟩ := Prod.mk.inj (Option.some.inj h)
    · exact Nat.lt_succ_self _
    · exact Nat.lt_succ_self _
    · exact Nat.lt_succ_self _
    · have hpos := List.length_pos_iff.mpr ho
      simp only [List.length_drop, List.length_cons]
      omega
    · simp only [List.length_drop, List.length_cons]
      omega
    · exact Nat.lt_succ_self _

/-- The characters behind an unescaped number sign that make it an interpolation. -/
def interpolates (cs : List Char) : Bool :=
  match cs with
  | c :: _ => c == '\x7b' || c == '$' || c == '@'
  | [] => false

/-- A literal behind its opening quote: its value, and what is behind its closing quote. There is
neither where the literal does not end or interpolates. -/
def readBody (cs : List Char) : Option (List Char × List Char) :=
  match cs with
  | [] => none
  | c :: cs =>
    if c = quote then some ([], cs)
    else if c = backslash then
      match _h : readEscape cs with
      | none => none
      | some (c, rest) => (readBody rest).map (Prod.map (c :: ·) id)
    else if c = '#' ∧ interpolates cs then none
    else (readBody cs).map (Prod.map (c :: ·) id)
termination_by cs.length
decreasing_by
  · have := length_readEscape _h
    simp only [List.length_cons]
    omega
  · simp

def readLiteral : List Char → Option (List Char × List Char)
  | [] => none
  | c :: cs => if c = quote then readBody cs else none

end Reader

section Inverse

theorem readBody_quote (rest : List Char) : readBody (quote :: rest) = some ([], rest) := by
  rw [readBody, if_pos rfl]

theorem backslash_ne_quote : backslash ≠ quote := by decide

theorem readBody_escape {cs rest : List Char} {c : Char} (h : readEscape cs = some (c, rest)) :
    readBody (backslash :: cs) = (readBody rest).map (Prod.map (c :: ·) id) := by
  rw [readBody, if_neg backslash_ne_quote, if_pos rfl]
  split
  · next hnone => simp [h] at hnone
  · next d more hsome =>
    obtain ⟨rfl, rfl⟩ := Prod.mk.inj (Option.some.inj (h.symm.trans hsome))
    rfl

theorem readBody_plain {c : Char} (hq : c ≠ quote) (hb : c ≠ backslash) (hs : c ≠ '#')
    (cs : List Char) : readBody (c :: cs) = (readBody cs).map (Prod.map (c :: ·) id) := by
  rw [readBody, if_neg hq, if_neg hb, if_neg (fun h => hs h.1)]

/-- A character that is no octal digit stops the digits before it. -/
def StopsOctal (cs : List Char) : Prop := ∀ c ∈ cs.head?, isOctal c = false

theorem readEscape_nul {cs : List Char} (h : StopsOctal cs) :
    readEscape ('0' :: cs) = some (nul, cs) := by
  have hzero : isOctal '0' = true := by decide
  have hrun : (cs.take 2).takeWhile isOctal = [] := by
    cases cs with
    | nil => rfl
    | cons c cs => simp [h c rfl]
  have hoctal : (('0' :: cs).take 3).takeWhile isOctal = ['0'] := by
    rw [List.take_succ_cons, List.takeWhile_cons_of_pos hzero, hrun]
  have hvalue : character 8 ['0'] = nul := by decide
  simp only [readEscape, hoctal, hvalue]
  rfl

theorem digit_hexDigit :
    ∀ n < 16, isHex (hexDigit n) = true ∧ digitValue (hexDigit n) = n := by decide

theorem readEscape_hex {n : Nat} (h : n < 256) (cs : List Char) :
    readEscape ('x' :: hexDigit (n / 16) :: hexDigit (n % 16) :: cs) =
      some (Char.ofNat n, cs) := by
  obtain ⟨hhigh, hhighValue⟩ := digit_hexDigit (n / 16) (by omega)
  obtain ⟨hlow, hlowValue⟩ := digit_hexDigit (n % 16) (Nat.mod_lt _ (by omega))
  have hx : isOctal 'x' = false := by decide
  have hvalue : character 16 [hexDigit (n / 16), hexDigit (n % 16)] = Char.ofNat n := by
    have hn : 16 * (n / 16) + n % 16 = n := by omega
    simp [character, hhighValue, hlowValue, hn]
  simp [readEscape, hx, hhigh, hlow, hvalue]

/-- An escape that is no letter of an escape and no digit stands for the character itself. -/
theorem readEscape_self {c : Char} (hn : c ≠ 'n') (hr : c ≠ 'r') (ht : c ≠ 't') (hx : c ≠ 'x')
    (ho : isOctal c = false) (cs : List Char) : readEscape (c :: cs) = some (c, cs) := by
  simp [readEscape, hn, hr, ht, hx, ho]

/-- A character comes back from its escape, unless it is a NUL with an octal digit behind it. -/
theorem readBody_escapeChar {c : Char} {rest : List Char} (h : c = nul → StopsOctal rest) :
    readBody (escapeChar c ++ rest) = (readBody rest).map (Prod.map (c :: ·) id) := by
  unfold escapeChar
  split_ifs with hb hq hn hr ht hz hs hx
  · subst hb
    exact readBody_escape (readEscape_self (by decide) (by decide) (by decide) (by decide)
      (by decide) rest)
  · subst hq
    exact readBody_escape (readEscape_self (by decide) (by decide) (by decide) (by decide)
      (by decide) rest)
  · subst hn
    exact readBody_escape (by simp [readEscape])
  · subst hr
    exact readBody_escape (by simp [readEscape])
  · subst ht
    exact readBody_escape (by simp [readEscape])
  · subst hz
    exact readBody_escape (readEscape_nul (h rfl))
  · subst hs
    exact readBody_escape (readEscape_self (by decide) (by decide) (by decide) (by decide)
      (by decide) rest)
  · have hread := readBody_escape (readEscape_hex (n := c.toNat) (by omega) rest)
    rwa [Char.ofNat_toNat] at hread
  · exact readBody_plain hq hb hs rest

theorem escapeChar_octal {c : Char} (h : isOctal c = true) : escapeChar c = [c] := by
  have hne (d : Char) (hd : isOctal d = false) : c ≠ d := by
    rintro rfl
    simp [h] at hd
  have hlow : ¬ c.toNat < 0x20 := by
    simp only [isOctal, Bool.and_eq_true, decide_eq_true_eq] at h
    omega
  rw [escapeChar, if_neg (hne _ (by decide)), if_neg (hne _ (by decide)),
    if_neg (hne _ (by decide)), if_neg (hne _ (by decide)), if_neg (hne _ (by decide)),
    if_neg (hne _ (by decide)), if_neg (hne _ (by decide)), if_neg hlow]

/-- An escaped text begins with an octal digit where the text does. -/
theorem head_escapeChar (c : Char) : ∃ d ds, escapeChar c = d :: ds ∧ isOctal d = isOctal c := by
  by_cases h : isOctal c = true
  · exact ⟨c, [], escapeChar_octal h, rfl⟩
  · rw [Bool.not_eq_true] at h
    have hb : isOctal backslash = isOctal c := by
      rw [h]
      decide
    unfold escapeChar
    split_ifs
    all_goals first | exact ⟨backslash, _, rfl, hb⟩ | exact ⟨c, [], rfl, rfl⟩

theorem stopsOctal_escaped (cs : List Char) :
    StopsOctal (escaped cs ++ [quote]) ↔ StopsOctal cs := by
  cases cs with
  | nil => simp [escaped, StopsOctal, show isOctal quote = false by decide]
  | cons c cs =>
    obtain ⟨d, ds, hd, hoctal⟩ := head_escapeChar c
    simp [escaped, StopsOctal, hd, hoctal]

theorem exists_of_not_stopsOctal {cs : List Char} (h : ¬ StopsOctal cs) :
    ∃ d ds, cs = d :: ds ∧ isOctal d = true := by
  cases cs with
  | nil => exact absurd (by simp [StopsOctal]) h
  | cons d ds => exact ⟨d, ds, rfl, by simpa [StopsOctal] using h⟩

/-- No NUL directly before an octal digit. -/
def NulsApart (cs : List Char) : Prop := cs.IsChain (fun c d => c = nul → isOctal d = false)

theorem nulsApart_cons (c : Char) (cs : List Char) :
    NulsApart (c :: cs) ↔ (c = nul → StopsOctal cs) ∧ NulsApart cs := by
  simp only [NulsApart, List.isChain_cons, StopsOctal]
  exact and_congr_left fun _ => ⟨fun h hc d hd => h d hd hc, fun h d hd hc => h hc d hd⟩

theorem escaped_cons (c : Char) (cs : List Char) :
    escaped (c :: cs) ++ [quote] = escapeChar c ++ (escaped cs ++ [quote]) := by
  rw [escaped, List.flatMap_cons, List.append_assoc]
  rfl

theorem readBody_escaped {cs : List Char} (h : NulsApart cs) :
    readBody (escaped cs ++ [quote]) = some (cs, []) := by
  induction cs with
  | nil => exact readBody_quote []
  | cons c cs ih =>
    obtain ⟨hc, hcs⟩ := (nulsApart_cons c cs).mp h
    rw [escaped_cons, readBody_escapeChar (fun hnul => (stopsOctal_escaped cs).mpr (hc hnul)),
      ih hcs]
    rfl

/-- A NUL takes the octal digit behind it along, and the next one too. -/
theorem readEscape_two {d : Char} {cs : List Char} (hd : isOctal d = true) (h : StopsOctal cs) :
    ∃ c, readEscape ('0' :: d :: cs) = some (c, cs) := by
  have hzero : isOctal '0' = true := by decide
  have hrun : (cs.take 1).takeWhile isOctal = [] := by
    cases cs with
    | nil => rfl
    | cons e cs => simp [h e rfl]
  have hoctal : (('0' :: d :: cs).take 3).takeWhile isOctal = ['0', d] := by
    rw [List.take_succ_cons, List.take_succ_cons, List.takeWhile_cons_of_pos hzero,
      List.takeWhile_cons_of_pos hd, hrun]
  refine ⟨character 8 ['0', d], ?_⟩
  simp only [readEscape, hoctal]
  rfl

theorem readEscape_three {d e : Char} (hd : isOctal d = true) (he : isOctal e = true)
    (cs : List Char) : ∃ c, readEscape ('0' :: d :: e :: cs) = some (c, cs) := by
  have hzero : isOctal '0' = true := by decide
  have hoctal : (('0' :: d :: e :: cs).take 3).takeWhile isOctal = ['0', d, e] := by
    simp [hzero, hd, he]
  refine ⟨character 8 ['0', d, e], ?_⟩
  simp only [readEscape, hoctal]
  rfl

/-- Every literal ends at its own closing quote, and it loses characters where a NUL takes a digit
along. The induction is on the length: what is read at once has up to three characters. -/
theorem readBody_length (cs : List Char) : ∃ v, readBody (escaped cs ++ [quote]) = some (v, []) ∧
    v.length ≤ cs.length ∧ (¬ NulsApart cs → v.length < cs.length) := by
  induction hn : cs.length using Nat.strong_induction_on generalizing cs with
  | _ n ih =>
    subst hn
    cases cs with
    | nil => exact ⟨[], readBody_quote [], le_rfl, fun h => absurd List.isChain_nil h⟩
    | cons c cs =>
      by_cases hc : c = nul → StopsOctal cs
      · obtain ⟨v, hv, hle, hlt⟩ := ih cs.length (Nat.lt_succ_self _) cs rfl
        refine ⟨c :: v, ?_, Nat.succ_le_succ hle, fun h => Nat.succ_lt_succ (hlt fun hcs => ?_)⟩
        · rw [escaped_cons, readBody_escapeChar
            (fun hnul => (stopsOctal_escaped cs).mpr (hc hnul)), hv]
          rfl
        · exact h ((nulsApart_cons c cs).mpr ⟨hc, hcs⟩)
      · obtain ⟨rfl, hoctal⟩ := Classical.not_imp.mp hc
        obtain ⟨d, ds, rfl, hd⟩ := exists_of_not_stopsOctal hoctal
        have hnul : escapeChar nul = [backslash, '0'] := by decide
        have hfront : escaped (nul :: d :: ds) ++ [quote] =
            backslash :: '0' :: d :: (escaped ds ++ [quote]) := by
          rw [escaped_cons, escaped_cons, hnul, escapeChar_octal hd]
          rfl
        by_cases hstop : StopsOctal ds
        · obtain ⟨v, hv, hle, -⟩ := ih ds.length (by simp) ds rfl
          obtain ⟨x, hx⟩ := readEscape_two hd ((stopsOctal_escaped ds).mpr hstop)
          refine ⟨x :: v, ?_, ?_, fun _ => ?_⟩
          · rw [hfront, readBody_escape hx, hv]
            rfl
          all_goals simp only [List.length_cons]; omega
        · obtain ⟨e, es, rfl, he⟩ := exists_of_not_stopsOctal hstop
          obtain ⟨v, hv, hle, -⟩ := ih es.length (by simp only [List.length_cons]; omega) es rfl
          obtain ⟨x, hx⟩ := readEscape_three hd he (escaped es ++ [quote])
          refine ⟨x :: v, ?_, ?_, fun _ => ?_⟩
          · rw [hfront, escaped_cons, escapeChar_octal he, List.singleton_append,
              readBody_escape hx, hv]
            rfl
          all_goals simp only [List.length_cons]; omega

theorem readLiteral_rubyStringLiteral (s : String) :
    readLiteral (rubyStringLiteral s).toList = readBody (escaped s.toList ++ [quote]) := by
  rw [rubyStringLiteral, String.toList_ofList, readLiteral, if_pos rfl]

theorem readLiteral_iff (s : String) :
    readLiteral (rubyStringLiteral s).toList = some (s.toList, []) ↔ NulsApart s.toList := by
  rw [readLiteral_rubyStringLiteral]
  constructor
  · intro h
    by_contra hapart
    obtain ⟨v, hv, -, hlt⟩ := readBody_length s.toList
    obtain ⟨rfl, -⟩ := Prod.mk.inj (Option.some.inj (hv.symm.trans h))
    exact absurd (hlt hapart) (lt_irrefl _)
  · exact readBody_escaped

/-- A NUL before the digit seven is read as one bell. -/
theorem readLiteral_bell : ¬ ∀ s : String,
    readLiteral (rubyStringLiteral s).toList = some (s.toList, []) := by
  intro h
  have hbell := h (String.ofList [nul, '7'])
  rw [readLiteral_rubyStringLiteral, String.toList_ofList] at hbell
  have hread : readBody (escaped [nul, '7'] ++ [quote]) = some ([Char.ofNat 7], []) := by
    decide +kernel
  simp [hread] at hbell

end Inverse

end RubyLiteral

end PangeaOperator
